import Relos.Async.Component
import Relos.Store.MemoryStore
import Mathlib.Data.List.Nodup
import Mathlib.Data.Set.Basic

set_option autoImplicit false

/-! Write transactions of one store, interleaved in any order. Nothing is locked
between the begin of a transaction and its commit. -/

namespace Relos

open Async

inductive TxnCommand where
  | get (key : Bytes)
  | prefixScan (keyPrefix : Bytes)
  | put (key value : Bytes)
  | delete (key : Bytes)
deriving DecidableEq

inductive TxnAnswer where
  | value (value : Option Bytes)
  | pairs (pairs : List (Bytes × Bytes))
  | unit
deriving DecidableEq

/-- The commands of a transaction with the answers it got. -/
abbrev TxnHistory := List (TxnCommand × TxnAnswer)

namespace MemoryWriteTx

def perform (txn : MemoryWriteTx) : TxnCommand → MemoryWriteTx × TxnAnswer
  | .get key => (txn, .value (txn.get key))
  | .prefixScan keyPrefix => (txn, .pairs (txn.prefixScan keyPrefix))
  | .put key value => (txn.put key value, .unit)
  | .delete key => (txn.delete key, .unit)

/-- Perform the commands again, if they get the same answers. -/
def replay : MemoryWriteTx → TxnHistory → Option MemoryWriteTx
  | txn, [] => some txn
  | txn, (command, answer) :: rest =>
      let (next, seen) := txn.perform command
      if seen = answer then replay next rest else none

end MemoryWriteTx

/-- Run whole transactions one after another. -/
def MemoryStore.runSerially : MemoryStore → List TxnHistory → Option MemoryStore
  | store, [] => some store
  | store, history :: rest =>
      (store.beginWriteTxn.replay history).bind fun txn => runSerially txn.commit rest

inductive TxnStatus where
  | active
  | committed
  | rolledBack
deriving DecidableEq

/-- A write transaction. Only statements read its snapshot and its history. -/
structure WriteTransaction where
  txn : MemoryWriteTx
  status : TxnStatus
  snapshot : StoreData
  history : TxnHistory
deriving DecidableEq

/-- `commits` lists the committed transactions in the order of their commits. -/
structure Transactions where
  store : MemoryStore
  transactions : List WriteTransaction
  commits : List Nat

inductive TxnAction where
  | begin
  | perform (index : Nat) (command : TxnCommand)
  | commit (index : Nat)
  | rollback (index : Nat)
deriving DecidableEq

namespace Transactions

def new : Transactions := { store := .new, transactions := [], commits := [] }

/-- Only the owner of an active transaction can use it. -/
def active (system : Transactions) (index : Nat) : Option WriteTransaction :=
  system.transactions[index]?.filter fun transaction => transaction.status = .active

def machine : Machine Transactions TxnAction where
  step
    | system, .begin => some { system with
        transactions := system.transactions ++
          [⟨system.store.beginWriteTxn, .active, system.store.data, []⟩] }
    | system, .perform index command =>
        (system.active index).map fun transaction =>
          let (next, answer) := transaction.txn.perform command
          { system with
            transactions := system.transactions.set index
              { transaction with
                txn := next, history := transaction.history ++ [(command, answer)] } }
    | system, .commit index =>
        (system.active index).map fun transaction =>
          { store := transaction.txn.commit
            transactions := system.transactions.set index { transaction with status := .committed }
            commits := system.commits ++ [index] }
    | system, .rollback index =>
        (system.active index).map fun transaction =>
          { system with
            transactions := system.transactions.set index { transaction with status := .rolledBack } }

def Committed (system : Transactions) (index : Nat) (history : TxnHistory) : Prop :=
  ∃ txn snapshot, system.transactions[index]? = some ⟨txn, .committed, snapshot, history⟩

/-- What a command makes of a key, if it writes the key. -/
def written (key : Bytes) : TxnCommand → Option (Option Bytes)
  | .put other value => if other = key then some (some value) else none
  | .delete other => if other = key then some none else none
  | .get _ => none
  | .prefixScan _ => none

/-- What a transaction leaves at a key, if it writes the key. -/
def lastWrite (key : Bytes) : TxnHistory → Option (Option Bytes)
  | [] => none
  | (command, _) :: rest => (lastWrite key rest).or (written key command)

/-- The committed transactions could have run one after another. -/
def Serial (system : Transactions) (order : List Nat) (histories : List TxnHistory) : Prop :=
  order.Nodup ∧ (∀ index, index ∈ order ↔ ∃ history, system.Committed index history) ∧
    List.Forall₂ system.Committed order histories ∧
    MemoryStore.new.runSerially histories = some system.store

structure Serializable (system : Transactions) : Prop where
  serial : ∃ order histories, system.Serial order histories
  kept : ∀ index history key write, system.Committed index history →
    lastWrite key history = some write →
    (∀ other history', system.Committed other history' → other ≠ index →
      lastWrite key history' = none) → system.store.data[key]? = write

/-- No transaction has changed the store between the begin and the commit of another. -/
def Current (system : Transactions) : TxnAction → Prop
  | .commit index => ∀ transaction, transaction ∈ system.active index →
      transaction.snapshot = system.store.data
  | _ => True

instance (system : Transactions) (action : TxnAction) : Decidable (system.Current action) :=
  match action with
  | .commit index => inferInstanceAs (Decidable (∀ transaction, transaction ∈ system.active index →
      transaction.snapshot = system.store.data))
  | .begin | .perform _ _ | .rollback _ => isTrue trivial

/-! ### Writes of serial runs -/

section Writes

variable {key : Bytes}

theorem perform_written (txn : MemoryWriteTx) (command : TxnCommand) :
    (txn.perform command).1.working[key]? = (written key command).getD txn.working[key]? := by
  cases command with
  | get | prefixScan => rfl
  | put other value =>
      simp only [MemoryWriteTx.perform, MemoryWriteTx.put, written, Std.ExtTreeMap.getElem?_insert,
        Std.compare_eq_iff_eq]
      split <;> rfl
  | delete other =>
      simp only [MemoryWriteTx.perform, MemoryWriteTx.delete, written, Std.ExtTreeMap.getElem?_erase,
        Std.compare_eq_iff_eq]
      split <;> rfl

theorem replay_lastWrite {txn last : MemoryWriteTx} {history : TxnHistory}
    (replayed : txn.replay history = some last) :
    last.working[key]? = (lastWrite key history).getD txn.working[key]? := by
  induction history generalizing txn with
  | nil =>
      cases replayed
      rfl
  | cons step rest ih =>
      obtain ⟨command, answer⟩ := step
      simp only [MemoryWriteTx.replay] at replayed
      split at replayed
      · rw [ih replayed, perform_written]
        simp only [lastWrite]
        cases lastWrite key rest <;> rfl
      · cases replayed

/-- If one transaction alone writes the key, its write is what a serial run leaves. -/
theorem runSerially_kept {system : Transactions} {index : Nat} {write : Option Bytes}
    (mine : ∀ history, system.Committed index history → lastWrite key history = some write)
    (others : ∀ other history, system.Committed other history → other ≠ index →
      lastWrite key history = none)
    {order : List Nat} {histories : List TxnHistory} (distinct : order.Nodup)
    (committed : List.Forall₂ system.Committed order histories) {store last : MemoryStore}
    (ran : store.runSerially histories = some last) :
    last.data[key]? = if index ∈ order then write else store.data[key]? := by
  induction committed generalizing store with
  | nil =>
      cases ran
      rw [if_neg List.not_mem_nil]
  | @cons head history order histories first rest ih =>
      obtain ⟨absent, distinct⟩ := List.nodup_cons.mp distinct
      obtain ⟨txn, replayed, remaining⟩ := Option.bind_eq_some_iff.mp ran
      rw [ih distinct remaining]
      change (if index ∈ order then write else txn.working[key]?) = _
      rw [replay_lastWrite replayed]
      by_cases same : head = index
      · subst same
        rw [if_neg absent, if_pos List.mem_cons_self, mine history first]
        rfl
      · rw [others head history first same]
        have elsewhere : index ≠ head := fun equal => same equal.symm
        simp only [List.mem_cons, elsewhere, false_or]
        rfl

theorem Committed.unique {system : Transactions} {index : Nat} {history history' : TxnHistory}
    (committed : system.Committed index history) (committed' : system.Committed index history') :
    history = history' := by
  obtain ⟨_, _, found⟩ := committed
  obtain ⟨_, _, found'⟩ := committed'
  rw [found] at found'
  cases found'
  rfl

theorem Serializable.of_serial {system : Transactions} {order : List Nat}
    {histories : List TxnHistory} (serial : system.Serial order histories) :
    system.Serializable where
  serial := ⟨order, histories, serial⟩
  kept := by
    obtain ⟨distinct, members, committed, ran⟩ := serial
    intro index history key write mine writes others
    have kept := runSerially_kept (fun history' mine' => mine.unique mine' ▸ writes) others distinct
      committed ran
    rw [if_pos ((members index).mpr ⟨history, mine⟩)] at kept
    exact kept

end Writes

/-! ### Runs without a change in between -/

/-- The commits so far ran one after another, and an active transaction has done
to its snapshot what its history says. -/
structure Inv (system : Transactions) (histories : List TxnHistory) : Prop where
  serial : system.Serial system.commits histories
  active : ∀ (index : Nat) (transaction : WriteTransaction),
    system.transactions[index]? = some transaction → transaction.status = .active →
    MemoryWriteTx.replay ⟨transaction.snapshot⟩ transaction.history = some transaction.txn

theorem replay_concat (txn : MemoryWriteTx) (history : TxnHistory) (command : TxnCommand)
    (answer : TxnAnswer) :
    txn.replay (history ++ [(command, answer)]) = (txn.replay history).bind fun last =>
      if (last.perform command).2 = answer then some (last.perform command).1 else none := by
  induction history generalizing txn with
  | nil => rfl
  | cons step rest ih =>
      obtain ⟨earlier, seen⟩ := step
      simp only [List.cons_append, MemoryWriteTx.replay]
      split
      · exact ih _
      · rfl

theorem runSerially_concat (store : MemoryStore) (histories : List TxnHistory) (history : TxnHistory) :
    store.runSerially (histories ++ [history]) = (store.runSerially histories).bind fun last =>
      (last.beginWriteTxn.replay history).map MemoryWriteTx.commit := by
  induction histories generalizing store with
  | nil =>
      simp only [List.nil_append, MemoryStore.runSerially, Option.bind_some]
      cases store.beginWriteTxn.replay history <;> rfl
  | cons first rest ih =>
      simp only [List.cons_append, MemoryStore.runSerially, Option.bind_assoc]
      exact congrArg _ (funext fun txn => ih txn.commit)

theorem active_eq_some {system : Transactions} {index : Nat} {transaction : WriteTransaction}
    (found : system.active index = some transaction) :
    system.transactions[index]? = some transaction ∧ transaction.status = .active := by
  obtain ⟨present, status⟩ := Option.filter_eq_some_iff.mp found
  exact ⟨present, of_decide_eq_true status⟩

/-- A list element after one element was replaced. -/
theorem getElem?_replaced {transactions : List WriteTransaction} {index other : Nat}
    {before after found : WriteTransaction} (present : transactions[index]? = some before)
    (read : (transactions.set index after)[other]? = some found) :
    (other = index ∧ found = after) ∨ (other ≠ index ∧ transactions[other]? = some found) := by
  by_cases same : other = index
  · subst same
    rw [List.getElem?_set_self (List.getElem?_eq_some_iff.mp present).1] at read
    exact Or.inl ⟨rfl, (Option.some.inj read).symm⟩
  · rw [List.getElem?_set_ne fun equal => same equal.symm] at read
    exact Or.inr ⟨same, read⟩

/-- Which transactions are committed after one that was active has changed. -/
theorem committed_replaced {system next : Transactions} {index : Nat}
    {before after : WriteTransaction} (found : system.active index = some before)
    (changed : next.transactions = system.transactions.set index after) (other : Nat)
    (history : TxnHistory) : next.Committed other history ↔
      system.Committed other history ∨
        (other = index ∧ after.status = .committed ∧ after.history = history) := by
  obtain ⟨present, status⟩ := active_eq_some found
  unfold Committed
  rw [changed]
  constructor
  · rintro ⟨txn, snapshot, read⟩
    rcases getElem?_replaced present read with ⟨same, rfl⟩ | ⟨_, read⟩
    · exact Or.inr ⟨same, rfl, rfl⟩
    · exact Or.inl ⟨txn, snapshot, read⟩
  · rintro (⟨txn, snapshot, read⟩ | ⟨rfl, committed, rfl⟩)
    · have different : index ≠ other := by
        rintro rfl
        rw [present] at read
        cases read
        cases status
      exact ⟨txn, snapshot, by rw [List.getElem?_set_ne different]; exact read⟩
    · refine ⟨after.txn, after.snapshot, ?_⟩
      rw [List.getElem?_set_self (List.getElem?_eq_some_iff.mp present).1, ← committed]

/-- Steps that commit nothing leave the commits serial. -/
theorem Serial.kept {system next : Transactions} {order : List Nat} {histories : List TxnHistory}
    (serial : system.Serial order histories) (store : next.store = system.store)
    (same : ∀ index history, next.Committed index history ↔ system.Committed index history) :
    next.Serial order histories := by
  obtain ⟨distinct, members, committed, ran⟩ := serial
  refine ⟨distinct, fun index => ?_, committed.imp fun index history held =>
    (same index history).mpr held, by rw [store]; exact ran⟩
  rw [members index]
  exact exists_congr fun history => (same index history).symm

theorem Inv.step {system next : Transactions} {action : TxnAction} {histories : List TxnHistory}
    (inv : system.Inv histories) (allowed : system.Current action)
    (moved : machine.step system action = some next) : ∃ histories', next.Inv histories' := by
  cases action with
  | begin =>
      cases moved
      refine ⟨histories, inv.serial.kept rfl fun index history => ?_, fun index transaction read => ?_⟩
      · unfold Committed
        constructor
        · rintro ⟨txn, snapshot, read⟩
          rcases Async.getElem?_of_concat read with before | ⟨_, impossible⟩
          · exact ⟨txn, snapshot, before⟩
          · cases impossible
        · rintro ⟨txn, snapshot, read⟩
          refine ⟨txn, snapshot, ?_⟩
          rw [List.getElem?_append_left (List.getElem?_eq_some_iff.mp read).1]
          exact read
      · rcases Async.getElem?_of_concat read with before | ⟨_, rfl⟩
        · exact inv.active index transaction before
        · exact fun _ => rfl
  | perform index command =>
      obtain ⟨transaction, found, rfl⟩ := Option.map_eq_some_iff.mp moved
      obtain ⟨present, status⟩ := active_eq_some found
      refine ⟨histories, inv.serial.kept rfl fun other history => ?_, fun other other' read => ?_⟩
      · rw [committed_replaced found rfl]
        constructor
        · rintro (held | ⟨_, impossible, _⟩)
          · exact held
          · rw [status] at impossible
            cases impossible
        · exact Or.inl
      · rcases getElem?_replaced present read with ⟨_, rfl⟩ | ⟨_, read⟩
        · intro _
          simp only [replay_concat, inv.active index transaction present status, Option.bind_some,
            if_true]
        · exact inv.active other other' read
  | commit index =>
      obtain ⟨transaction, found, rfl⟩ := Option.map_eq_some_iff.mp moved
      obtain ⟨present, status⟩ := active_eq_some found
      have current : transaction.snapshot = system.store.data := allowed transaction found
      obtain ⟨distinct, members, committed, ran⟩ := inv.serial
      have changed : ∀ other history, Committed
          ⟨transaction.txn.commit, system.transactions.set index
            { transaction with status := .committed }, system.commits ++ [index]⟩ other history ↔
          system.Committed other history ∨ (other = index ∧ transaction.history = history) := by
        intro other history
        rw [committed_replaced found rfl]
        simp only [true_and]
      have uncommitted : index ∉ system.commits := by
        intro member
        obtain ⟨history, txn, snapshot, read⟩ := (members index).mp member
        rw [present] at read
        cases read
        cases status
      refine ⟨histories ++ [transaction.history], ⟨?_, fun other => ?_, ?_, ?_⟩,
        fun other other' read => ?_⟩
      · rw [List.nodup_append]
        refine ⟨distinct, List.nodup_singleton index, fun earlier member last single => ?_⟩
        rw [List.mem_singleton.mp single]
        rintro rfl
        exact uncommitted member
      · rw [List.mem_append, List.mem_singleton, members other]
        constructor
        · rintro (⟨history, held⟩ | rfl)
          · exact ⟨history, (changed other history).mpr (Or.inl held)⟩
          · exact ⟨_, (changed other _).mpr (Or.inr ⟨rfl, rfl⟩)⟩
        · rintro ⟨history, held⟩
          rcases (changed other history).mp held with earlier | ⟨same, _⟩
          · exact Or.inl ⟨history, earlier⟩
          · exact Or.inr same
      · refine List.rel_append (committed.imp fun other history held => ?_) (.cons ?_ .nil)
        · exact (changed other history).mpr (Or.inl held)
        · exact (changed index _).mpr (Or.inr ⟨rfl, rfl⟩)
      · have replayed := inv.active index transaction present status
        rw [current] at replayed
        rw [runSerially_concat, ran, Option.bind_some]
        unfold MemoryStore.beginWriteTxn
        rw [replayed]
        rfl
      · rcases getElem?_replaced present read with ⟨_, rfl⟩ | ⟨_, read⟩
        · intro impossible
          cases impossible
        · exact inv.active other other' read
  | rollback index =>
      obtain ⟨transaction, found, rfl⟩ := Option.map_eq_some_iff.mp moved
      obtain ⟨present, _⟩ := active_eq_some found
      refine ⟨histories, inv.serial.kept rfl fun other history => ?_, fun other other' read => ?_⟩
      · rw [committed_replaced found rfl]
        constructor
        · rintro (held | ⟨_, impossible, _⟩)
          · exact held
          · cases impossible
        · exact Or.inl
      · rcases getElem?_replaced present read with ⟨_, rfl⟩ | ⟨_, read⟩
        · intro impossible
          cases impossible
        · exact inv.active other other' read

theorem Inv.new : Transactions.new.Inv [] where
  serial := by
    refine ⟨List.nodup_nil, fun index => ?_, .nil, rfl⟩
    constructor
    · intro impossible
      cases impossible
    · rintro ⟨_, _, _, impossible⟩
      cases impossible
  active := by
    intro index transaction impossible
    cases impossible

/-- Transactions are serializable if nothing else commits between the begin of a
transaction and its own commit. -/
theorem serializable {system : Transactions} (run : machine.Run Current new system) :
    system.Serializable := by
  obtain ⟨histories, inv⟩ := run.invariant (fun state => ∃ histories, state.Inv histories)
    ⟨[], .new⟩ fun state action next kept allowed moved => by
      obtain ⟨histories, inv⟩ := kept
      exact inv.step allowed moved
  exact .of_serial inv.serial

/-- Two transactions put different keys; the second commit drops the first put. -/
def overlapping : List TxnAction :=
  [.begin, .begin, .perform 0 (.put [0] [1]), .perform 1 (.put [1] [1]), .commit 0, .commit 1]

def view (system : Transactions) : List WriteTransaction × MemoryStore :=
  (system.transactions, system.store)

theorem not_serializable_overlapping :
    ¬ ∀ system, machine.Run (fun _ _ => True) new system → system.Serializable := by
  intro serializable
  let left : StoreData := (∅ : StoreData).insert [0] [1]
  let right : StoreData := (∅ : StoreData).insert [1] [1]
  obtain ⟨system, run, seen⟩ := Machine.exists_run_of_execute machine (fun _ _ => True) new
    overlapping view
    ([⟨⟨left⟩, .committed, ∅, [(.put [0] [1], .unit)]⟩,
      ⟨⟨right⟩, .committed, ∅, [(.put [1] [1], .unit)]⟩], ⟨right⟩) (by decide +kernel)
  obtain ⟨transactions, store⟩ := Prod.mk.inj seen
  have kept := (serializable system run).kept 0 [(.put [0] [1], .unit)] [0] (some [1])
    ⟨_, _, congrArg (fun list => list[0]?) transactions⟩ (by decide +kernel)
    fun other history committed different => by
      obtain ⟨txn, snapshot, read⟩ := committed
      rw [transactions] at read
      match other with
      | 0 => exact absurd rfl different
      | 1 =>
          cases read
          decide +kernel
      | other + 2 => cases read
  rw [store] at kept
  exact absurd kept (by decide +kernel)

/-- Transactions that overlap with one that rolls back. -/
def oneAfterAnother : List TxnAction :=
  [.begin, .perform 0 (.put [0] [1]), .begin, .commit 0, .perform 1 (.put [0] [2]), .rollback 1,
    .begin, .perform 2 (.get [0]), .perform 2 (.delete [0]), .perform 2 (.put [1] [3]), .commit 2]

theorem serializable_oneAfterAnother : ∃ system : Transactions,
    system.store = ⟨(∅ : StoreData).insert [1] [3]⟩ ∧ system.commits = [0, 2] ∧
      system.Serializable := by
  obtain ⟨system, run, seen⟩ := Machine.exists_run_of_execute machine Current new oneAfterAnother
    (fun system => (system.store, system.commits)) (⟨(∅ : StoreData).insert [1] [3]⟩, [0, 2])
    (by decide +kernel)
  obtain ⟨store, commits⟩ := Prod.mk.inj seen
  exact ⟨system, store, commits, serializable run⟩

end Transactions

end Relos
