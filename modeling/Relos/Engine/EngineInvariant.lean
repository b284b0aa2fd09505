import Relos.Engine.BaseEngine

set_option autoImplicit false

/-! The invariant of replicas over one log that is neither sealed nor trimmed:
every store holds a prefix of the log together with the cursor behind it, and
every apply loop knows how far its store has come. -/

namespace Relos

open Async Serial BaseEngine

variable {Node Memory Choice : Type}

/-- A property of the log applied so far and of the store beside its cursor that
every successful apply keeps. -/
structure Applicator.Carries (applicator : Applicator Memory Choice)
    (Holds : List Entry → StoreData → Prop) : Prop where
  empty : Holds [] ∅
  step : ∀ {entries choice memory txn entry memory' txn' rv},
    Holds entries (txn.working.erase cursorKey) →
    applicator.apply choice memory txn entry (entries.length + 1) = (memory', .ok (txn', rv)) →
    Holds (entries ++ [entry]) (txn'.working.erase cursorKey)

/-- The store holds the first `count` entries of the log, and the cursor after them. -/
structure Applied (Holds : List Entry → StoreData → Prop) (entries : List Entry) (count : Nat)
    (data : StoreData) : Prop where
  inside : count ≤ entries.length
  holds : Holds (entries.take count) (data.erase cursorKey)
  cursor : data[cursorKey]? = if count = 0 then none else some (toLeBytes 8 (count + 1))

/-- How a point of the apply loop relates its cursor to the `count` entries that
the store holds: only between a commit and the increment does it lag. -/
def BaseEngine.Phase.Fits (Holds : List Entry → StoreData → Prop) (entries : List Entry)
    (count cursor : Nat) : Phase → Prop
  | .read _ entry => cursor = count + 1 ∧ entries[count]? = some entry
  | .staged _ txn _ => cursor = count + 1 ∧ Applied Holds entries (count + 1) txn.working
  | .committed _ _ => cursor = count
  | .append _ | .checkTail | .play _ => cursor = count + 1

def BaseEngine.Fits (Holds : List Entry → StoreData → Prop) (entries : List Entry) (count : Nat)
    (engine : BaseEngine Memory) : Prop :=
  match engine.serving with
  | none => engine.cursor = count + 1
  | some (_, phase) => phase.Fits Holds entries count engine.cursor

/-- A store with the engine that runs on it, if one does. -/
structure Consistent (Holds : List Entry → StoreData → Prop) (entries : List Entry) (count : Nat)
    (store : MemoryStore) (engine : Option (BaseEngine Memory)) : Prop where
  applied : Applied Holds entries count store.data
  fits : ∀ running, engine = some running → running.Fits Holds entries count

/-- The log has taken more entries, at most as many as fit. -/
structure Extends (log : TrackedLoglet) (entries entries' : List Entry) : Prop where
  held : log.loglet = .holding entries'
  capacity : entries'.length ≤ vecCapacity
  more : entries <+: entries'

namespace Replicas

structure Inv (Holds : List Entry → StoreData → Prop) (replicas : Replicas Node Memory)
    (entries : List Entry) (counts : Node → Nat) : Prop where
  log : replicas.log.loglet = .holding entries
  capacity : entries.length ≤ vecCapacity
  nodes : ∀ node, Consistent Holds entries (counts node) (replicas.stores node)
    (replicas.engines node)

/-- What a step does to the log and to the stores: the log takes more entries, and
no store loses one. -/
def Advances (Holds : List Entry → StoreData → Prop) (entries : List Entry) (counts : Node → Nat)
    (next : Replicas Node Memory) : Prop :=
  ∃ entries' counts', next.Inv Holds entries' counts' ∧ entries <+: entries' ∧
    ∀ node, counts node ≤ counts' node

end Replicas

section Stores

variable {Holds : List Entry → StoreData → Prop} {entries entries' : List Entry} {count : Nat}
  {data : StoreData}

theorem Applied.new {applicator : Applicator Memory Choice} (carries : applicator.Carries Holds) :
    Applied Holds [] 0 (∅ : StoreData) where
  inside := Nat.le_refl 0
  holds := carries.empty
  cursor := rfl

theorem Applied.extend (applied : Applied Holds entries count data) (more : entries <+: entries') :
    Applied Holds entries' count data where
  inside := Nat.le_trans applied.inside more.length_le
  holds := by
    obtain ⟨rest, rfl⟩ := more
    rw [List.take_append_of_le_length applied.inside]
    exact applied.holds
  cursor := applied.cursor

theorem Applied.persistedCursor (applied : Applied Holds entries count data)
    (capacity : entries.length ≤ vecCapacity) :
    persistedCursor { data := data } = .ok (count + 1) := by
  have bound := applied.inside
  simp only [vecCapacity] at capacity
  unfold BaseEngine.persistedCursor MemoryStore.get
  simp only [applied.cursor]
  by_cases none : count = 0
  · rw [if_pos none, none]
    rfl
  · rw [if_neg none]
    simp only [length_toLeBytes, if_true]
    rw [fromLeBytes_toLeBytes 8 (count + 1) (by omega)]

/-- The next entry of the log, applied to a copy of the store. -/
theorem Applied.stage {applicator : Applicator Memory Choice} (carries : applicator.Carries Holds)
    (applied : Applied Holds entries count data) {choice : Choice} {memory memory' : Memory}
    {txn : MemoryWriteTx} {entry : Entry} {rv : ReturnValue} (found : entries[count]? = some entry)
    (ran : applicator.apply choice memory { working := data } entry (count + 1) =
      (memory', .ok (txn, rv))) :
    Applied Holds entries (count + 1) (txn.put cursorKey (toLeBytes 8 (count + 2))).working where
  inside := (List.getElem?_eq_some_iff.mp found).1
  holds := by
    have length : (entries.take count).length = count := by
      rw [List.length_take]
      exact Nat.min_eq_left applied.inside
    rw [List.take_add_one, found, Option.toList_some]
    unfold MemoryWriteTx.put
    rw [erase_insert_self]
    rw [← length] at ran
    exact carries.step applied.holds ran
  cursor := by
    rw [if_neg (Nat.succ_ne_zero count)]
    exact Std.ExtTreeMap.getElem?_insert_self

end Stores

section Steps

variable {applicator : Applicator Memory Choice} {Holds : List Entry → StoreData → Prop}
  {entries entries' : List Entry} {count : Nat} {store : MemoryStore} {engine : BaseEngine Memory}

theorem BaseEngine.Phase.Fits.extend {cursor : Nat} {phase : Phase}
    (fits : phase.Fits Holds entries count cursor) (more : entries <+: entries') :
    phase.Fits Holds entries' count cursor := by
  cases phase with
  | read handler entry =>
      refine ⟨fits.1, ?_⟩
      obtain ⟨rest, rfl⟩ := more
      rw [List.getElem?_append_left (List.getElem?_eq_some_iff.mp fits.2).1]
      exact fits.2
  | staged handler txn rv => exact ⟨fits.1, fits.2.extend more⟩
  | append | checkTail | play | committed => exact fits

theorem BaseEngine.Fits.extend (fits : engine.Fits Holds entries count) (more : entries <+: entries') :
    engine.Fits Holds entries' count := by
  unfold BaseEngine.Fits at fits ⊢
  split
  · rename_i idle
    rw [idle] at fits
    exact fits
  · rename_i serving
    rw [serving] at fits
    exact Phase.Fits.extend fits more

theorem Consistent.extend {running : Option (BaseEngine Memory)}
    (consistent : Consistent Holds entries count store running) (more : entries <+: entries') :
    Consistent Holds entries' count store running where
  applied := consistent.applied.extend more
  fits running same := (consistent.fits running same).extend more

theorem Consistent.of_fits (applied : Applied Holds entries count store.data)
    (fits : engine.Fits Holds entries count) :
    Consistent Holds entries count store (some engine) where
  applied := applied
  fits running same := by
    cases same
    exact fits

theorem Extends.refl {log : TrackedLoglet} (held : log.loglet = .holding entries)
    (capacity : entries.length ≤ vecCapacity) : Extends log entries entries :=
  ⟨held, capacity, List.prefix_refl entries⟩

theorem Extends.append {log : TrackedLoglet} (held : log.loglet = .holding entries) (entry : Entry)
    (index : Nat) (room : log.loglet.entries.length < vecCapacity) :
    Extends (log.call index (.append entry)).1 entries (entries ++ [entry]) where
  held := by
    change (log.loglet.append entry).1 = _
    rw [held, MemoryLoglet.holding_append]
  capacity := by
    rw [held] at room
    unfold MemoryLoglet.holding at room
    rw [List.length_map] at room
    rw [List.length_append, List.length_singleton]
    exact room
  more := List.prefix_append entries [entry]

/-- One turn of an apply loop keeps its store consistent with the log, and commits
at most the next entry. -/
theorem turn_kept (carries : applicator.Carries Holds) {log : TrackedLoglet}
    (held : log.loglet = .holding entries) (capacity : entries.length ≤ vecCapacity)
    (consistent : Consistent Holds entries count store (some engine)) {choice : Choice}
    {turn : Turn Memory} (moved : engine.turn applicator choice log store = some turn) :
    ∃ entries' count', Extends turn.log entries entries' ∧
      Consistent Holds entries' count' turn.store (some turn.engine) ∧ count ≤ count' := by
  have applied := consistent.applied
  have same := Extends.refl held capacity
  have fits := consistent.fits engine rfl
  unfold BaseEngine.Fits at fits
  unfold BaseEngine.turn at moved
  split at moved
  · rename_i idle
    rw [idle] at fits
    split at moved
    · cases moved
    · rename_i request requests queued
      cases moved
      refine ⟨entries, count, same, .of_fits applied ?_, Nat.le_refl count⟩
      cases request.op <;> exact fits
  · rename_i resultTx entry serving
    rw [serving] at fits
    split at moved
    · rename_i room
      have extended := Extends.append held entry resultTx room
      rw [held, MemoryLoglet.holding_append] at moved
      cases moved
      exact ⟨entries ++ [entry], count, extended, .of_fits (applied.extend extended.more) fits,
        Nat.le_refl count⟩
    · cases moved
  · rename_i resultTx serving
    rw [serving] at fits
    cases moved
    exact ⟨entries, count, same, .of_fits applied fits, Nat.le_refl count⟩
  · rename_i resultTx handler serving
    rw [serving] at fits
    have cursor : engine.cursor = count + 1 := fits
    split at moved
    · rw [held, cursor, MemoryLoglet.holding_read] at moved
      split at moved
      · rename_i entry read
        cases moved
        exact ⟨entries, count, same, .of_fits applied ⟨cursor, Except.ok.inj read⟩,
          Nat.le_refl count⟩
      · cases moved
        exact ⟨entries, count, same, .of_fits applied cursor, Nat.le_refl count⟩
      · cases moved
        exact ⟨entries, count, same, .of_fits applied cursor, Nat.le_refl count⟩
    · cases moved
      exact ⟨entries, count, same, .of_fits applied cursor, Nat.le_refl count⟩
  · rename_i resultTx handler entry serving
    rw [serving] at fits
    obtain ⟨cursor, found⟩ := fits
    split at moved
    · rename_i memory txn rv ran
      cases moved
      rw [cursor] at ran
      refine ⟨entries, count, same, .of_fits applied ⟨cursor, ?_⟩, Nat.le_refl count⟩
      rw [cursor]
      exact applied.stage carries found ran
    · cases moved
      exact ⟨entries, count, same, .of_fits applied cursor, Nat.le_refl count⟩
  · rename_i resultTx handler txn rv serving
    rw [serving] at fits
    cases moved
    exact ⟨entries, count + 1, same, .of_fits fits.2 fits.1, Nat.le_succ count⟩
  · rename_i resultTx handler rv serving
    rw [serving] at fits
    cases moved
    exact ⟨entries, count, same, .of_fits applied (congrArg (· + 1) fits), Nat.le_refl count⟩

theorem accepted_reading {entry : Entry} (reading : engine.reading = some entry) :
    engine.accepted = engine.cursor - 1 := by
  obtain ⟨resultTx, handler, serving⟩ := serving_of_reading reading
  exact accepted_serving serving

/-- Only an apply touches what the applicator keeps, and only one that succeeds takes it
further. -/
theorem turn_accepted {log : TrackedLoglet} {choice : Choice} {turn : Turn Memory}
    (moved : engine.turn applicator choice log store = some turn) :
    (engine.reading = none ∧ turn.engine.memory = engine.memory ∧
      turn.engine.accepted = engine.accepted) ∨
    ∃ entry, engine.reading = some entry ∧ turn.engine.memory =
        (applicator.apply choice engine.memory store.beginWriteTxn entry engine.cursor).1 ∧
      turn.engine.accepted =
        if (applicator.apply choice engine.memory store.beginWriteTxn entry
          engine.cursor).2.isOk = true then engine.cursor
        else engine.accepted := by
  unfold BaseEngine.turn at moved
  split at moved
  · rename_i idle
    have none : engine.reading = none := by
      unfold reading
      rw [idle]
      rfl
    split at moved
    · cases moved
    · rename_i request requests queued
      cases moved
      refine Or.inl ⟨none, rfl, ?_⟩
      rw [accepted_idle idle]
      unfold accepted
      cases request.op <;> rfl
  · rename_i resultTx entry serving
    have none := reading_of_serving serving
    have before := accepted_serving serving
    split at moved
    · split at moved <;> cases moved
      · exact Or.inl ⟨none, rfl, before.symm⟩
      · exact Or.inl ⟨none, rfl, before.symm⟩
    · cases moved
  · rename_i resultTx serving
    cases moved
    exact Or.inl ⟨reading_of_serving serving, rfl, (accepted_serving serving).symm⟩
  · rename_i resultTx handler serving
    have none := reading_of_serving serving
    have before := accepted_serving serving
    split at moved
    · split at moved <;> cases moved
      · exact Or.inl ⟨none, rfl, before.symm⟩
      · exact Or.inl ⟨none, rfl, before.symm⟩
      · exact Or.inl ⟨none, rfl, before.symm⟩
    · cases moved
      exact Or.inl ⟨none, rfl, before.symm⟩
  · rename_i resultTx handler entry serving
    refine Or.inr ⟨entry, reading_of_serving serving, ?_⟩
    split at moved
    · rename_i ran
      cases moved
      rw [ran]
      exact ⟨rfl, (if_pos rfl).symm⟩
    · rename_i ran
      cases moved
      rw [ran]
      exact ⟨rfl, (accepted_serving serving).symm.trans (if_neg Bool.false_ne_true).symm⟩
  · rename_i resultTx handler txn rv serving
    cases moved
    exact Or.inl ⟨reading_of_serving serving, rfl, (accepted_serving serving).symm⟩
  · rename_i resultTx handler rv serving
    cases moved
    exact Or.inl ⟨reading_of_serving serving, rfl, (accepted_serving serving).symm⟩

end Steps

/-! ### Replicas -/

namespace Replicas

variable {enter : Node → Memory → EngineOp → Result EngineOp} {applicator : Applicator Memory Choice}
  {Holds : List Entry → StoreData → Prop} {replicas next : Replicas Node Memory}
  {entries : List Entry} {counts : Node → Nat}

theorem Inv.new (carries : applicator.Carries Holds) :
    (Replicas.new Node Memory).Inv Holds [] fun _ => 0 where
  log := rfl
  capacity := Nat.zero_le _
  nodes _ := ⟨.new carries, fun _ impossible => nomatch impossible⟩

theorem Inv.advances (inv : next.Inv Holds entries counts) : next.Advances Holds entries counts :=
  ⟨entries, counts, inv, List.prefix_refl entries, fun _ => Nat.le_refl _⟩

variable [DecidableEq Node]

theorem Inv.setEngine (inv : replicas.Inv Holds entries counts) {node : Node}
    {engine : Option (BaseEngine Memory)}
    (consistent : Consistent Holds entries (counts node) (replicas.stores node) engine) :
    (replicas.setEngine node engine).Inv Holds entries counts where
  log := inv.log
  capacity := inv.capacity
  nodes other := by
    unfold Replicas.setEngine
    by_cases same : other = node
    · subst same
      simpa only [Function.update_self] using consistent
    · simpa only [Function.update_of_ne same] using inv.nodes other

theorem Inv.poll {index : Nat} {call : ReplicaOp Node} {future : Future}
    {progress : Progress Future EngineResult} (inv : replicas.Inv Holds entries counts)
    (polled : poll enter replicas index call future = some (next, progress)) :
    next.Advances Holds entries counts := by
  cases future with
  | enter =>
      simp only [Replicas.poll] at polled
      split at polled
      · split at polled
        · split at polled <;> cases polled <;> exact inv.advances
        · cases polled
          exact inv.advances
      · cases polled
  | send op =>
      simp only [Replicas.poll] at polled
      split at polled
      · rename_i node _
        split at polled
        · rename_i engine running
          cases polled
          have fits := (inv.nodes node).fits engine running
          exact Inv.advances (inv.setEngine (.of_fits (inv.nodes node).applied fits))
        · cases polled
          exact inv.advances
      · cases polled
  | receive =>
      obtain ⟨_, _, same⟩ := Option.map_eq_some_iff.mp polled
      cases same
      exact inv.advances
  | append =>
      simp only [Replicas.poll] at polled
      split at polled
      · rename_i entry
        split at polled
        · rename_i room
          cases polled
          have extended := Extends.append inv.log entry index room
          exact ⟨entries ++ [entry], counts, ⟨extended.held, extended.capacity, fun node =>
            (inv.nodes node).extend extended.more⟩, extended.more, fun _ => Nat.le_refl _⟩
        · cases polled
      · cases polled

/-- Of the engines a poll changes at most what they are asked. -/
theorem poll_engines {index : Nat} {call : ReplicaOp Node} {future : Future}
    {progress : Progress Future EngineResult}
    (polled : poll enter replicas index call future = some (next, progress)) {node : Node}
    {engine : BaseEngine Memory} (running : next.engines node = some engine) :
    ∃ before requests, replicas.engines node = some before ∧
      engine = { before with requests := requests } := by
  cases future with
  | enter =>
      simp only [Replicas.poll] at polled
      split at polled
      · split at polled
        · split at polled <;> cases polled <;> exact ⟨engine, _, running, rfl⟩
        · cases polled
          exact ⟨engine, _, running, rfl⟩
      · cases polled
  | send op =>
      simp only [Replicas.poll] at polled
      split at polled
      · rename_i target _
        split at polled
        · rename_i before found
          cases polled
          unfold Replicas.setEngine at running
          by_cases same : node = target
          · subst same
            simp only [Function.update_self] at running
            cases running
            exact ⟨before, _, found, rfl⟩
          · simp only [Function.update_of_ne same] at running
            exact ⟨engine, _, running, rfl⟩
        · cases polled
          exact ⟨engine, _, running, rfl⟩
      · cases polled
  | receive =>
      obtain ⟨_, _, same⟩ := Option.map_eq_some_iff.mp polled
      cases same
      exact ⟨engine, _, running, rfl⟩
  | append =>
      simp only [Replicas.poll] at polled
      split at polled
      · split at polled
        · cases polled
          exact ⟨engine, _, running, rfl⟩
        · cases polled
      · cases polled

theorem Inv.background (carries : applicator.Carries Holds) {event : ReplicaEvent Node Memory Choice}
    (inv : replicas.Inv Holds entries counts)
    (ran : background applicator replicas event = some next) :
    next.Advances Holds entries counts := by
  cases event with
  | turn node choice =>
      simp only [Replicas.background] at ran
      split at ran
      · rename_i engine running
        obtain ⟨turn, moved, rfl⟩ := Option.map_eq_some_iff.mp ran
        have consistent := inv.nodes node
        rw [running] at consistent
        obtain ⟨entries', count', extended, kept, later⟩ :=
          turn_kept carries inv.log inv.capacity consistent moved
        refine ⟨entries', Function.update counts node count',
          ⟨extended.held, extended.capacity, fun other => ?_⟩, extended.more, fun other => ?_⟩
        · by_cases same : other = node
          · subst same
            simpa only [Function.update_self] using kept
          · simpa only [Function.update_of_ne same] using (inv.nodes other).extend extended.more
        · by_cases same : other = node
          · subst same
            rwa [Function.update_self]
          · rw [Function.update_of_ne same]
      · cases ran
  | stop node =>
      simp only [Replicas.background] at ran
      split at ran
      · cases ran
        have stopped : (replicas.setEngine node none).Inv Holds entries counts :=
          inv.setEngine ⟨(inv.nodes node).applied, fun _ impossible => nomatch impossible⟩
        exact Inv.advances ⟨stopped.log, stopped.capacity, stopped.nodes⟩
      · cases ran
  | new node memory =>
      simp only [Replicas.background] at ran
      split at ran
      · cases ran
      · split at ran
        · rename_i engine opened
          cases ran
          have applied := (inv.nodes node).applied
          have cursor := applied.persistedCursor inv.capacity
          unfold BaseEngine.new at opened
          rw [cursor] at opened
          cases opened
          refine Inv.advances (inv.setEngine (.of_fits applied ?_))
          rfl
        · cases ran
          exact inv.advances

theorem Inv.step (carries : applicator.Carries Holds)
    {system later : System (Replicas Node Memory) (ReplicaOp Node) Future EngineResult}
    {action : Action (ReplicaOp Node) (ReplicaEvent Node Memory Choice)}
    (inv : system.shared.Inv Holds entries counts)
    (moved : (replicaComponent enter applicator).machine.step system action = some later) :
    later.shared.Advances Holds entries counts := by
  cases action with
  | start op =>
      rw [Component.step_start moved]
      exact inv.advances
  | poll index =>
      obtain ⟨_, _, _, _, _, polled, rfl⟩ := Component.step_poll moved
      exact inv.poll polled
  | background event =>
      obtain ⟨_, ran, rfl⟩ := Component.step_background moved
      exact inv.background carries ran

theorem Inv.run (carries : applicator.Carries Holds)
    {permit : System (Replicas Node Memory) (ReplicaOp Node) Future EngineResult →
      Action (ReplicaOp Node) (ReplicaEvent Node Memory Choice) → Prop}
    {system later : System (Replicas Node Memory) (ReplicaOp Node) Future EngineResult}
    (inv : ∃ entries counts, system.shared.Inv Holds entries counts)
    (run : (replicaComponent enter applicator).machine.Run permit system later) :
    ∃ entries counts, later.shared.Inv Holds entries counts := by
  refine run.invariant (fun state => ∃ entries counts, state.shared.Inv Holds entries counts) inv
    fun state action next held _ moved => ?_
  obtain ⟨_, _, held⟩ := held
  obtain ⟨entries, counts, kept, _⟩ := held.step carries moved
  exact ⟨entries, counts, kept⟩

/-- Where an engine that runs after a step comes from. Only an apply changes what its
applicator keeps. -/
inductive Origin (applicator : Applicator Memory Choice) (replicas : Replicas Node Memory)
    (action : Action (ReplicaOp Node) (ReplicaEvent Node Memory Choice)) (node : Node)
    (engine : BaseEngine Memory) : Prop where
  | kept (before : BaseEngine Memory) :
      replicas.engines node = some before → engine.memory = before.memory →
      engine.accepted = before.accepted → Origin applicator replicas action node engine
  | applied (choice : Choice) (before : BaseEngine Memory) (entry : Entry) :
      action = .background (.turn node choice) → replicas.engines node = some before →
      before.reading = some entry →
      engine.memory = (applicator.apply choice before.memory
        (replicas.stores node).beginWriteTxn entry before.cursor).1 →
      engine.accepted = (if (applicator.apply choice before.memory
        (replicas.stores node).beginWriteTxn entry before.cursor).2.isOk = true then before.cursor
        else before.accepted) → Origin applicator replicas action node engine
  | opened (memory : Memory) :
      action = .background (.new node memory) → replicas.engines node = none →
      BaseEngine.new (replicas.stores node) memory = .ok engine →
      Origin applicator replicas action node engine

theorem step_origin {system next : System (Replicas Node Memory) (ReplicaOp Node) Future EngineResult}
    {action : Action (ReplicaOp Node) (ReplicaEvent Node Memory Choice)}
    (moved : (replicaComponent enter applicator).machine.step system action = some next)
    {node : Node} {engine : BaseEngine Memory} (running : next.shared.engines node = some engine) :
    Origin applicator system.shared action node engine := by
  cases action with
  | start call =>
      rw [Component.step_start moved] at running
      exact .kept engine running rfl rfl
  | poll index =>
      obtain ⟨call, future, shared, progress, pending, polled, rfl⟩ := Component.step_poll moved
      obtain ⟨before, requests, ran, rfl⟩ := poll_engines polled running
      exact .kept before ran rfl rfl
  | background event =>
      obtain ⟨shared, ran, rfl⟩ := Component.step_background moved
      cases event with
      | turn target choice =>
          simp only [replicaComponent, Replicas.background] at ran
          split at ran
          · rename_i before found
            obtain ⟨turn, turned, rfl⟩ := Option.map_eq_some_iff.mp ran
            by_cases same : node = target
            · subst same
              simp only [Function.update_self] at running
              cases running
              rcases turn_accepted turned with
                ⟨-, memory, accepted⟩ | ⟨entry, reading, memory, accepted⟩
              · exact .kept before found memory accepted
              · exact .applied choice before entry rfl found reading memory accepted
            · simp only [Function.update_of_ne same] at running
              exact .kept engine running rfl rfl
          · cases ran
      | stop target =>
          simp only [replicaComponent, Replicas.background] at ran
          split at ran
          · cases ran
            unfold Replicas.setEngine at running
            by_cases same : node = target
            · subst same
              simp only [Function.update_self] at running
              cases running
            · simp only [Function.update_of_ne same] at running
              exact .kept engine running rfl rfl
          · cases ran
      | new target memory =>
          simp only [replicaComponent, Replicas.background] at ran
          split at ran
          · cases ran
          · rename_i idle
            split at ran
            · rename_i created opened
              cases ran
              unfold Replicas.setEngine at running
              by_cases same : node = target
              · subst same
                simp only [Function.update_self] at running
                cases running
                exact .opened memory rfl idle opened
              · simp only [Function.update_of_ne same] at running
                exact .kept engine running rfl rfl
            · cases ran
              exact .kept engine running rfl rfl

/-- Engines run until they stop. -/
theorem step_running {system next : System (Replicas Node Memory) (ReplicaOp Node) Future EngineResult}
    {action : Action (ReplicaOp Node) (ReplicaEvent Node Memory Choice)}
    (moved : (replicaComponent enter applicator).machine.step system action = some next)
    {node : Node} (running : (system.shared.engines node).isSome = true)
    (remains : action ≠ .background (.stop node)) :
    (next.shared.engines node).isSome = true := by
  have updated (replicas : Replicas Node Memory) (target : Node) (engine : BaseEngine Memory)
      (ran : (replicas.engines node).isSome = true) :
      ((replicas.setEngine target (some engine)).engines node).isSome = true := by
    unfold Replicas.setEngine
    by_cases same : node = target
    · subst same
      simp only [Function.update_self, Option.isSome_some]
    · simpa only [Function.update_of_ne same] using ran
  cases action with
  | start call =>
      rw [Component.step_start moved]
      exact running
  | poll index =>
      obtain ⟨call, future, shared, progress, pending, polled, rfl⟩ := Component.step_poll moved
      cases future with
      | enter =>
          simp only [replicaComponent, Replicas.poll] at polled
          split at polled
          · split at polled
            · split at polled <;> cases polled <;> exact running
            · cases polled
              exact running
          · cases polled
      | send op =>
          simp only [replicaComponent, Replicas.poll] at polled
          split at polled
          · split at polled
            · cases polled
              exact updated _ _ _ running
            · cases polled
              exact running
          · cases polled
      | receive =>
          obtain ⟨_, _, same⟩ := Option.map_eq_some_iff.mp polled
          cases same
          exact running
      | append =>
          simp only [replicaComponent, Replicas.poll] at polled
          split at polled
          · split at polled <;> cases polled
            exact running
          · cases polled
  | background event =>
      obtain ⟨shared, ran, rfl⟩ := Component.step_background moved
      cases event with
      | turn target choice =>
          simp only [replicaComponent, Replicas.background] at ran
          split at ran
          · obtain ⟨turn, turned, rfl⟩ := Option.map_eq_some_iff.mp ran
            exact updated system.shared target turn.engine running
          · cases ran
      | stop target =>
          simp only [replicaComponent, Replicas.background] at ran
          split at ran
          · cases ran
            have other : node ≠ target := fun same => remains (same ▸ rfl)
            unfold Replicas.setEngine
            simpa only [Function.update_of_ne other] using running
          · cases ran
      | new target memory =>
          simp only [replicaComponent, Replicas.background] at ran
          split at ran
          · cases ran
          · split at ran <;> cases ran
            · exact updated _ _ _ running
            · exact running

end Replicas

end Relos
