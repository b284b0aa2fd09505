import Relos.Log.Loglet

set_option autoImplicit false

/-! The in-memory loglet. Each operation holds the lock for its whole body, so a
call is one atomic step. -/

namespace Relos

open Async

structure MemoryLoglet where
  entries : List (Option Entry)
  sealed : Bool
  trimPos : Nat
deriving DecidableEq

namespace MemoryLoglet

def new : MemoryLoglet := { entries := [], sealed := false, trimPos := logPosBegin }

def tail (loglet : MemoryLoglet) : Nat := loglet.entries.length + logPosBegin

def append (loglet : MemoryLoglet) (entry : Entry) : MemoryLoglet × Result Nat :=
  if loglet.sealed then (loglet, .error (.sealed loglet.tail))
  else ({ loglet with entries := loglet.entries ++ [some entry] }, .ok loglet.tail)

def checkTail (loglet : MemoryLoglet) : Result Nat := .ok loglet.tail

def read (loglet : MemoryLoglet) (pos : Nat) : Result (Option Entry) :=
  if pos < loglet.trimPos then .error (.trimmed pos)
  else if loglet.tail ≤ pos then .ok none
  else .ok (loglet.entries[pos - logPosBegin]?).join

def trim (loglet : MemoryLoglet) (pos : Nat) : MemoryLoglet :=
  if loglet.trimPos < pos then
    let last := if pos < loglet.tail then pos else loglet.tail
    { loglet with
      trimPos := pos
      entries := loglet.entries.mapIdx fun index entry =>
        if index + logPosBegin < last then none else entry }
  else loglet

def «seal» (loglet : MemoryLoglet) : MemoryLoglet × Result Nat :=
  ({ loglet with sealed := true }, .ok loglet.tail)

/-- One call, as the trait sees it. -/
def call (loglet : MemoryLoglet) : LogletOp → MemoryLoglet × LogletResult
  | .append entry =>
      let (next, result) := loglet.append entry
      (next, result.map .pos)
  | .checkTail => (loglet, loglet.checkTail.map .pos)
  | .read pos => (loglet, (loglet.read pos).map .entry)
  | .trim pos => (loglet.trim pos, .ok .unit)
  | .seal =>
      let (next, result) := loglet.seal
      (next, result.map .pos)

theorem append_open {loglet : MemoryLoglet} (isOpen : loglet.sealed = false) (entry : Entry) :
    loglet.append entry =
      ({ loglet with entries := loglet.entries ++ [some entry] }, .ok loglet.tail) := by
  unfold append
  rw [if_neg (Bool.eq_false_iff.mp isOpen)]

theorem append_sealed {loglet : MemoryLoglet} (isSealed : loglet.sealed = true) (entry : Entry) :
    loglet.append entry = (loglet, .error (.sealed loglet.tail)) := by
  unfold append
  rw [if_pos isSealed]

theorem read_last {loglet : MemoryLoglet} {entry found : Entry}
    (read : { loglet with entries := loglet.entries ++ [some entry] : MemoryLoglet }.read loglet.tail =
      .ok (some found)) : found = entry := by
  unfold MemoryLoglet.read at read
  split at read
  · cases read
  split at read
  · cases read
  have last : loglet.tail - logPosBegin = loglet.entries.length := Nat.add_sub_cancel ..
  dsimp only at read
  rw [last, List.getElem?_concat_length] at read
  cases read
  rfl

theorem trim_length (loglet : MemoryLoglet) (pos : Nat) :
    (loglet.trim pos).entries.length = loglet.entries.length := by
  unfold trim
  split
  · exact List.length_mapIdx
  · rfl

theorem trim_sealed (loglet : MemoryLoglet) (pos : Nat) :
    (loglet.trim pos).sealed = loglet.sealed := by
  unfold trim
  split <;> rfl

theorem trim_trimPos (loglet : MemoryLoglet) (pos : Nat) :
    (loglet.trim pos).trimPos = max loglet.trimPos pos := by
  unfold trim
  split
  · rename_i below
    exact (Nat.max_eq_right (Nat.le_of_lt below)).symm
  · rename_i above
    exact (Nat.max_eq_left (Nat.not_lt.mp above)).symm

/-- Calls never lower a trim point. -/
theorem call_trimPos (loglet : MemoryLoglet) (op : LogletOp) :
    loglet.trimPos ≤ (loglet.call op).1.trimPos := by
  cases op with
  | append entry =>
      dsimp only [call, append]
      split <;> exact Nat.le_refl _
  | trim pos =>
      dsimp only [call]
      rw [trim_trimPos]
      exact Nat.le_max_left _ _
  | checkTail | read | «seal» => exact Nat.le_refl _

theorem trim_entries (pos : Nat) {loglet : MemoryLoglet} (below : loglet.trimPos < pos) (slot : Nat) :
    (loglet.trim pos).entries[slot]? = loglet.entries[slot]? ∨
      (slot + logPosBegin < pos ∧ (loglet.trim pos).entries[slot]? =
        (loglet.entries[slot]?).map fun _ => none) := by
  have mapped : (loglet.trim pos).entries[slot]? =
      (loglet.entries[slot]?).map fun entry =>
        if slot + logPosBegin < (if pos < loglet.tail then pos else loglet.tail)
        then none else entry := by
    unfold trim
    rw [if_pos below]
    exact List.getElem?_mapIdx
  by_cases trimmed : slot + logPosBegin <
      (if pos < loglet.tail then pos else loglet.tail)
  · simp only [if_pos trimmed] at mapped
    refine Or.inr ⟨?_, mapped⟩
    split at trimmed <;> omega
  · simp only [if_neg trimmed, Option.map_id'] at mapped
    exact Or.inl mapped

/-- A loglet that was neither sealed nor trimmed. -/
def holding (entries : List Entry) : MemoryLoglet :=
  { entries := entries.map some, sealed := false, trimPos := logPosBegin }

variable (entries : List Entry)

theorem holding_tail : (holding entries).tail = entries.length + 1 := by
  unfold holding tail
  rw [List.length_map]
  rfl

theorem holding_append (entry : Entry) :
    (holding entries).append entry = (holding (entries ++ [entry]), .ok (entries.length + 1)) := by
  unfold append
  rw [holding_tail]
  simp only [holding, List.map_append, List.map_cons, List.map_nil, Bool.false_eq_true, if_false]

theorem holding_read {index : Nat} : (holding entries).read (index + 1) = .ok entries[index]? := by
  have untrimmed : ¬ index + 1 < (holding entries).trimPos := Nat.not_lt.mpr (Nat.le_add_left 1 index)
  unfold read
  rw [if_neg untrimmed, holding_tail]
  split
  · rename_i beyond
    rw [List.getElem?_eq_none (Nat.le_of_succ_le_succ beyond)]
  · simp only [holding, List.getElem?_map, logPosBegin, Nat.add_sub_cancel]
    cases entries[index]? <;> rfl

end MemoryLoglet

/-- A loglet with the history of its appends. Only statements read `written`. -/
structure TrackedLoglet where
  loglet : MemoryLoglet
  written : List (Nat × Entry)
deriving DecidableEq

namespace TrackedLoglet

def new : TrackedLoglet := { loglet := .new, written := [] }

def record (index : Nat) (written : List (Nat × Entry)) : LogletOp → LogletResult →
    List (Nat × Entry)
  | .append entry, .ok _ => written ++ [(index, entry)]
  | _, _ => written

def call (tracked : TrackedLoglet) (index : Nat) (op : LogletOp) : TrackedLoglet × LogletResult :=
  let (loglet, result) := tracked.loglet.call op
  ({ loglet := loglet, written := record index tracked.written op result }, result)

def finalTail (tracked : TrackedLoglet) : Option Nat :=
  if tracked.loglet.sealed then some tracked.loglet.tail else none

def Placed (tracked : TrackedLoglet) (owner : Nat) (entry : Entry) (pos : Nat) : Prop :=
  logPosBegin ≤ pos ∧ tracked.written[pos - logPosBegin]? = some (owner, entry)

structure Inv (trims : Prop) (tracked : TrackedLoglet) : Prop where
  length : tracked.loglet.entries.length = tracked.written.length
  recorded : ∀ slot owner entry, tracked.written[slot]? = some (owner, entry) →
    tracked.loglet.entries[slot]? = some (some entry) ∨
      (slot + logPosBegin < tracked.loglet.trimPos ∧ tracked.loglet.entries[slot]? = some none)
  trimPos_pos : logPosBegin ≤ tracked.loglet.trimPos
  untrimmed : ¬ trims → tracked.loglet.trimPos = logPosBegin

structure Grows (tracked next : TrackedLoglet) : Prop where
  written : tracked.written <+: next.written
  frozen : tracked.loglet.sealed = true →
    next.loglet.sealed = true ∧ next.written = tracked.written

def Finished (tracked : TrackedLoglet) (index : Nat) : LogletOp → LogletResult → Prop
  | .append entry, .ok value => ∃ pos, value = .pos pos ∧ tracked.Placed index entry pos
  | .append _, .error error => ∃ tail, error = .sealed tail ∧ tracked.finalTail = some tail
  | .checkTail, result => ∃ tail, result = .ok (.pos tail) ∧ logPosBegin ≤ tail ∧
      tail ≤ tracked.loglet.tail
  | .read pos, .ok value => ∃ found, value = .entry found ∧ ∀ entry, found = some entry →
      ∃ owner, tracked.Placed owner entry pos
  | .read pos, .error error => error = .trimmed pos
  | .trim _, result => result = .ok .unit
  | .seal, result => ∃ tail, result = .ok (.pos tail) ∧ tracked.finalTail = some tail

variable {trims : Prop} {tracked next : TrackedLoglet} {index : Nat}

theorem Grows.refl (tracked : TrackedLoglet) : tracked.Grows tracked :=
  ⟨List.prefix_refl _, fun sealed => ⟨sealed, rfl⟩⟩

theorem Grows.trans {last : TrackedLoglet} (first : tracked.Grows next) (second : next.Grows last) :
    tracked.Grows last := by
  refine ⟨first.written.trans second.written, fun isSealed => ?_⟩
  obtain ⟨stays, same⟩ := first.frozen isSealed
  obtain ⟨remains, equal⟩ := second.frozen stays
  exact ⟨remains, equal.trans same⟩

theorem Inv.new (trims : Prop) : TrackedLoglet.new.Inv trims where
  length := rfl
  recorded := by intro slot owner entry found; cases found
  trimPos_pos := Nat.le_refl _
  untrimmed := fun _ => rfl

theorem Inv.tail_eq (inv : tracked.Inv trims) :
    tracked.loglet.tail = tracked.written.length + logPosBegin := by
  unfold MemoryLoglet.tail
  rw [inv.length]

theorem Placed.stable (grows : tracked.Grows next) {owner : Nat} {entry : Entry} {pos : Nat}
    (placed : tracked.Placed owner entry pos) : next.Placed owner entry pos := by
  obtain ⟨added, same⟩ := grows.written
  refine ⟨placed.1, ?_⟩
  rw [← same]
  exact List.getElem?_append_left (List.getElem?_eq_some_iff.mp placed.2).1 ▸ placed.2

theorem Placed.lt_tail (inv : tracked.Inv trims) {owner : Nat} {entry : Entry} {pos : Nat}
    (placed : tracked.Placed owner entry pos) : pos < tracked.loglet.tail := by
  have inside := (List.getElem?_eq_some_iff.mp placed.2).1
  have positive := placed.1
  rw [inv.tail_eq]
  simp only [logPosBegin] at inside positive ⊢
  omega

theorem finalTail_eq_some {tail : Nat} (final : tracked.finalTail = some tail) :
    tracked.loglet.sealed = true ∧ tail = tracked.loglet.tail := by
  unfold finalTail at final
  split at final
  · rename_i isSealed
    exact ⟨isSealed, (Option.some.inj final).symm⟩
  · cases final

theorem finalTail_stable (inv : tracked.Inv trims) (inv' : next.Inv trims)
    (grows : tracked.Grows next) {tail : Nat} (final : tracked.finalTail = some tail) :
    next.finalTail = some tail := by
  obtain ⟨isSealed, rfl⟩ := finalTail_eq_some final
  obtain ⟨stays, same⟩ := grows.frozen isSealed
  unfold finalTail
  rw [if_pos stays, inv.tail_eq, inv'.tail_eq, same]

/-! ### The operations -/

/-- A read at or above the trim point returns exactly what was written. -/
theorem read_eq (inv : tracked.Inv trims) {pos : Nat}
    (untrimmed : tracked.loglet.trimPos ≤ pos) :
    tracked.loglet.read pos = .ok ((tracked.written[pos - logPosBegin]?).map Prod.snd) := by
  have positive : logPosBegin ≤ pos := Nat.le_trans inv.trimPos_pos untrimmed
  have tailEq := inv.tail_eq
  unfold MemoryLoglet.read
  rw [if_neg (Nat.not_lt.mpr untrimmed)]
  cases found : tracked.written[pos - logPosBegin]? with
  | none =>
      have outside := List.getElem?_eq_none_iff.mp found
      rw [if_pos (by omega)]
      rfl
  | some written =>
      have inside := (List.getElem?_eq_some_iff.mp found).1
      rw [if_neg (by omega)]
      rcases inv.recorded _ _ _ found with kept | ⟨trimmed, _⟩
      · rw [kept]
        rfl
      · omega

theorem append_sealed (isSealed : tracked.loglet.sealed = true) (entry : Entry) :
    tracked.call index (.append entry) = (tracked, .error (.sealed tracked.loglet.tail)) := by
  simp only [call, MemoryLoglet.call, MemoryLoglet.append, if_pos isSealed, Except.map, record]

theorem append_open (isOpen : tracked.loglet.sealed = false) (entry : Entry) :
    tracked.call index (.append entry) =
      ({ loglet := { tracked.loglet with entries := tracked.loglet.entries ++ [some entry] }
         written := tracked.written ++ [(index, entry)] },
        .ok (.pos tracked.loglet.tail)) := by
  simp only [call, MemoryLoglet.call, MemoryLoglet.append_open isOpen, Except.map, record]

theorem append_sound (inv : tracked.Inv trims) (index : Nat) (entry : Entry) :
    (tracked.call index (.append entry)).1.Inv trims ∧
      tracked.Grows (tracked.call index (.append entry)).1 ∧
      (tracked.call index (.append entry)).1.Finished index (.append entry)
        (tracked.call index (.append entry)).2 := by
  cases isSealed : tracked.loglet.sealed with
  | true =>
      rw [append_sealed isSealed]
      refine ⟨inv, .refl _, tracked.loglet.tail, rfl, ?_⟩
      unfold finalTail
      rw [if_pos isSealed]
  | false =>
      rw [append_open isSealed]
      refine ⟨⟨?_, ?_, inv.trimPos_pos, inv.untrimmed⟩, ⟨List.prefix_append _ _, ?_⟩, ?_⟩
      · simp only [List.length_append, List.length_singleton, inv.length]
      · intro slot owner written found
        by_cases inside : slot < tracked.written.length
        · rw [List.getElem?_append_left inside] at found
          rw [List.getElem?_append_left (by rw [inv.length]; exact inside)]
          exact inv.recorded slot owner written found
        · have bound := (List.getElem?_eq_some_iff.mp found).1
          simp only [List.length_append, List.length_singleton] at bound
          have last : slot = tracked.written.length := by omega
          subst last
          rw [List.getElem?_concat_length] at found
          cases found
          rw [← inv.length, List.getElem?_concat_length]
          exact Or.inl rfl
      · intro impossible
        rw [isSealed] at impossible
        cases impossible
      · refine ⟨tracked.loglet.tail, rfl, ?_, ?_⟩
        · exact Nat.le_add_left _ _
        · rw [inv.tail_eq, Nat.add_sub_cancel]
          exact List.getElem?_concat_length

theorem trim_sound (inv : tracked.Inv trims) (index pos : Nat) (allowed : trims) :
    (tracked.call index (.trim pos)).1.Inv trims ∧
      tracked.Grows (tracked.call index (.trim pos)).1 := by
  by_cases below : tracked.loglet.trimPos < pos
  · have trimPosEq : (tracked.loglet.trim pos).trimPos = pos :=
      (MemoryLoglet.trim_trimPos _ pos).trans (Nat.max_eq_right (Nat.le_of_lt below))
    have sealedEq : (tracked.loglet.trim pos).sealed = tracked.loglet.sealed := by
      unfold MemoryLoglet.trim
      rw [if_pos below]
    refine ⟨⟨?_, ?_, ?_, fun forbidden => absurd allowed forbidden⟩,
      ⟨List.prefix_refl _, fun isSealed => ⟨sealedEq.trans isSealed, rfl⟩⟩⟩
    · exact (MemoryLoglet.trim_length _ pos).trans inv.length
    · intro slot owner entry found
      change (tracked.loglet.trim pos).entries[slot]? = _ ∨
        (_ < (tracked.loglet.trim pos).trimPos ∧ (tracked.loglet.trim pos).entries[slot]? = _)
      rw [trimPosEq]
      rcases inv.recorded slot owner entry found with kept | ⟨early, gone⟩
      · rcases MemoryLoglet.trim_entries pos below slot with same | ⟨early, gone⟩
        · exact Or.inl (same.trans kept)
        · refine Or.inr ⟨early, ?_⟩
          rw [gone, kept]
          rfl
      · refine Or.inr ⟨by omega, ?_⟩
        rcases MemoryLoglet.trim_entries pos below slot with same | ⟨_, same⟩
        · exact same.trans gone
        · rw [same, gone]
          rfl
    · change logPosBegin ≤ (tracked.loglet.trim pos).trimPos
      have positive := inv.trimPos_pos
      omega
  · have unchanged : (tracked.call index (.trim pos)).1 = tracked := by
      simp only [call, MemoryLoglet.call, MemoryLoglet.trim, if_neg below, record]
    rw [unchanged]
    exact ⟨inv, .refl _⟩

theorem seal_sound (inv : tracked.Inv trims) (index : Nat) :
    (tracked.call index .seal).1.Inv trims ∧ tracked.Grows (tracked.call index .seal).1 ∧
      (tracked.call index .seal).1.Finished index .seal (tracked.call index .seal).2 :=
  ⟨⟨inv.length, inv.recorded, inv.trimPos_pos, inv.untrimmed⟩,
    ⟨List.prefix_refl _, fun _ => ⟨rfl, rfl⟩⟩, tracked.loglet.tail, rfl, rfl⟩

theorem read_sound (inv : tracked.Inv trims) (index pos : Nat) :
    tracked.Finished index (.read pos) (tracked.call index (.read pos)).2 := by
  change tracked.Finished index (.read pos) ((tracked.loglet.read pos).map .entry)
  by_cases trimmed : pos < tracked.loglet.trimPos
  · unfold MemoryLoglet.read
    rw [if_pos trimmed]
    exact rfl
  · rw [read_eq inv (Nat.not_lt.mp trimmed)]
    refine ⟨_, rfl, fun entry found => ?_⟩
    obtain ⟨⟨owner, written⟩, located, rfl⟩ := Option.map_eq_some_iff.mp found
    exact ⟨owner, Nat.le_trans inv.trimPos_pos (Nat.not_lt.mp trimmed), located⟩

theorem call_sound (inv : tracked.Inv trims) (index : Nat) (op : LogletOp) (allowed : op.IsTrim → trims) :
    (tracked.call index op).1.Inv trims ∧ tracked.Grows (tracked.call index op).1 ∧
      (tracked.call index op).1.Finished index op (tracked.call index op).2 := by
  cases op with
  | append entry => exact append_sound inv index entry
  | checkTail =>
      exact ⟨inv, .refl _, tracked.loglet.tail, rfl, Nat.le_add_left _ _, Nat.le_refl _⟩
  | read pos => exact ⟨inv, .refl _, read_sound inv index pos⟩
  | trim pos =>
      obtain ⟨inv', grows⟩ := trim_sound inv index pos (allowed trivial)
      exact ⟨inv', grows, rfl⟩
  | «seal» => exact seal_sound inv index

theorem Finished.stable (inv : tracked.Inv trims) (inv' : next.Inv trims)
    (grows : tracked.Grows next) {op : LogletOp} {result : LogletResult}
    (finished : tracked.Finished index op result) : next.Finished index op result := by
  cases op with
  | append entry =>
      cases result with
      | ok value =>
          obtain ⟨pos, same, placed⟩ := finished
          exact ⟨pos, same, placed.stable grows⟩
      | error error =>
          obtain ⟨tail, same, final⟩ := finished
          exact ⟨tail, same, finalTail_stable inv inv' grows final⟩
  | checkTail =>
      obtain ⟨tail, same, positive, bound⟩ := finished
      have longer := grows.written.length_le
      exact ⟨tail, same, positive, by rw [inv.tail_eq] at bound; rw [inv'.tail_eq]; omega⟩
  | read pos =>
      cases result with
      | ok value =>
          obtain ⟨found, same, placed⟩ := finished
          refine ⟨found, same, fun entry present => ?_⟩
          obtain ⟨owner, located⟩ := placed entry present
          exact ⟨owner, located.stable grows⟩
      | error error => exact finished
  | trim pos => exact finished
  | «seal» =>
      obtain ⟨tail, same, final⟩ := finished
      exact ⟨tail, same, finalTail_stable inv inv' grows final⟩

end TrackedLoglet

/-- Memory loglets as a component: no suspended state and no background task. -/
def memoryComponent : LogletComponent TrackedLoglet Unit Empty where
  begin _ := ()
  poll tracked index op _ := some ((tracked.call index op).1, .finished (tracked.call index op).2)
  background _ event := nomatch event

def memoryOutline (trims : Prop) : LogletOutline memoryComponent where
  OpOk op := op.IsTrim → trims
  PollOk _ _ _ _ := True
  EventOk _ _ := True
  Inv := TrackedLoglet.Inv trims
  Fresh _ _ := True
  Running _ _ _ _ := True
  Finished := TrackedLoglet.Finished
  Rely _ := TrackedLoglet.Grows
  begin_running _ _ _ := trivial
  poll_sound := by
    intro tracked index op future next progress inv opOk _ _ polled
    cases polled
    obtain ⟨inv', grows, finished⟩ := TrackedLoglet.call_sound inv index op opOk
    exact ⟨inv', finished, fun _ _ => grows⟩
  background_sound := by intro _ event; cases event
  fresh_stable _ _ _ _ := trivial
  running_stable _ _ _ _ := trivial
  finished_stable inv inv' grows finished := finished.stable inv inv' grows
  rely_refl _ := TrackedLoglet.Grows.refl
  rely_trans first second := first.trans second
  running_fresh _ _ _ := trivial
  finished_fresh _ _ _ := trivial
  Trims := trims
  opOk allowed := allowed
  finalTail := TrackedLoglet.finalTail
  finalTail_stable inv inv' grows final := TrackedLoglet.finalTail_stable inv inv' grows final
  finalTail_pos := by
    intro tracked tail inv final
    obtain ⟨_, rfl⟩ := TrackedLoglet.finalTail_eq_some final
    exact Nat.le_add_left _ _
  seal_final := by
    intro tracked index value _ finished
    obtain ⟨tail, same, final⟩ := finished
    exact ⟨tail, Except.ok.inj same, final⟩
  Placed := TrackedLoglet.Placed
  placed_stable _ _ grows placed := placed.stable grows
  placed_unique := by
    intro tracked owner owner' entry entry' pos _ left right
    have same := left.2.symm.trans right.2
    simpa only [Option.some.injEq, Prod.mk.injEq] using same
  placed_pos _ placed := placed.1
  placed_below := by
    intro tracked owner entry pos tail inv placed final
    obtain ⟨_, rfl⟩ := TrackedLoglet.finalTail_eq_some final
    exact placed.lt_tail inv
  append_placed _ finished := finished
  read_placed _ finished := finished
  tail_pos := by
    intro tracked index result _ finished
    obtain ⟨tail, same, positive, _⟩ := finished
    exact ⟨tail, same, positive⟩
  tail_le := by
    intro tracked index tail final _ finished isFinal
    obtain ⟨_, same, _, bound⟩ := finished
    obtain ⟨_, rfl⟩ := TrackedLoglet.finalTail_eq_some isFinal
    cases same
    exact bound

/-- Without trims a written entry is read back by every later call. -/
def memoryPromise (owner : Nat) (entry : Entry) (pos : Nat) :
    Outline.Promise (memoryOutline False).toOutline where
  Fact tracked := tracked.Placed owner entry pos
  Running _ _ _ := True
  Finished
    | .read read, result => read = pos → result = .ok (.entry (some entry))
    | .checkTail, result => ∀ tail, result = .ok (.pos tail) → pos < tail
    | _, _ => True
  fact_stable _ _ grows placed := placed.stable grows
  begin_running _ _ := trivial
  poll_sound := by
    intro tracked index op future next progress inv placed _ _ _ _ polled
    cases polled
    cases op with
    | append written => exact trivial
    | checkTail =>
        intro tail same
        cases same
        exact placed.lt_tail inv
    | read read =>
        intro same
        subst same
        have untrimmed : tracked.loglet.trimPos ≤ read := by
          rw [inv.untrimmed id]
          exact placed.1
        change (tracked.loglet.read read).map LogletValue.entry = _
        rw [TrackedLoglet.read_eq inv untrimmed, placed.2]
        rfl
    | trim pos => exact trivial
    | «seal» => exact trivial
  running_stable _ _ _ _ _ := trivial

def memoryDurable : DurableOutline memoryComponent where
  toLogletOutline := memoryOutline False
  durable := memoryPromise
  append_durable := by
    intro tracked index entry pos _ finished
    obtain ⟨_, same, placed⟩ := finished
    cases same
    exact placed
  durable_placed _ placed := placed
  durable_read finished := finished rfl
  durable_tail finished := finished _ rfl

end Relos
