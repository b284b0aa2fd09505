import Relos.Log.Agreement
import Relos.Log.Durability

set_option autoImplicit false

/-! What a read or a `check_tail` that starts after an acknowledged append
observes: the entry, exactly when the cached chain of its instance already has
the segment of the entry. -/

namespace Relos

open Async Epochs

namespace MemoryLogs

variable {Node : Type}

def Untrimmed : MemoryLogsAction Node → Prop
  | .start call => ¬ call.2.IsTrim
  | .poll _ => True
  | .background _ => True

instance : (action : MemoryLogsAction Node) → Decidable (Untrimmed action)
  | .start call => inferInstanceAs (Decidable (¬ call.2.IsTrim))
  | .poll _ => isTrue trivial
  | .background _ => isTrue trivial

/-- One operation at a time on each instance, without trims. -/
def UntrimmedOperations (system : MemoryLogs Node) (action : MemoryLogsAction Node) : Prop :=
  system.Operations action ∧ Untrimmed action

instance [DecidableEq Node] (system : MemoryLogs Node) (action : MemoryLogsAction Node) :
    Decidable (system.UntrimmedOperations action) :=
  inferInstanceAs (Decidable (_ ∧ _))

/-- The cached chain of the instance has the segment of the MetaStore's chain
that contains the position. -/
def KnowsSegment (system : MemoryLogs Node) (node : Node) (globalPos : Nat) : Prop :=
  system.shared.metaStore.chain.segments.findIdx (fun segment => segment.contains globalPos) <
    (system.shared.logs node).chain.segments.length

/-- The operation saw the entry at the position. -/
def Fresh (entry : Entry) (globalPos : Nat) (op : LogletOp) (result : LogletResult) : Prop :=
  match op with
  | .checkTail => ∃ tail, result = .ok (.pos tail) ∧ globalPos < tail
  | _ => result = .ok (.entry (some entry))

section Segments

variable {ends : List Nat} {initial : String}

theorem within_contains {epoch globalPos : Nat} (within : Within ends epoch globalPos) :
    (segmentAt initial ends epoch).contains globalPos = true :=
  segmentAt_contains.mpr ⟨within.after, within.before⟩

theorem findIdx_chainOf (ordered : Ordered ends) {epoch globalPos : Nat}
    (within : Within ends epoch globalPos) :
    (chainOf initial ends).segments.findIdx (fun segment => segment.contains globalPos) = epoch := by
  have bound : epoch < (chainOf initial ends).segments.length := by
    rw [chainOf_length]
    exact Nat.lt_succ_of_le within.inside
  rw [List.findIdx_eq bound]
  constructor
  · rw [chainOf_getElem]
    exact within_contains within
  · intro earlier before
    rw [chainOf_getElem, Bool.eq_false_iff]
    intro held
    obtain ⟨after, below⟩ := segmentAt_contains.mp held
    have earlierWithin : Within ends earlier globalPos :=
      ⟨Nat.le_trans (Nat.le_of_lt before) within.inside, after, below⟩
    have same := earlierWithin.unique ordered within
    omega

end Segments

theorem shared_single : Factory.shared = .fresh → Subsingleton Node := by
  intro impossible
  cases impossible

theorem oneEach_of_untrimmed (system : MemoryLogs Node) (action : MemoryLogsAction Node)
    (permitted : system.UntrimmedOperations action) : system.Operations action :=
  permitted.1

theorem not_trim_of_untrimmed (system : MemoryLogs Node) (call : Node × LogletOp)
    (permitted : system.UntrimmedOperations (.start call)) : call.2.IsTrim → False :=
  permitted.2

variable [DecidableEq Node] {initial : String}

theorem knowsSegment_iff {system : MemoryLogs Node}
    (valid : (outline Node False .shared initial).Valid system) {node : Node}
    {epoch globalPos : Nat} (within : Within system.shared.ends epoch globalPos) :
    system.KnowsSegment node globalPos ↔ epoch ≤ system.shared.epoch node := by
  unfold KnowsSegment
  rw [valid.inv.chain, findIdx_chainOf valid.inv.ordered within, valid.inv.cached node,
    chainOf_length, valid.inv.epoch_eq]
  exact Nat.lt_succ_iff

theorem placed_within {system : MemoryLogs Node}
    (valid : (outline Node False .shared initial).Valid system) {node : Node}
    {epoch owner globalPos : Nat} {entry : Entry}
    (placed : VirtualLog.PlacedIn (memoryOutline False) initial system.shared node epoch owner entry
      globalPos) :
    epoch ≤ system.shared.epoch node ∧ Within system.shared.ends epoch globalPos := by
  obtain ⟨loglet, localPos, backs, occupied, rfl⟩ := placed
  exact ⟨backs.1, VirtualLog.placed_within valid.inv shared_single backs occupied⟩

/-- An instance that knows the segment holds the loglet of the entry. -/
theorem durable_of_knows {system : MemoryLogs Node}
    (valid : (outline Node False .shared initial).Valid system) {node reader : Node}
    {owner globalPos : Nat} {entry : Entry}
    (placed : VirtualLog.PlacedAt (memoryOutline False) initial system.shared node owner entry
      globalPos)
    (knows : system.KnowsSegment reader globalPos) :
    VirtualLog.DurableAt memoryDurable initial system.shared reader owner entry globalPos := by
  obtain ⟨epoch, loglet, localPos, backs, occupied, rfl⟩ := placed
  have within := VirtualLog.placed_within valid.inv shared_single backs occupied
  have inside := (knowsSegment_iff valid within).mp knows
  obtain ⟨loglet', held⟩ := valid.inv.covered reader epoch inside
  cases valid.inv.agree shared_single backs.2 held
  exact ⟨epoch, loglet, localPos, ⟨inside, held⟩, occupied, rfl⟩

/-- A result that saw the entry came from an instance that knew its epoch. -/
theorem epoch_le_of_fresh {system : MemoryLogs Node}
    (valid : (outline Node False .shared initial).Valid system) {reader : Node}
    {index epoch globalPos : Nat} {entry : Entry} (within : Within system.shared.ends epoch globalPos)
    {op : LogletOp} (asks : op = .checkTail ∨ op = .read globalPos) {result : LogletResult}
    (returned : system.Returned index (reader, op) result) (fresh : Fresh entry globalPos op result) :
    epoch ≤ system.shared.epoch reader := by
  have inv := valid.inv
  have finished := (valid.finished returned).1
  rcases asks with rfl | rfl
  · obtain ⟨tail, rfl, beyond⟩ := fresh
    obtain ⟨_, same, asked, loglet, localTail, backs, answered, rfl⟩ := finished
    cases same
    rcases Nat.lt_or_ge asked epoch with earlier | later
    · -- The asked loglet is sealed, so its tail cannot pass the end of its segment.
      have inside : asked < system.shared.ends.length := Nat.lt_of_lt_of_le earlier within.inside
      have closed : system.shared.ends[asked]? = some system.shared.ends[asked] :=
        List.getElem?_eq_getElem inside
      obtain ⟨_, backing, final, held, isFinal, endEq⟩ := inv.closed asked _ closed
      cases inv.agree shared_single backs.2 held
      have bound := (memoryOutline False).tail_le (inv.heap loglet) answered isFinal
      have next := inv.ordered.startAt_mono earlier within.inside
      rw [startAt_succ closed, endEq] at next
      have after := within.after
      unfold localToGlobal at beyond next
      omega
    · exact Nat.le_trans later backs.1
  · have saw : result = .ok (.entry (some entry)) := fresh
    subst saw
    obtain ⟨_, same, placed⟩ := finished
    cases same
    obtain ⟨owner, epoch', found⟩ := placed entry rfl
    obtain ⟨inside, within'⟩ := placed_within valid found
    rw [within.unique inv.ordered within']
    exact inside

/-! ### The call that watches -/

/-- The call is running on an unchanged instance, or has returned a result that
is fresh only if the instance knew the segment. -/
def Watched (started system : MemoryLogs Node) (reader : Node) (op : LogletOp) (entry : Entry)
    (globalPos : Nat) : Prop :=
  (∃ future, system.Pending started.calls.length (reader, op) future ∧
      system.shared.logs reader = started.shared.logs reader) ∨
    ∃ result, system.Returned started.calls.length (reader, op) result ∧
      (Fresh entry globalPos op result → started.KnowsSegment reader globalPos)

theorem Watched.step {started system next : MemoryLogs Node} {reader : Node} {op : LogletOp}
    {entry : Entry} {globalPos epoch : Nat} (asks : op = .checkTail ∨ op = .read globalPos)
    (knows : started.KnowsSegment reader globalPos ↔ epoch ≤ started.shared.epoch reader)
    (within : Within next.shared.ends epoch globalPos)
    (watched : Watched started system reader op entry globalPos)
    (valid : (outline Node False .shared initial).Valid system)
    (valid' : (outline Node False .shared initial).Valid next)
    (orderly : (clients Node False initial).Orderly system) {action : MemoryLogsAction Node}
    (permitted : system.Operations action)
    (moved : (memoryLogs Node .shared).step system action = some next) :
    Watched started next reader op entry globalPos := by
  have moved' : (memoryLogs Node .shared).Run (fun _ _ => True) system next := .single trivial moved
  rcases watched with ⟨future, pending, same⟩ | ⟨result, returned, fresh⟩
  · cases action with
    | start call =>
        rw [Component.step_start moved]
        exact Or.inl ⟨future, pending.start, same⟩
    | background event =>
        obtain ⟨shared, ran, rfl⟩ := Component.step_background moved
        have untouched : VirtualLog.touches event ≠ some reader := fun touched =>
          permitted reader touched _ _ _ pending rfl
        exact Or.inl ⟨future, pending, (VirtualLog.event_logs valid.inv ran untouched).trans same⟩
    | poll index =>
        obtain ⟨call, polledFuture, shared, progress, polledPending, polled, rfl⟩ :=
          Component.step_poll moved
        by_cases mine : started.calls.length = index
        · subst mine
          obtain ⟨rfl, rfl⟩ := pending.same polledPending
          have plain : ¬ op.IsAppend := by
            rcases asks with rfl | rfl <;> exact fun impossible => impossible
          obtain ⟨logs, _⟩ := VirtualLog.poll_logs_plain plain (valid.running pending).1 polled
          cases progress with
          | running later =>
              exact Or.inl ⟨later, pending.poll_self, (congrFun logs reader).trans same⟩
          | finished result =>
              refine Or.inr ⟨result, pending.poll_finished, fun saw => knows.mpr ?_⟩
              have bound := epoch_le_of_fresh valid' within asks pending.poll_finished saw
              unfold Cluster.epoch at bound ⊢
              rw [logs, same] at bound
              exact bound
        · have stranger : reader ≠ call.1 := fun equal =>
            mine (orderly.alone _ _ _ _ _ _ reader pending polledPending rfl
              (congrArg some equal.symm))
          exact Or.inl ⟨future, pending.poll_other mine,
            (VirtualLog.poll_logs_other polled stranger).trans same⟩
  · exact Or.inr ⟨result, Outline.returned_run moved' returned, fresh⟩

/-- The watch lasts as long as the entry stays in its epoch, which it always does. -/
theorem Watched.run {started begun later : MemoryLogs Node} {writer reader : Node}
    {owner globalPos epoch : Nat} {entry : Entry} {op : LogletOp}
    (asks : op = .checkTail ∨ op = .read globalPos)
    (knows : started.KnowsSegment reader globalPos ↔ epoch ≤ started.shared.epoch reader)
    (valid : (outline Node False .shared initial).Valid begun)
    (orderly : (clients Node False initial).Orderly begun)
    (placed : VirtualLog.PlacedIn (memoryOutline False) initial begun.shared writer epoch owner entry
      globalPos)
    (watched : Watched started begun reader op entry globalPos)
    (run : (memoryLogs Node .shared).Run UntrimmedOperations begun later) :
    Watched started later reader op entry globalPos := by
  refine (run.invariant (fun state : MemoryLogs Node =>
    (outline Node False .shared initial).Valid state ∧
    (clients Node False initial).Orderly state ∧
    VirtualLog.PlacedIn (memoryOutline False) initial state.shared writer epoch owner entry
      globalPos ∧
    Watched started state reader op entry globalPos) ⟨valid, orderly, placed, watched⟩ ?_).2.2.2
  rintro state action next ⟨valid, orderly, placed, watched⟩ allowed moved
  obtain ⟨single, valid', orderly'⟩ := operations_valid valid orderly oneEach_of_untrimmed
    not_trim_of_untrimmed (.single allowed moved)
  have placed' := Outline.fact_run (fun cluster => VirtualLog.PlacedIn (memoryOutline False)
    initial cluster writer epoch owner entry globalPos)
    (fun inv inv' grows held => held.stable inv inv' grows) valid placed single
  exact ⟨valid', orderly', placed', watched.step asks knows (placed_within valid' placed').2
    valid valid' orderly allowed.1 moved⟩

theorem Watched.begun {started begun : MemoryLogs Node} {reader : Node} {op : LogletOp}
    {entry : Entry} {globalPos : Nat}
    (starts : (memoryLogs Node .shared).step started (.start (reader, op)) = some begun) :
    Watched started begun reader op entry globalPos := by
  rw [Component.step_start starts]
  exact Or.inl ⟨VirtualLog.begin op, List.getElem?_concat_length, rfl⟩

/-- A read or a `check_tail` started after an acknowledged append sees the entry
exactly when its instance knows the segment of the entry as the call starts. -/
theorem fresh_iff_knowsSegment {started begun later : MemoryLogs Node} {writer reader : Node}
    {owner globalPos : Nat} {entry : Entry} {op : LogletOp} {result : LogletResult}
    (before : (memoryLogs Node .shared).Run UntrimmedOperations (new Node initial) started)
    (acknowledged : started.Returned owner (writer, .append entry) (.ok (.pos globalPos)))
    (asks : op = .checkTail ∨ op = .read globalPos)
    (allowed : started.UntrimmedOperations (.start (reader, op)))
    (starts : (memoryLogs Node .shared).step started (.start (reader, op)) = some begun)
    (after : (memoryLogs Node .shared).Run UntrimmedOperations begun later)
    (returned : later.Returned started.calls.length (reader, op) result) :
    Fresh entry globalPos op result ↔ started.KnowsSegment reader globalPos := by
  obtain ⟨_, valid, orderly⟩ := operations_valid (valid_new False .shared initial)
    (orderly_new False initial) oneEach_of_untrimmed not_trim_of_untrimmed before
  obtain ⟨_, same, appended⟩ := (valid.finished acknowledged).1
  cases same
  have placed := appended.placedAt valid.inv
  constructor
  · obtain ⟨epoch, placed⟩ := placed
    have knows : started.KnowsSegment reader globalPos ↔ epoch ≤ started.shared.epoch reader :=
      knowsSegment_iff valid (placed_within valid placed).2
    obtain ⟨_, valid', orderly'⟩ := operations_valid valid orderly oneEach_of_untrimmed
      not_trim_of_untrimmed (.single allowed starts)
    have sharedEq : begun.shared = started.shared := by rw [Component.step_start starts]
    rw [← sharedEq] at placed
    have watched := (Watched.begun starts).run asks knows valid' orderly' placed after
    rcases watched with ⟨future, pending, _⟩ | ⟨result', returned', fresh⟩
    · unfold System.Pending at pending
      unfold System.Returned at returned
      rw [returned] at pending
      cases pending
    · unfold System.Returned at returned returned'
      rw [returned] at returned'
      cases returned'
      exact fresh
  · intro knows
    have whole := (Machine.Run.single allowed starts).trans after
    obtain ⟨permitted, _, _⟩ := operations_valid valid orderly oneEach_of_untrimmed
      not_trim_of_untrimmed whole
    have durable := durable_of_knows valid placed knows
    rcases asks with rfl | rfl
    · exact (VirtualLog.tailPromise memoryDurable .shared initial shared_single reader owner entry
        globalPos).result valid durable permitted (Nat.le_refl _) returned rfl
    · exact (VirtualLog.readPromise memoryDurable .shared initial shared_single reader owner entry
        globalPos).result valid durable permitted (Nat.le_refl _) returned rfl

/-- One instance reconfigures and appends; the other has not heard of it. -/
def reconfiguredElsewhere : List (MemoryLogsAction Bool) :=
  ([.start (true, .append (.new [1]))] : List (MemoryLogsAction Bool)) ++
    (List.replicate 3 (.poll 0) : List (MemoryLogsAction Bool)) ++
    ([.start (true, .seal)] : List (MemoryLogsAction Bool)) ++
    (List.replicate 3 (.poll 1) : List (MemoryLogsAction Bool)) ++
    ([.start (true, .append (.new [2]))] : List (MemoryLogsAction Bool)) ++
    (List.replicate 16 (.poll 2) : List (MemoryLogsAction Bool))

def acknowledgedTwice : List (Call (Bool × LogletOp) (VirtualLog.Future Unit) LogletResult) :=
  [⟨(true, .append (.new [1])), .finished (.ok (.pos 1))⟩, ⟨(true, .seal), .finished (.ok (.pos 2))⟩,
    ⟨(true, .append (.new [2])), .finished (.ok (.pos 2))⟩]

set_option maxRecDepth 10000 in
theorem not_fresh_stale :
    ¬ ∀ (initial : String) (started begun later : MemoryLogs Bool) (writer reader : Bool)
        (owner globalPos : Nat) (entry : Entry) (op : LogletOp) (result : LogletResult),
      (memoryLogs Bool .shared).Run UntrimmedOperations (new Bool initial) started →
      started.Returned owner (writer, .append entry) (.ok (.pos globalPos)) →
      (op = .checkTail ∨ op = .read globalPos) →
      started.UntrimmedOperations (.start (reader, op)) →
      (memoryLogs Bool .shared).step started (.start (reader, op)) = some begun →
      (memoryLogs Bool .shared).Run UntrimmedOperations begun later →
      later.Returned started.calls.length (reader, op) result → Fresh entry globalPos op result := by
  intro fresh
  obtain ⟨started, begun, later, before, allowed, starts, after, seen, seen'⟩ :=
    Machine.exists_step_of_execute (memoryLogs Bool .shared) UntrimmedOperations
      (new Bool "memory-0") reconfiguredElsewhere (.start (false, .checkTail))
      (List.replicate 3 (.poll 3)) System.calls acknowledgedTwice
      (acknowledgedTwice ++ [⟨(false, .checkTail), .finished (.ok (.pos 2))⟩]) (by decide)
  obtain ⟨tail, same, beyond⟩ := fresh "memory-0" started begun later true false 2 2 (.new [2])
    .checkTail (.ok (.pos 2)) before (congrArg (fun calls => calls[2]?) seen) (Or.inl rfl) allowed
    starts after (by rw [seen]; exact congrArg (fun calls => calls[3]?) seen')
  cases same
  omega

set_option maxRecDepth 10000 in
theorem fresh_first_segment : ∃ started later : MemoryLogs Bool,
    started.KnowsSegment false 1 ∧
    later.Returned 3 (false, .read 1) (.ok (.entry (some (.new [1])))) := by
  obtain ⟨started, begun, later, before, allowed, starts, after, seen, seen'⟩ :=
    Machine.exists_step_of_execute (memoryLogs Bool .shared) UntrimmedOperations
      (new Bool "memory-0") reconfiguredElsewhere (.start (false, .read 1))
      (List.replicate 3 (.poll 3)) System.calls acknowledgedTwice
      (acknowledgedTwice ++ [⟨(false, .read 1), .finished (.ok (.entry (some (.new [1]))))⟩])
      (by decide)
  have returned : later.Returned 3 (false, .read 1) (.ok (.entry (some (.new [1])))) :=
    congrArg (fun calls => calls[3]?) seen'
  refine ⟨started, later, ?_, returned⟩
  have acknowledged : started.Returned 0 (true, .append (.new [1])) (.ok (.pos 1)) :=
    congrArg (fun calls => calls[0]?) seen
  exact (fresh_iff_knowsSegment before acknowledged (Or.inr rfl) allowed starts after
    (by rw [seen]; exact returned)).mp rfl

end MemoryLogs

end Relos
