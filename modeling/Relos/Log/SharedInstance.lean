import Relos.Log.Durability
import Relos.Log.MemoryLoglet

set_option autoImplicit false

/-! One virtual log over memory loglets, shared by any number of tasks. -/

namespace Relos

open Async Epochs

abbrev MemoryLogs (Node : Type) :=
  System (Cluster Node TrackedLoglet) (Node × LogletOp) (VirtualLog.Future Unit) LogletResult

abbrev MemoryLogsAction (Node : Type) := Action (Node × LogletOp) (ClusterEvent Node Empty)

abbrev memoryLogs (Node : Type) [DecidableEq Node] (factory : Factory) :
    Machine (MemoryLogs Node) (MemoryLogsAction Node) :=
  (virtualLogComponent factory memoryComponent).machine

namespace MemoryLogs

variable {Node : Type}

def new (Node : Type) (initialLogletId : String) : MemoryLogs Node :=
  .fresh (Cluster.new initialLogletId TrackedLoglet.new)

/-- The tasks of one instance: no trims, and the instance is not created anew. -/
def Tasks (_ : MemoryLogs Node) : MemoryLogsAction Node → Prop
  | .start call => ¬ call.2.IsTrim
  | .poll _ => True
  | .background (.openLog _) => False
  | .background _ => True

/-- The polled call meets the conditions on reconfigurations. -/
def CoherentPoll (system : MemoryLogs Node) : MemoryLogsAction Node → Prop
  | .poll index =>
      Call.Meets (fun call future => VirtualLog.Coherent system.shared call.1 future)
        system.calls[index]?
  | _ => True

def CoherentTasks (system : MemoryLogs Node) (action : MemoryLogsAction Node) : Prop :=
  system.Tasks action ∧ system.CoherentPoll action

/-- What `append` promises, seen from a later state of the same run. -/
structure Durable (earlier later : MemoryLogs Unit) : Prop where
  distinct : ∀ left right entry entry' pos,
    later.Returned left ((), .append entry) (.ok (.pos pos)) →
    later.Returned right ((), .append entry') (.ok (.pos pos)) → left = right
  readBack : ∀ index entry pos reader result,
    earlier.Returned index ((), .append entry) (.ok (.pos pos)) → earlier.calls.length ≤ reader →
    later.Returned reader ((), .read pos) result → result = .ok (.entry (some entry))
  closed : ∀ segment endPos, segment ∈ later.shared.metaStore.chain.segments →
    segment.endPos = some endPos → ∃ loglet, later.shared.Holds () segment.logletId loglet ∧
      localToGlobal segment.startPos (later.shared.heap loglet).loglet.tail ≤ endPos

abbrev outline (Node : Type) [DecidableEq Node] (trims : Prop) (factory : Factory)
    (initial : String) :=
  VirtualLog.virtualLogOutline Node (memoryOutline trims) factory initial

theorem logletPollOk (trims : Prop) (cluster : Cluster Node TrackedLoglet) (index : Nat)
    (op : LogletOp) (future : VirtualLog.Future Unit) :
    VirtualLog.LogletPollOk (memoryOutline trims) cluster index op future := by
  cases future <;> exact trivial

theorem coherent_of_pending {system : MemoryLogs Node} {index : Nat} {call : Node × LogletOp}
    {future : VirtualLog.Future Unit} (coherent : system.CoherentPoll (.poll index))
    (pending : system.Pending index call future) :
    VirtualLog.Coherent system.shared call.1 future := by
  simp only [CoherentPoll] at coherent
  unfold System.Pending at pending
  rw [pending] at coherent
  exact coherent

theorem CoherentTasks.permit [DecidableEq Node] {factory : Factory} {initial : String}
    {system : MemoryLogs Node} {action : MemoryLogsAction Node}
    (allowed : system.CoherentTasks action) :
    (outline Node False factory initial).permit system action := by
  cases action with
  | start call => exact fun trims => allowed.1 trims
  | poll index =>
      exact fun call future pending =>
        ⟨coherent_of_pending allowed.2 pending, logletPollOk _ _ _ _ _⟩
  | background event =>
      cases event with
      | loglet loglet event => cases event
      | openLog node => exact allowed.1.elim
      | factory error => trivial

theorem valid_new [DecidableEq Node] (trims : Prop) (factory : Factory) (initial : String) :
    (outline Node trims factory initial).Valid (new Node initial) :=
  .init (.new (memoryOutline trims) factory initial TrackedLoglet.new (TrackedLoglet.Inv.new trims))
    fun _ _ => trivial

instance (system : MemoryLogs Node) (action : MemoryLogsAction Node) :
    Decidable (system.Tasks action) :=
  match action with
  | .start call => inferInstanceAs (Decidable (¬ call.2.IsTrim))
  | .poll _ => isTrue trivial
  | .background (.openLog _) => isFalse id
  | .background (.factory _) => isTrue trivial
  | .background (.loglet _ _) => isTrue trivial

instance (cluster : Cluster Node TrackedLoglet) (node : Node)
    (future : VirtualLog.Future Unit) : Decidable (VirtualLog.Coherent cluster node future) :=
  match future with
  | .reconfigureWrite loglet startPos version newChain _ =>
      inferInstanceAs (Decidable (cluster.metaStore.version = version →
        lastSegment newChain.segments.dropLast = some (loglet.logletId, startPos)))
  | .reconfigureInsert _ _ newLogletId newLoglet =>
      inferInstanceAs (Decidable (∀ held, held ∈ (cluster.logs node).loglets[newLogletId]? →
        held = newLoglet))
  | .installChain newChain _ =>
      inferInstanceAs (Decidable ((cluster.logs node).chain.segments.length ≤
        newChain.segments.length))
  | .activeChain _ | .activeLoglet _ _ _ | .append _ _ _ | .checkTail _ _ _ | .seal _ _ _
  | .reconfigureSeal _ _ _ | .reconfigureVersion _ _ _ | .reconfigureChain _ _ _ _
  | .reconfigureCreate _ _ _ | .syncRead | .syncLoglets _ _ _ | .installVersion _
  | .readChain _ | .readLoglets _ _ | .read _ _ _ | .trimChain _ | .trimSegments _ _
  | .trim _ _ _ _ _ => isTrue trivial

instance (system : MemoryLogs Node) (action : MemoryLogsAction Node) :
    Decidable (system.CoherentPoll action) :=
  match action with
  | .poll index => inferInstanceAs (Decidable (Call.Meets
      (fun call future => VirtualLog.Coherent system.shared call.1 future) system.calls[index]?))
  | .start _ => isTrue trivial
  | .background _ => isTrue trivial

instance (system : MemoryLogs Node) (action : MemoryLogsAction Node) :
    Decidable (system.CoherentTasks action) :=
  inferInstanceAs (Decidable (_ ∧ _))

/-- Appends are durable in every run whose reconfigurations are coherent. -/
theorem durable_of_coherent (factory : Factory) (initial : String)
    {earlier later : MemoryLogs Unit}
    (before : (memoryLogs Unit factory).Run CoherentTasks (new Unit initial) earlier)
    (after : (memoryLogs Unit factory).Run CoherentTasks earlier later) :
    Durable earlier later := by
  have permitted : ∀ (system : MemoryLogs Unit) action, system.CoherentTasks action →
      (outline Unit False factory initial).permit system action := fun _ _ => CoherentTasks.permit
  have single : factory = .fresh → Subsingleton Unit := fun _ => inferInstance
  have valid := (valid_new False factory initial).run (before.mono permitted)
  have valid' := valid.run (after.mono permitted)
  refine ⟨?_, ?_, ?_⟩
  · intro left right entry entry' pos returned returned'
    obtain ⟨_, same, appended⟩ := (valid'.finished returned).1
    obtain ⟨_, same', appended'⟩ := (valid'.finished returned').1
    cases same
    cases same'
    exact ((appended.placedAt valid'.inv).unique valid'.inv single
      (appended'.placedAt valid'.inv)).1
  · intro index entry pos reader result returned later returned'
    obtain ⟨_, same, appended⟩ := (valid.finished returned).1
    cases same
    have inv : earlier.shared.Inv memoryDurable.toLogletOutline factory initial := valid.inv
    have durable : VirtualLog.DurableAt memoryDurable initial earlier.shared () index entry pos :=
      appended.durableAt inv
    exact (VirtualLog.readPromise memoryDurable factory initial single () index entry pos).result
      valid durable (after.mono permitted) later returned' rfl
  · intro segment endPos member closed
    have inv := valid'.inv
    rw [inv.chain] at member
    obtain ⟨epoch, _, rfl⟩ := mem_chainOf member
    obtain ⟨_, loglet, tail, held, final, same⟩ := inv.closed epoch endPos closed
    obtain ⟨_, rfl⟩ := TrackedLoglet.finalTail_eq_some final
    exact ⟨loglet, held, Nat.le_of_eq same.symm⟩

def polls (index count : Nat) : List (MemoryLogsAction Node) := List.replicate count (.poll index)

/-- The third append reconfigures and returns while the second one is between its
seal and its version read. -/
def overlappingReconfigurations : List (MemoryLogsAction Unit) :=
  ([.start ((), .append (.new [1]))] : List (MemoryLogsAction Unit)) ++ polls 0 3 ++
    ([.start ((), .seal)] : List (MemoryLogsAction Unit)) ++ polls 1 3 ++
    ([.start ((), .append (.new [2])), .start ((), .append (.new [3]))] :
      List (MemoryLogsAction Unit)) ++ polls 2 6 ++ polls 3 16 ++ polls 2 10

set_option maxRecDepth 10000 in
theorem not_durable_overlapping :
    ¬ ∀ earlier later, (memoryLogs Unit .fresh).Run Tasks (new Unit "memory-0") earlier →
      (memoryLogs Unit .fresh).Run Tasks earlier later → Durable earlier later := by
  intro durable
  obtain ⟨last, run, seen⟩ := Machine.exists_run_of_execute (memoryLogs Unit .fresh) Tasks
    (new Unit "memory-0") overlappingReconfigurations System.calls
    [⟨((), .append (.new [1])), .finished (.ok (.pos 1))⟩,
      ⟨((), .seal), .finished (.ok (.pos 2))⟩,
      ⟨((), .append (.new [2])), .finished (.ok (.pos 2))⟩,
      ⟨((), .append (.new [3])), .finished (.ok (.pos 2))⟩] (by decide)
  have second : last.Returned 2 ((), .append (.new [2])) (.ok (.pos 2)) :=
    congrArg (fun calls => calls[2]?) seen
  have third : last.Returned 3 ((), .append (.new [3])) (.ok (.pos 2)) :=
    congrArg (fun calls => calls[3]?) seen
  have same := (durable last last run (.refl last)).distinct 2 3 _ _ 2 second third
  omega

/-- A seal between two appends, followed by reads of both positions. -/
def sealedBetween : List (MemoryLogsAction Unit) :=
  ([.start ((), .append (.new [1]))] : List (MemoryLogsAction Unit)) ++ polls 0 3 ++
    ([.start ((), .seal)] : List (MemoryLogsAction Unit)) ++ polls 1 3 ++
    ([.start ((), .append (.new [2]))] : List (MemoryLogsAction Unit)) ++ polls 2 16

set_option maxRecDepth 10000 in
theorem durable_sealedBetween : ∃ earlier later,
    earlier.Returned 2 ((), .append (.new [2])) (.ok (.pos 2)) ∧
    later.Returned 3 ((), .read 2) (.ok (.entry (some (.new [2])))) ∧ Durable earlier later := by
  obtain ⟨earlier, later, before, after, seen, seen'⟩ := Machine.exists_runs_of_execute
    (memoryLogs Unit .fresh) CoherentTasks (new Unit "memory-0") sealedBetween
    ([.start ((), .read 2)] ++ polls 3 3) System.calls
    [⟨((), .append (.new [1])), .finished (.ok (.pos 1))⟩,
      ⟨((), .seal), .finished (.ok (.pos 2))⟩,
      ⟨((), .append (.new [2])), .finished (.ok (.pos 2))⟩]
    [⟨((), .append (.new [1])), .finished (.ok (.pos 1))⟩,
      ⟨((), .seal), .finished (.ok (.pos 2))⟩,
      ⟨((), .append (.new [2])), .finished (.ok (.pos 2))⟩,
      ⟨((), .read 2), .finished (.ok (.entry (some (.new [2]))))⟩] (by decide)
  exact ⟨earlier, later, congrArg (fun calls => calls[2]?) seen,
    congrArg (fun calls => calls[3]?) seen', durable_of_coherent .fresh "memory-0" before after⟩

end MemoryLogs

end Relos
