import Relos.Log.LogClients
import Relos.Log.SharedInstance
import Mathlib.Data.List.Nodup

set_option autoImplicit false

/-! Several virtual logs over one MetaStore and shared memory loglets, each
running one operation at a time. -/

namespace Relos

open Async Epochs

namespace MemoryLogs

variable {Node : Type}

/-- The operations of the instances, in any order between instances. -/
abbrev Operations : MemoryLogs Node → MemoryLogsAction Node → Prop :=
  OneEach VirtualLog.instanceOf VirtualLog.touches

/-- What the instances and the MetaStore agree on. -/
structure Agreement (system : MemoryLogs Node) : Prop where
  current : system.shared.installed[system.shared.metaStore.version]? =
    some system.shared.metaStore.chain
  versions : ∀ version chain, system.shared.installed[version]? = some chain →
    chain.segments.length = version + 1 ∧ (chain.segments.map ChainSegment.logletId).Nodup
  closed : ∀ segment endPos, segment ∈ system.shared.metaStore.chain.segments →
    segment.endPos = some endPos →
    (system.shared.heap ⟨segment.logletId, 0⟩).loglet.sealed = true ∧ segment.startPos ≤ endPos ∧
      (system.shared.heap ⟨segment.logletId, 0⟩).loglet.tail = endPos - segment.startPos + 1
  kept : ∀ (earlier later position : Nat) (chain chain' : LogChain) (segment : ChainSegment),
    earlier ≤ later →
    system.shared.installed[earlier]? = some chain →
    system.shared.installed[later]? = some chain' →
    chain.segments[position]? = some segment → segment.endPos.isSome = true →
    chain'.segments[position]? = some segment
  distinct : ∀ left right node node' entry entry' pos,
    system.Returned left (node, .append entry) (.ok (.pos pos)) →
    system.Returned right (node', .append entry') (.ok (.pos pos)) → left = right
  reads : ∀ left right node node' entry entry' pos,
    system.Returned left (node, .read pos) (.ok (.entry (some entry))) →
    system.Returned right (node', .read pos) (.ok (.entry (some entry'))) → entry = entry'

/-- The local pair of the instance is one that the MetaStore held. -/
def HeldPair (system : MemoryLogs Node) (node : Node) : Prop :=
  system.shared.installed[(system.shared.logs node).chainVersion]? =
    some (system.shared.logs node).chain

/-- The instance has written its cached chain and not yet the cached version. -/
def BetweenWrites (system : MemoryLogs Node) (node : Node) : Prop :=
  ∃ index op newVersion, system.Pending index (node, op) (.installVersion newVersion)

section Runs

variable [DecidableEq Node] {initial : String} {trims : Prop}

abbrev clients (Node : Type) [DecidableEq Node] (trims : Prop) (initial : String) :=
  VirtualLog.logClients Node (memoryOutline trims) initial

theorem orderly_new (trims : Prop) (initial : String) :
    (clients Node trims initial).Orderly (new Node initial) :=
  .fresh fun _ => rfl

theorem permit_of_orderly {system : MemoryLogs Node} {action : MemoryLogsAction Node}
    (valid : (outline Node trims .shared initial).Valid system)
    (orderly : (clients Node trims initial).Orderly system)
    (untrimmed : ∀ call, action = .start call → call.2.IsTrim → trims) :
    (outline Node trims .shared initial).permit system action := by
  cases action with
  | start call => exact untrimmed call rfl
  | poll index =>
      intro call future pending
      exact ⟨VirtualLog.coherent_of_shared valid.inv (valid.running pending).1
        (orderly.busy index call future call.1 pending rfl), logletPollOk _ _ _ _ _⟩
  | background event =>
      cases event with
      | loglet loglet event => cases event
      | openLog node => rfl
      | factory error => trivial

end Runs

section Invariant

variable [DecidableEq Node] {initial : String} {trims : Prop} {system : MemoryLogs Node}

theorem shared_loglet (valid : (outline Node trims .shared initial).Valid system) {node : Node}
    {logletId : String} {loglet : LogletRef} (held : system.shared.Holds node logletId loglet) :
    loglet = ⟨logletId, 0⟩ := by
  obtain ⟨named, first, _⟩ := valid.inv.known node logletId loglet held
  cases loglet
  cases named
  cases first rfl
  rfl

theorem closed_segment (valid : (outline Node trims .shared initial).Valid system)
    {segment : ChainSegment} {endPos : Nat}
    (member : segment ∈ system.shared.metaStore.chain.segments)
    (closed : segment.endPos = some endPos) :
    (system.shared.heap ⟨segment.logletId, 0⟩).loglet.sealed = true ∧ segment.startPos ≤ endPos ∧
      (system.shared.heap ⟨segment.logletId, 0⟩).loglet.tail = endPos - segment.startPos + 1 := by
  have inv := valid.inv
  rw [inv.chain] at member
  obtain ⟨epoch, _, rfl⟩ := mem_chainOf member
  obtain ⟨_, loglet, tail, held, final, rfl⟩ := inv.closed epoch endPos closed
  cases shared_loglet valid held
  have positive := (memoryOutline trims).finalTail_pos (inv.heap _) final
  obtain ⟨isSealed, rfl⟩ := TrackedLoglet.finalTail_eq_some final
  refine ⟨isSealed, ?_⟩
  simp only [logPosBegin] at positive
  simp only [segmentAt, localToGlobal]
  omega

theorem kept_segment (valid : (outline Node trims .shared initial).Valid system)
    {earlier later position : Nat} {chain chain' : LogChain} {segment : ChainSegment}
    (before : earlier ≤ later) (installed : system.shared.installed[earlier]? = some chain)
    (installed' : system.shared.installed[later]? = some chain')
    (found : chain.segments[position]? = some segment) (closed : segment.endPos.isSome = true) :
    chain'.segments[position]? = some segment := by
  obtain ⟨_, rfl⟩ := valid.inv.installed_eq_some.mp installed
  obtain ⟨inside, rfl⟩ := valid.inv.installed_eq_some.mp installed'
  have bound := (List.getElem?_eq_some_iff.mp found).1
  rw [chainOf_length] at bound
  rw [chainOf_getElem? (Nat.lt_succ_iff.mp bound)] at found
  cases found
  have below : position < (system.shared.ends.take earlier).length := by
    simp only [segmentAt, Option.isSome_iff_exists] at closed
    obtain ⟨_, known⟩ := closed
    exact (List.getElem?_eq_some_iff.mp known).1
  rw [List.length_take] at below
  have first : startAt (system.shared.ends.take later) position =
      startAt (system.shared.ends.take earlier) position := by
    rw [startAt_take (by omega) (by omega), startAt_take (by omega) (by omega)]
  have last : (system.shared.ends.take later)[position]? =
      (system.shared.ends.take earlier)[position]? := by
    rw [List.getElem?_take_of_lt (by omega), List.getElem?_take_of_lt (by omega)]
  rw [chainOf_getElem? (by rw [List.length_take]; omega)]
  simp only [segmentAt, first, last]

theorem distinct_ids (foreign : ∀ index, initial ≠ generatedId (index + 1)) (ends : List Nat) :
    ((chainOf initial ends).segments.map ChainSegment.logletId).Nodup := by
  have ids := chainOf_ids initial ends
  unfold LogChain.ids at ids
  rw [ids]
  exact List.Nodup.map (fun _ _ => idAt_injective foreign) List.nodup_range

theorem Agreement.of_valid (foreign : ∀ index, initial ≠ generatedId (index + 1))
    (valid : (outline Node trims .shared initial).Valid system) : system.Agreement := by
  have inv := valid.inv
  have single : Factory.shared = .fresh → Subsingleton Node := by
    intro impossible
    cases impossible
  constructor
  · rw [inv.installed_eq_some, inv.version]
    refine ⟨Nat.le_refl _, ?_⟩
    rw [List.take_length]
    exact inv.chain
  · intro version chain installed
    obtain ⟨inside, rfl⟩ := inv.installed_eq_some.mp installed
    refine ⟨?_, distinct_ids foreign _⟩
    rw [chainOf_length, List.length_take, Nat.min_eq_left inside]
  · intro segment endPos member closed
    exact closed_segment valid member closed
  · intro earlier later position chain chain' segment before installed installed' found closed
    exact kept_segment valid before installed installed' found closed
  · intro left right node node' entry entry' pos returned returned'
    obtain ⟨_, same, appended⟩ := (valid.finished returned).1
    obtain ⟨_, same', appended'⟩ := (valid.finished returned').1
    cases same
    cases same'
    exact ((appended.placedAt inv).unique inv single (appended'.placedAt inv)).1
  · intro left right node node' entry entry' pos returned returned'
    obtain ⟨_, same, placed⟩ := (valid.finished returned).1
    obtain ⟨_, same', placed'⟩ := (valid.finished returned').1
    cases same
    cases same'
    obtain ⟨_, occupied⟩ := placed entry rfl
    obtain ⟨_, occupied'⟩ := placed' entry' rfl
    exact (occupied.unique inv single occupied').2

theorem heldPair_of_paired (valid : (outline Node trims .shared initial).Valid system) {node : Node}
    (paired : (system.shared.logs node).Paired) : system.HeldPair node := by
  have inv := valid.inv
  have epochEq : (system.shared.logs node).chainVersion = system.shared.epoch node := by
    unfold VirtualLog.Paired at paired
    unfold Cluster.epoch
    omega
  unfold HeldPair
  rw [inv.installed_eq_some, epochEq]
  exact ⟨inv.epoch_le node, inv.cached node⟩

theorem paired_outside (orderly : (clients Node trims initial).Orderly system) {node : Node}
    (outside : ¬ system.BetweenWrites node) : (system.shared.logs node).Paired := by
  by_cases idle : system.Idle VirtualLog.instanceOf node
  · exact orderly.idle node idle
  · simp only [System.Idle, not_forall, not_not] at idle
    obtain ⟨index, ⟨_, op⟩, future, pending, mine⟩ := idle
    cases mine
    refine VirtualLog.busy_paired (orderly.busy index _ future _ pending rfl) ?_
    rintro newVersion rfl
    exact outside ⟨index, op, newVersion, pending⟩

end Invariant

theorem operations_valid [DecidableEq Node] {trims : Prop} {initial : String}
    {permit : MemoryLogs Node → MemoryLogsAction Node → Prop} {system next : MemoryLogs Node}
    (valid : (outline Node trims .shared initial).Valid system)
    (orderly : (clients Node trims initial).Orderly system)
    (oneEach : ∀ state action, permit state action → Operations state action)
    (untrimmed : ∀ state call, permit state (.start call) → call.2.IsTrim → trims)
    (run : (memoryLogs Node .shared).Run permit system next) :
    (memoryLogs Node .shared).Run (outline Node trims .shared initial).permit system next ∧
      (outline Node trims .shared initial).Valid next ∧
      (clients Node trims initial).Orderly next := by
  refine PrivateOutline.orderly_run valid orderly oneEach ?_ run
  intro state action valid orderly permitted
  refine ⟨permit_of_orderly valid orderly ?_, VirtualLog.logClients_permit action⟩
  rintro call rfl
  exact untrimmed state call permitted

/-- Every reachable state agrees, and an instance holds a pair of the MetaStore
except between its own two writes. -/
theorem operations_agree [DecidableEq Node] {initial : String}
    (foreign : ∀ index, initial ≠ generatedId (index + 1)) {system : MemoryLogs Node}
    (run : (memoryLogs Node .shared).Run Operations (new Node initial) system) :
    system.Agreement ∧ ∀ node, ¬ system.BetweenWrites node → system.HeldPair node := by
  obtain ⟨_, valid, orderly⟩ := operations_valid (valid_new True .shared initial)
    (orderly_new True initial) (fun _ _ permitted => permitted) (fun _ _ _ _ => trivial) run
  exact ⟨.of_valid foreign valid,
    fun node outside => heldPair_of_paired valid (paired_outside orderly outside)⟩

theorem memory_foreign (index : Nat) : "memory-0" ≠ generatedId (index + 1) :=
  foreign_of_head (by decide) index

/-- One instance has reconfigured up to the write of its cached chain. -/
def chainWritten : List (MemoryLogsAction Bool) :=
  ([.start (true, .seal)] : List (MemoryLogsAction Bool)) ++
    (List.replicate 3 (.poll 0) : List (MemoryLogsAction Bool)) ++
    ([.start (true, .append (.new [1]))] : List (MemoryLogsAction Bool)) ++
    (List.replicate 12 (.poll 1) : List (MemoryLogsAction Bool))

set_option maxRecDepth 10000 in
theorem not_held_chainWritten :
    ¬ ∀ initial, (∀ index, initial ≠ generatedId (index + 1)) → ∀ system : MemoryLogs Bool,
      (memoryLogs Bool .shared).Run Operations (new Bool initial) system →
      system.Agreement ∧ ∀ node, system.HeldPair node := by
  intro agree
  obtain ⟨system, run, seen⟩ := Machine.exists_run_of_execute (memoryLogs Bool .shared) Operations
    (new Bool "memory-0") chainWritten
    (fun system => (system.shared.installed, system.shared.logs true |>.chainVersion,
      system.shared.logs true |>.chain.segments.length))
    ([.new "memory-0", (LogChain.new "memory-0").extend 1 "loglet-1"], 0, 2) (by decide)
  obtain ⟨installed, cached⟩ := Prod.mk.inj seen
  obtain ⟨version, length⟩ := Prod.mk.inj cached
  have held := (agree "memory-0" memory_foreign system run).2 true
  unfold HeldPair at held
  rw [installed, version] at held
  rw [← Option.some.inj held] at length
  cases length

/-- Two instances append and reconfigure one after the other. -/
def twoInstances : List (MemoryLogsAction Bool) :=
  ([.start (false, .append (.new [1]))] : List (MemoryLogsAction Bool)) ++
    (List.replicate 3 (.poll 0) : List (MemoryLogsAction Bool)) ++
    ([.start (true, .seal)] : List (MemoryLogsAction Bool)) ++
    (List.replicate 3 (.poll 1) : List (MemoryLogsAction Bool)) ++
    ([.start (true, .append (.new [2])), .start (false, .append (.new [3]))] :
      List (MemoryLogsAction Bool)) ++
    (List.replicate 16 (.poll 2) : List (MemoryLogsAction Bool)) ++
    (List.replicate 18 (.poll 3) : List (MemoryLogsAction Bool))

set_option maxRecDepth 10000 in
theorem agree_twoInstances : ∃ system : MemoryLogs Bool,
    system.Returned 2 (true, .append (.new [2])) (.ok (.pos 2)) ∧
    system.Returned 3 (false, .append (.new [3])) (.ok (.pos 3)) ∧
    system.Agreement ∧ ∀ node, ¬ system.BetweenWrites node → system.HeldPair node := by
  obtain ⟨system, run, seen⟩ := Machine.exists_run_of_execute (memoryLogs Bool .shared) Operations
    (new Bool "memory-0") twoInstances System.calls
    [⟨(false, .append (.new [1])), .finished (.ok (.pos 1))⟩,
      ⟨(true, .seal), .finished (.ok (.pos 2))⟩,
      ⟨(true, .append (.new [2])), .finished (.ok (.pos 2))⟩,
      ⟨(false, .append (.new [3])), .finished (.ok (.pos 3))⟩] (by decide)
  exact ⟨system, congrArg (fun calls => calls[2]?) seen, congrArg (fun calls => calls[3]?) seen,
    operations_agree memory_foreign run⟩

end MemoryLogs

end Relos
