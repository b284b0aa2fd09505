import Relos.Log.ClusterSteps
import Relos.Log.MemoryLoglet
import Relos.Log.NativeQueues

set_option autoImplicit false

/-! What a call leaves in a loglet is what it was asked to append, and a call that has not
started leaves nothing. -/

namespace Relos

open Async

variable {State Fut Event : Type} {component : LogletComponent State Fut Event}

/-- `Writes` says that the index has written for this operation, if for any. Trims are allowed,
and polls need no condition of their own. -/
structure Ownership (outline : LogletOutline component) where
  trims : outline.Trims
  Writes : Nat → LogletOp → State → Prop
  silent : ∀ {state index} op, Writes index .checkTail state → Writes index op state
  stable : ∀ {state next index op}, outline.Inv state → outline.Inv next →
    outline.Rely index state next → Writes index op state → Writes index op next
  poll : ∀ {state next index op asked future progress}, (asked.IsAppend → asked = op) →
    component.poll state index asked future = some (next, progress) →
    Writes index op state → Writes index op next
  placed : ∀ {state index op entry pos}, outline.Inv state → Writes index op state →
    outline.Placed state index entry pos → op = .append entry
  pollOk : ∀ state index op future, outline.PollOk state index op future

namespace VirtualLog

variable {Node : Type} [DecidableEq Node] {factory : Factory} {cluster next : Cluster Node State}
  {index : Nat} {call : Node × LogletOp} {future : Future Fut}
  {progress : Progress (Future Fut) LogletResult} {outline : LogletOutline component}

/-- A poll reaches at most one loglet, and appends what it was asked to append. -/
theorem poll_heap (polled : poll factory component cluster index call future = some (next, progress)) :
    next.heap = cluster.heap ∨ ∃ loglet op current state answer, (op.IsAppend → op = call.2) ∧
      component.poll (cluster.heap loglet) index op current = some (state, answer) ∧
      next = cluster.setHeap loglet state := by
  have awaited : ∀ {loglet : LogletRef} {op : LogletOp} {current : Fut} {pending : Fut → Future Fut}
      {resume : LogletResult → Option (Progress (Future Fut) LogletResult)},
      (op.IsAppend → op = call.2) →
      await component cluster index loglet op current pending resume = some (next, progress) →
      ∃ loglet op current state answer, (op.IsAppend → op = call.2) ∧
        component.poll (cluster.heap loglet) index op current = some (state, answer) ∧
        next = cluster.setHeap loglet state := by
    intro loglet op current pending resume own moved
    obtain ⟨state, answer, ran, same, -⟩ := await_cases moved
    exact ⟨loglet, op, current, state, answer, own, ran, same⟩
  cases future with
  | append loglet startPos current => exact Or.inr (awaited (fun _ => rfl) polled)
  | checkTail | «seal» | reconfigureSeal | read | trim =>
      refine Or.inr (awaited ?_ polled)
      exact fun impossible => impossible.elim
  | activeChain | activeLoglet | reconfigureVersion | reconfigureChain | reconfigureWrite
  | reconfigureCreate | reconfigureInsert | syncRead | syncLoglets | installChain | installVersion
  | readChain | readLoglets | trimChain | trimSegments => exact Or.inl (poll_local polled trivial).1

/-- The call of the index, if there is one, has written for its operation in every loglet. -/
def WritesOwn (ownership : Ownership outline) (index : Nat) (asked : Option (Node × LogletOp))
    (cluster : Cluster Node State) : Prop :=
  ∀ loglet, ownership.Writes index (asked.elim .checkTail Prod.snd) (cluster.heap loglet)

theorem WritesOwn.poll {ownership : Ownership outline}
    (writes : WritesOwn ownership index (some call) cluster)
    (polled : VirtualLog.poll factory component cluster index call future = some (next, progress)) :
    WritesOwn ownership index (some call) next := by
  intro other
  rcases poll_heap polled with same | ⟨loglet, op, current, state, answer, own, ran, rfl⟩
  · rw [same]
    exact writes other
  · by_cases here : other = loglet
    · subst here
      have found : (cluster.setHeap other state).heap other = state := Function.update_self ..
      rw [found]
      exact ownership.poll own ran (writes other)
    · have kept : (cluster.setHeap loglet state).heap other = cluster.heap other :=
        Function.update_of_ne here ..
      rw [kept]
      exact writes other

end VirtualLog

/-! ### Memory loglets -/

namespace TrackedLoglet

def Writes (index : Nat) (op : LogletOp) (tracked : TrackedLoglet) : Prop :=
  ∀ entry, (index, entry) ∈ tracked.written → op = .append entry

theorem writes_new (index : Nat) (op : LogletOp) : new.Writes index op :=
  fun _ impossible => absurd impossible List.not_mem_nil

/-- The index has written nothing in between. -/
def Follows (index : Nat) (tracked next : TrackedLoglet) : Prop :=
  tracked.Grows next ∧ ∀ entry, (index, entry) ∈ next.written → (index, entry) ∈ tracked.written

/-- A call writes the entry that it appends, under its own index. -/
theorem call_written {tracked : TrackedLoglet} {index owner : Nat} {op : LogletOp} {entry : Entry}
    (member : (owner, entry) ∈ (tracked.call index op).1.written) :
    (owner, entry) ∈ tracked.written ∨ owner = index ∧ op = .append entry := by
  unfold TrackedLoglet.call record at member
  dsimp only at member
  split at member
  · rcases List.mem_append.mp member with earlier | last
    · exact Or.inl earlier
    · cases List.mem_singleton.mp last
      exact Or.inr ⟨rfl, rfl⟩
  · exact Or.inl member

end TrackedLoglet

/-- The memory loglet, with what its calls leave alone. -/
def memoryOwnedOutline : LogletOutline memoryComponent :=
  { memoryOutline True with
    Rely := TrackedLoglet.Follows
    poll_sound := by
      intro tracked index op future next progress inv opOk running pollOk polled
      obtain ⟨inv', outcome, rely⟩ := (memoryOutline True).poll_sound inv opOk running pollOk polled
      refine ⟨inv', outcome, fun other different => ⟨rely other different, fun entry member => ?_⟩⟩
      cases polled
      rcases TrackedLoglet.call_written member with earlier | ⟨same, -⟩
      · exact earlier
      · exact absurd same different
    background_sound := by intro _ event; cases event
    fresh_stable := fun _ _ _ _ => trivial
    running_stable := fun _ _ _ _ => trivial
    finished_stable := fun inv inv' follows finished => finished.stable inv inv' follows.1
    rely_refl := fun _ tracked => ⟨.refl tracked, fun _ => id⟩
    rely_trans := fun first second =>
      ⟨first.1.trans second.1, fun entry member => first.2 entry (second.2 entry member)⟩
    finalTail_stable := fun inv inv' follows final =>
      TrackedLoglet.finalTail_stable inv inv' follows.1 final
    placed_stable := fun _ _ follows placed => placed.stable follows.1 }

def memoryOwnership : Ownership memoryOwnedOutline where
  trims := trivial
  Writes := TrackedLoglet.Writes
  silent _ writes entry member := by cases writes entry member
  stable _ _ follows writes entry member := writes entry (follows.2 entry member)
  poll := by
    intro tracked next index op asked future progress own polled writes entry member
    cases polled
    rcases TrackedLoglet.call_written member with earlier | ⟨-, rfl⟩
    · exact writes entry earlier
    · exact (own trivial).symm
  placed _ writes placed := writes _ (List.mem_of_getElem? placed.2)
  pollOk _ _ _ _ := trivial

/-! ### Replicated loglets -/

namespace NativeLoglet

variable {n : Nat}

/-- What the index has sent for appends, it has sent for this operation. -/
def Writes (index : Nat) (op : LogletOp) (state : NativeLoglet n) : Prop :=
  ∀ (receiver : Nat) (message : Message n) (entry : Entry),
    state.messages[receiver]? = some message → message.sender = (index, .append entry) →
    op = .append entry

theorem writes_new (index : Nat) (op : LogletOp) : (new n).Writes index op :=
  fun _ _ _ impossible => by cases impossible

theorem Writes.stable {index : Nat} {op : LogletOp} {state next : NativeLoglet n}
    (grows : Grows index state next) (writes : state.Writes index op) : next.Writes index op := by
  intro receiver message entry found sent
  obtain ⟨earlier, before⟩ := grows.others receiver message found (congrArg Prod.fst sent)
  obtain ⟨receipt, after, -⟩ := grows.messages receiver earlier before
  cases Option.some.inj (found.symm.trans after)
  exact writes receiver earlier entry before sent

theorem Writes.poll {index : Nat} {op asked : LogletOp} {future : Future} {state next : NativeLoglet n}
    {progress : Progress Future LogletResult} (own : asked.IsAppend → asked = op)
    (polled : state.poll index asked future = some (next, progress)) (writes : state.Writes index op) :
    next.Writes index op := by
  intro receiver message entry found sent
  rcases (poll_polls polled).messages with same | ⟨request, -, same⟩
  · exact writes receiver message entry (same ▸ found) sent
  · rw [same] at found
    rcases getElem?_of_concat found with earlier | ⟨-, rfl⟩
    · exact writes receiver message entry earlier sent
    · obtain ⟨-, rfl⟩ := Prod.mk.inj sent
      exact (own trivial).symm

theorem Writes.placed {trims : Prop} {index pos : Nat} {op : LogletOp} {entry : Entry}
    {state : NativeLoglet n} (inv : state.Inv trims) (writes : state.Writes index op)
    (placed : state.Placed index entry pos) : op = .append entry := by
  obtain ⟨receiver, given⟩ := inv.placed_assigned placed
  exact writes receiver _ entry given rfl

theorem Writes.silent {index : Nat} {state : NativeLoglet n} (op : LogletOp)
    (writes : state.Writes index .checkTail) : state.Writes index op := by
  intro receiver message entry found sent
  cases writes receiver message entry found sent

end NativeLoglet

abbrev nativeOwnedOutline (n : Nat) : LogletOutline (nativeComponent n) :=
  nativeOutline n True .any fun impossible => by cases impossible

def nativeOwnership (n : Nat) : Ownership (nativeOwnedOutline n) where
  trims := trivial
  Writes := NativeLoglet.Writes
  silent := NativeLoglet.Writes.silent
  stable _ _ grows writes := writes.stable grows
  poll own polled writes := writes.poll own polled
  placed inv writes placed := writes.placed inv.1 placed
  pollOk state _ _ future := NativeLogs.pollOk_any state future

end Relos
