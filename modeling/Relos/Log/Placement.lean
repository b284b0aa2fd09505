import Relos.Log.Durability
import Relos.Log.NativeSafety
import Relos.Log.SoloAppends

set_option autoImplicit false

/-! Where the entry of an append ends up when a sealed loglet makes the virtual
log retry it in the next segment. -/

namespace Relos

open Async Epochs

namespace VirtualLog

variable {Node State Fut Event : Type} [DecidableEq Node] {component : LogletComponent State Fut Event}
  {once : OnceOutline component} {factory : Factory} {initial : String}
  {system : System (Cluster Node State) (Node × LogletOp) (Future Fut) LogletResult}

omit [DecidableEq Node] in
theorem unused_unplaced {cluster : Cluster Node State} {index : Nat}
    (inv : cluster.Inv once.toLogletOutline factory initial)
    (unused : Unused once.toLogletOutline cluster index) {loglet : LogletRef} {entry : Entry}
    {localPos : Nat} : ¬ once.Placed (cluster.heap loglet) index entry localPos :=
  once.fresh_unplaced (inv.heap loglet) (unused loglet)

/-- A placed entry belongs to an append that is still appending to this loglet, or
that returned this very position. -/
theorem placed_call (valid : (virtualLogOutline Node once.toLogletOutline factory initial).Valid system)
    {loglet : LogletRef} {owner localPos : Nat} {entry : Entry}
    (placed : once.Placed (system.shared.heap loglet) owner entry localPos) :
    ∃ node, (∃ startPos future,
        system.Pending owner (node, .append entry) (.append loglet startPos future)) ∨
      ∃ epoch, system.shared.Backs initial node epoch loglet ∧
        system.Returned owner (node, .append entry)
          (.ok (.pos (localToGlobal (startAt system.shared.ends epoch) localPos))) := by
  have inv := valid.inv
  have elsewhere : ¬ Unused once.toLogletOutline system.shared owner := fun unused =>
    unused_unplaced inv unused placed
  cases called : system.calls[owner]? with
  | none => exact absurd (valid.fresh owner (List.getElem?_eq_none_iff.mp called)) elsewhere
  | some call =>
      obtain ⟨⟨node, op⟩, progress⟩ := call
      refine ⟨node, ?_⟩
      cases progress with
      | running future =>
          obtain ⟨knows, apart⟩ := valid.running called
          cases future with
          | append target startPos fut =>
              by_cases same : loglet = target
              · subst same
                have appends : op = .append entry :=
                  once.running_placed (inv.heap loglet) knows.2.2 placed
                subst appends
                exact Or.inl ⟨startPos, fut, called⟩
              · exact absurd placed (once.fresh_unplaced (inv.heap loglet) (apart loglet same))
          | activeChain | activeLoglet | checkTail | «seal» | reconfigureSeal | reconfigureVersion
          | reconfigureChain | reconfigureWrite | reconfigureCreate | reconfigureInsert | syncRead
          | syncLoglets | installChain | installVersion | readChain | readLoglets | read | trimChain
          | trimSegments | trim => exact absurd apart elsewhere
      | finished result =>
          obtain ⟨yields, left⟩ := valid.finished called
          by_cases failed : op.IsAppend → ∃ error, result = .error error
          · exact absurd (left failed) elsewhere
          · cases op with
            | checkTail | read | trim | «seal» =>
                exact absurd (fun impossible => impossible.elim) failed
            | append entry' =>
                cases result with
                | error error => exact absurd (fun _ => ⟨error, rfl⟩) failed
                | ok value =>
                    obtain ⟨_, rfl, epoch, target, localPos', backs, finished, rfl, apart⟩ := yields
                    by_cases same : loglet = target
                    · subst same
                      obtain ⟨appends, result⟩ :=
                        once.finished_placed (inv.heap loglet) finished placed
                      cases appends
                      cases result
                      exact Or.inr ⟨epoch, backs, called⟩
                    · exact absurd placed
                        (once.fresh_unplaced (inv.heap loglet) (apart loglet same))

end VirtualLog

/-! ### Distinct entries -/

/-- Different calls append different entries. -/
def DistinctEntries {Shared Node Fut : Type}
    (system : System Shared (Node × LogletOp) Fut LogletResult) : Prop :=
  ∀ (left right : Nat) (call call' : Call (Node × LogletOp) Fut LogletResult) (entry : Entry),
    system.calls[left]? = some call → system.calls[right]? = some call' →
    call.op.2 = .append entry → call'.op.2 = .append entry → left = right

/-- The operation appends no entry that an earlier call appended. -/
def NewEntry {Shared Node Fut : Type} (system : System Shared (Node × LogletOp) Fut LogletResult) :
    LogletOp → Prop
  | .append entry => ∀ call, call ∈ system.calls → call.op.2 ≠ .append entry
  | _ => True

instance {Shared Node Fut : Type} (system : System Shared (Node × LogletOp) Fut LogletResult) :
    (op : LogletOp) → Decidable (NewEntry system op)
  | .append entry =>
      inferInstanceAs (Decidable (∀ call, call ∈ system.calls → call.op.2 ≠ .append entry))
  | .checkTail | .read _ | .trim _ | .seal => isTrue trivial

theorem DistinctEntries.fresh {Shared Node Fut : Type} (shared : Shared) :
    DistinctEntries (System.fresh shared : System Shared (Node × LogletOp) Fut LogletResult) := by
  intro left right call call' entry found
  cases found

theorem DistinctEntries.step {Shared Node Fut Event : Type}
    {component : Component Shared (Node × LogletOp) Fut LogletResult Event}
    {system next : System Shared (Node × LogletOp) Fut LogletResult}
    {action : Action (Node × LogletOp) Event} (distinct : DistinctEntries system)
    (new : ∀ call, action = .start call → NewEntry system call.2)
    (moved : component.machine.step system action = some next) : DistinctEntries next := by
  cases action with
  | start op =>
      have unseen := new op rfl
      rw [Component.step_start moved]
      intro left right call call' entry found found' appends appends'
      rcases getElem?_of_concat found with before | ⟨rfl, rfl⟩
      · rcases getElem?_of_concat found' with before' | ⟨rfl, rfl⟩
        · exact distinct left right call call' entry before before' appends appends'
        · unfold NewEntry at unseen
          simp only at appends'
          rw [appends'] at unseen
          exact absurd appends (unseen call (List.mem_of_getElem? before))
      · rcases getElem?_of_concat found' with before' | ⟨rfl, rfl⟩
        · unfold NewEntry at unseen
          simp only at appends
          rw [appends] at unseen
          exact absurd appends' (unseen call' (List.mem_of_getElem? before'))
        · rfl
  | poll index =>
      obtain ⟨op, future, shared, progress, pending, polled, rfl⟩ := Component.step_poll moved
      have earlier : ∀ {other : Nat} {call : Call (Node × LogletOp) Fut LogletResult},
          (system.calls.set index ⟨op, progress⟩)[other]? = some call →
          ∃ before : Call (Node × LogletOp) Fut LogletResult,
            system.calls[other]? = some before ∧ before.op = call.op := by
        intro other call found
        rcases getElem?_poll found with ⟨rfl, rfl⟩ | ⟨_, before⟩
        · exact ⟨_, pending, rfl⟩
        · exact ⟨call, before, rfl⟩
      intro left right call call' entry found found' appends appends'
      obtain ⟨before, present, same⟩ := earlier found
      obtain ⟨before', present', same'⟩ := earlier found'
      exact distinct left right before before' entry present present' (same ▸ appends)
        (same' ▸ appends')
  | background event =>
      obtain ⟨_, _, rfl⟩ := Component.step_background moved
      exact distinct

end Relos
