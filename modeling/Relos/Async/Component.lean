import Relos.Async.Machine

set_option autoImplicit false

/-! Asynchronous components. A component offers operations whose futures are
polled against a shared state, one scheduling point at a time, and may have
background tasks of its own. The system of a component interleaves any number
of calls with the background tasks in any order. -/

namespace Async

inductive Progress (Fut Res : Type) where
  | running (future : Fut)
  | finished (result : Res)
deriving DecidableEq

structure Call (Op Fut Res : Type) where
  op : Op
  progress : Progress Fut Res
deriving DecidableEq

/-- `poll` receives the index of the polled call, which names the receiving end
of the channels that the call opens. A poll that cannot advance is `none`. -/
structure Component (Shared Op Fut Res Event : Type) where
  begin : Op → Fut
  poll : Shared → Nat → Op → Fut → Option (Shared × Progress Fut Res)
  background : Shared → Event → Option Shared

structure System (Shared Op Fut Res : Type) where
  shared : Shared
  calls : List (Call Op Fut Res)

inductive Action (Op Event : Type) where
  | start (op : Op)
  | poll (index : Nat)
  | background (event : Event)

variable {Shared Op Fut Res Event : Type}

def System.fresh (shared : Shared) : System Shared Op Fut Res := ⟨shared, []⟩

/-- The call finished with this result. -/
def System.Returned (system : System Shared Op Fut Res) (index : Nat) (op : Op)
    (result : Res) : Prop :=
  system.calls[index]? = some ⟨op, .finished result⟩

/-- The call has been started and has not returned yet. -/
def System.Pending (system : System Shared Op Fut Res) (index : Nat) (op : Op)
    (future : Fut) : Prop :=
  system.calls[index]? = some ⟨op, .running future⟩

/-- Every started call of this kind has returned. -/
def System.Quiescent (system : System Shared Op Fut Res) (which : Op → Prop) : Prop :=
  ∀ index op future, system.Pending index op future → ¬ which op

def Call.isReturned (call : Call Op Fut Res) : Bool :=
  match call.progress with
  | .running _ => false
  | .finished _ => true

theorem System.quiescent_of_all {system : System Shared Op Fut Res} {which : Op → Prop}
    (returned : system.calls.all Call.isReturned = true) : system.Quiescent which := by
  intro index op future pending
  have waiting := List.all_eq_true.mp returned _ (List.mem_of_getElem? pending)
  cases waiting

/-- The future of the call, if it is running, meets a condition. -/
def Call.Meets (condition : Op → Fut → Prop) : Option (Call Op Fut Res) → Prop
  | some ⟨op, .running future⟩ => condition op future
  | some ⟨_, .finished _⟩ => True
  | none => True

instance (condition : Op → Fut → Prop) [∀ op future, Decidable (condition op future)] :
    (call : Option (Call Op Fut Res)) → Decidable (Call.Meets condition call)
  | some ⟨op, .running future⟩ => inferInstanceAs (Decidable (condition op future))
  | some ⟨_, .finished _⟩ => isTrue trivial
  | none => isTrue trivial

namespace Component

def machine (component : Component Shared Op Fut Res Event) :
    Machine (System Shared Op Fut Res) (Action Op Event) where
  step
    | system, .start op =>
        some { system with calls := system.calls ++ [⟨op, .running (component.begin op)⟩] }
    | system, .poll index =>
        match system.calls[index]? with
        | some ⟨op, .running future⟩ =>
            (component.poll system.shared index op future).map fun outcome =>
              { shared := outcome.1, calls := system.calls.set index ⟨op, outcome.2⟩ }
        | _ => none
    | system, .background event =>
        (component.background system.shared event).map fun shared => { system with shared := shared }

variable {component : Component Shared Op Fut Res Event}

theorem step_start {system next : System Shared Op Fut Res} {op : Op}
    (moved : component.machine.step system (.start op) = some next) :
    next = { system with calls := system.calls ++ [⟨op, .running (component.begin op)⟩] } :=
  (Option.some.inj moved).symm

/-- A poll step advances one running call and touches no other. -/
theorem step_poll {system next : System Shared Op Fut Res} {index : Nat}
    (moved : component.machine.step system (.poll index) = some next) :
    ∃ op future shared progress, system.Pending index op future ∧
      component.poll system.shared index op future = some (shared, progress) ∧
      next = { shared := shared, calls := system.calls.set index ⟨op, progress⟩ } := by
  simp only [machine] at moved
  split at moved
  · rename_i op future pending
    obtain ⟨⟨shared, progress⟩, polled, same⟩ := Option.map_eq_some_iff.mp moved
    exact ⟨op, future, shared, progress, pending, polled, same.symm⟩
  · cases moved

theorem step_of_poll {system : System Shared Op Fut Res} {index : Nat} {op : Op} {future : Fut}
    {shared : Shared} {progress : Progress Fut Res} (pending : system.Pending index op future)
    (polled : component.poll system.shared index op future = some (shared, progress)) :
    component.machine.step system (.poll index) =
      some { shared := shared, calls := system.calls.set index ⟨op, progress⟩ } := by
  unfold System.Pending at pending
  unfold machine
  dsimp only
  rw [pending]
  dsimp only
  rw [polled, Option.map_some]

theorem step_of_background {system : System Shared Op Fut Res} {event : Event} {shared : Shared}
    (ran : component.background system.shared event = some shared) :
    component.machine.step system (.background event) = some { system with shared := shared } := by
  unfold machine
  dsimp only
  rw [ran, Option.map_some]

theorem step_background {system next : System Shared Op Fut Res} {event : Event}
    (moved : component.machine.step system (.background event) = some next) :
    ∃ shared, component.background system.shared event = some shared ∧
      next = { system with shared := shared } := by
  obtain ⟨shared, ran, same⟩ := Option.map_eq_some_iff.mp moved
  exact ⟨shared, ran, same.symm⟩

end Component

/-! ### Lists that grow -/

/-- An element of a list that grew by one is an old one or the new one. -/
theorem getElem?_of_concat {α : Type} {list : List α} {added found : α} {index : Nat}
    (present : (list ++ [added])[index]? = some found) :
    list[index]? = some found ∨ (index = list.length ∧ found = added) := by
  rcases Nat.lt_trichotomy index list.length with before | same | after
  · rw [List.getElem?_append_left before] at present
    exact Or.inl present
  · subst same
    rw [List.getElem?_append_right (Nat.le_refl _), Nat.sub_self] at present
    exact Or.inr ⟨rfl, (Option.some.inj present).symm⟩
  · rw [List.getElem?_eq_none (by rw [List.length_append, List.length_singleton]; omega)] at present
    cases present

theorem prefix_of_same {α : Type} {list longer : List α} (same : longer = list) :
    list <+: longer := ⟨[], (List.append_nil list).trans same.symm⟩

/-- What all of them have, after one was replaced by another that has it. -/
theorem forall_mem_set {α : Type} {Good : α → Prop} {list : List α}
    (all : ∀ found ∈ list, Good found) (index : Nat) {new : α} (good : Good new) :
    ∀ found ∈ list.set index new, Good found := by
  intro found member
  rcases List.mem_or_eq_of_mem_set member with before | rfl
  · exact all found before
  · exact good

theorem take_of_longer {α : Type} {list longer : List α} (more : list <+: longer) {count : Nat}
    (inside : count ≤ list.length) : longer.take count = list.take count := by
  obtain ⟨rest, rfl⟩ := more
  exact List.take_append_of_le_length inside

theorem getElem?_of_longer {α : Type} {list longer : List α} (more : list <+: longer) {slot : Nat}
    {found : α} (present : list[slot]? = some found) : longer[slot]? = some found := by
  obtain ⟨rest, rfl⟩ := more
  rw [List.getElem?_append_left (List.getElem?_eq_some_iff.mp present).1]
  exact present

/-- Which calls a polled call leaves in place. -/
theorem getElem?_poll {calls : List (Call Op Fut Res)} {polled call : Call Op Fut Res}
    {index other : Nat} (found : (calls.set index polled)[other]? = some call) :
    (other = index ∧ call = polled) ∨ (other ≠ index ∧ calls[other]? = some call) := by
  by_cases same : other = index
  · subst same
    rw [List.getElem?_set_self' ] at found
    obtain ⟨_, _, equal⟩ := Option.map_eq_some_iff.mp found
    exact Or.inl ⟨rfl, equal.symm⟩
  · rw [List.getElem?_set_ne (fun equal => same equal.symm)] at found
    exact Or.inr ⟨same, found⟩

/-- What is asked of the calls that a run starts holds of all of them. -/
theorem Component.ops_of_run {component : Component Shared Op Fut Res Event}
    {permit : System Shared Op Fut Res → Action Op Event → Prop} {Allowed : Op → Prop}
    (asked : ∀ system op, permit system (.start op) → Allowed op)
    {first last : System Shared Op Fut Res}
    (initial : ∀ (index : Nat) call, first.calls[index]? = some call → Allowed call.op)
    (run : component.machine.Run permit first last) :
    ∀ (index : Nat) call, last.calls[index]? = some call → Allowed call.op := by
  refine run.invariant (fun system => ∀ (index : Nat) call, system.calls[index]? = some call →
    Allowed call.op) initial ?_
  intro system action next kept permitted moved index call found
  cases action with
  | start op =>
      rw [step_start moved] at found
      rcases getElem?_of_concat found with earlier | ⟨-, rfl⟩
      · exact kept index call earlier
      · exact asked system op permitted
  | poll polled =>
      obtain ⟨op, future, shared, progress, pending, -, rfl⟩ := step_poll moved
      rcases getElem?_poll found with ⟨-, rfl⟩ | ⟨-, earlier⟩
      · exact kept polled ⟨op, .running future⟩ pending
      · exact kept index call earlier
  | background event =>
      obtain ⟨shared, -, rfl⟩ := step_background moved
      exact kept index call found

/-- A call that has returned in the meantime did so at one of its polls. -/
theorem Component.finished_of_run {component : Component Shared Op Fut Res Event}
    {permit : System Shared Op Fut Res → Action Op Event → Prop} {first last : System Shared Op Fut Res}
    {index : Nat} {op : Op} {result : Res} (run : component.machine.Run permit first last)
    (running : ∀ op result, ¬ first.Returned index op result) (returned : last.Returned index op result) :
    ∃ before future shared, component.machine.Run permit first before ∧
      before.Pending index op future ∧ permit before (.poll index) ∧
      component.poll before.shared index op future = some (shared, .finished result) ∧
      component.machine.Run permit ⟨shared, before.calls.set index ⟨op, .finished result⟩⟩ last := by
  induction run with
  | refl => exact absurd returned (running op result)
  | @tail middle last action earlier permitted moved ih =>
      by_cases already : middle.Returned index op result
      · obtain ⟨before, future, shared, reached, pending, allowed, polled, rest⟩ := ih already
        exact ⟨before, future, shared, reached, pending, allowed, polled, .tail rest permitted moved⟩
      · cases action with
        | start added =>
            rw [step_start moved] at returned
            rcases getElem?_of_concat returned with before | ⟨-, impossible⟩
            · exact absurd before already
            · cases impossible
        | poll polledIndex =>
            obtain ⟨op', future, shared, progress, pending, polled, rfl⟩ := step_poll moved
            rcases getElem?_poll returned with ⟨rfl, same⟩ | ⟨-, before⟩
            · cases same
              exact ⟨middle, future, shared, earlier, pending, permitted, polled, .refl _⟩
            · exact absurd before already
        | background event =>
            obtain ⟨shared, -, rfl⟩ := step_background moved
            exact absurd returned already

end Async
