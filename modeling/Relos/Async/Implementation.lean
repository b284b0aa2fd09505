import Relos.Async.Sequential
import Relos.Async.Wrapping

set_option autoImplicit false

/-! One component in the place of another: its polls are those of the other, while a step in
the background may also be one that the other does not see. -/

namespace Async

variable {Shared Op Fut Res Event State Shared' Op' Fut' Event' State' : Type}

/-! ### Specifications -/

/-- What one specification allows, another one allows and answers in the same way. -/
structure Sequential.Refines (spec : Sequential State Op Res) (rough : Sequential State' Op Res)
    (Related : State → State' → Prop) : Prop where
  allowed : ∀ {state state' op}, Related state state' → rough.Allowed state' op →
    spec.Allowed state op
  answers : ∀ {state state' op result}, Related state state' → rough.Allowed state' op →
    spec.Answers state op result → rough.Answers state' op result
  next : ∀ {state state' op}, Related state state' → rough.Allowed state' op →
    Related (spec.next state op) (rough.next state' op)

/-- The background tasks on their own. -/
def Component.tasks (component : Component Shared Op Fut Res Event) : Machine Shared Event where
  step := component.background

def Quietly (quiet : Event → Prop) (_ : Shared) (event : Event) : Prop := quiet event

/-- Such calls are made, and the background takes such steps. -/
def Permits (Allowed : Op → Prop) (quiet : Event → Prop) (_ : System Shared Op Fut Res) :
    Action Op Event → Prop
  | .start op => Allowed op
  | .poll _ => True
  | .background event => quiet event

instance (Allowed : Op → Prop) (quiet : Event → Prop) (system : System Shared Op Fut Res)
    [∀ op, Decidable (Allowed op)] [∀ event, Decidable (quiet event)] :
    (action : Action Op Event) → Decidable (Permits Allowed quiet system action)
  | .start op => inferInstanceAs (Decidable (Allowed op))
  | .poll _ => isTrue trivial
  | .background event => inferInstanceAs (Decidable (quiet event))

/-- The tasks run beside the calls. -/
theorem Component.run_of_tasks {component : Component Shared Op Fut Res Event} {quiet : Event → Prop}
    {Allowed : Op → Prop} {shared last : Shared} (calls : List (Call Op Fut Res))
    (run : component.tasks.Run (Quietly quiet) shared last) :
    component.machine.Run (Permits Allowed quiet) ⟨shared, calls⟩ ⟨last, calls⟩ := by
  induction run with
  | refl => exact .refl _
  | @tail middle last event _ permitted moved ih =>
      have permitted' : Permits Allowed quiet (⟨middle, calls⟩ : System Shared Op Fut Res)
          (.background event) := permitted
      exact .tail ih permitted' (Component.step_of_background moved)

/-! ### Implementations -/

theorem rel_left {α β : Type} {Rel : α → β → Prop} {left : α} {right : Option β}
    (both : Option.Rel Rel (some left) right) : ∃ found, right = some found ∧ Rel left found := by
  cases both with
  | some holds => exact ⟨_, rfl, holds⟩

theorem rel_right {α β : Type} {Rel : α → β → Prop} {left : Option α} {right : β}
    (both : Option.Rel Rel left (some right)) : ∃ found, left = some found ∧ Rel found right := by
  cases both with
  | some holds => exact ⟨_, rfl, holds⟩

def Progress.map (change : Fut → Fut') : Progress Fut Res → Progress Fut' Res
  | .running future => .running (change future)
  | .finished result => .finished result

/-- Where the other component needs it, `Ready` must hold before a step in the background. -/
structure Implementation (component : Component Shared Op Fut Res Event)
    (other : Component Shared' Op' Fut' Res Event') (same : Op → Op') (quiet : Event → Prop)
    (quiet' : Event' → Prop) (Ready : Shared' → Prop) where
  Stands : Shared → Shared' → Prop
  future : Fut → Fut'
  begin : ∀ op, future (component.begin op) = other.begin (same op)
  poll : ∀ {shared shared'} (index : Nat) (op : Op) (current : Fut), Stands shared shared' →
    Option.Rel (fun (outcome : Shared × Progress Fut Res) (outcome' : Shared' × Progress Fut' Res) =>
      Stands outcome.1 outcome'.1 ∧ outcome'.2 = outcome.2.map future)
      (component.poll shared index op current) (other.poll shared' index (same op) (future current))
  background : ∀ {shared shared' event next}, Stands shared shared' → Ready shared' → quiet event →
    component.background shared event = some next →
    Stands next shared' ∨ ∃ event' next', quiet' event' ∧
      other.background shared' event' = some next' ∧ Stands next next'
  follow : ∀ {shared shared' event' next'}, Stands shared shared' → quiet' event' →
    other.background shared' event' = some next' →
    ∃ next, component.tasks.Run (Quietly quiet) shared next ∧ Stands next next'

namespace Implementation

variable {component : Component Shared Op Fut Res Event}
  {other : Component Shared' Op' Fut' Res Event'} {same : Op → Op'} {quiet : Event → Prop}
  {quiet' : Event' → Prop} {Ready : Shared' → Prop}
  (impl : Implementation component other same quiet quiet' Ready)

def call (call : Call Op Fut Res) : Call Op' Fut' Res := ⟨same call.op, call.progress.map impl.future⟩

/-- The system of the other component, with the same calls. -/
structure Shows (system : System Shared Op Fut Res) (image : System Shared' Op' Fut' Res) : Prop where
  shared : impl.Stands system.shared image.shared
  calls : image.calls = system.calls.map impl.call

variable {impl} {system next : System Shared Op Fut Res} {image next' : System Shared' Op' Fut' Res}
  {Allowed : Op → Prop} {Allowed' : Op' → Prop} {index : Nat} {op : Op} {result : Res}

theorem Shows.fresh {shared : Shared} {shared' : Shared'} (stands : impl.Stands shared shared') :
    impl.Shows (.fresh shared) (.fresh shared') := ⟨stands, rfl⟩

theorem Shows.length (shows : impl.Shows system image) : image.calls.length = system.calls.length := by
  rw [shows.calls, List.length_map]

theorem Shows.called (shows : impl.Shows system image) (index : Nat) :
    image.calls[index]? = (system.calls[index]?).map impl.call := by
  rw [shows.calls, List.getElem?_map]

theorem Shows.returned (shows : impl.Shows system image) (returned : system.Returned index op result) :
    image.Returned index (same op) result := by
  unfold System.Returned at returned ⊢
  rw [shows.called, returned]
  rfl

theorem Shows.pending {future : Fut} (shows : impl.Shows system image)
    (pending : system.Pending index op future) : image.Pending index (same op) (impl.future future) := by
  unfold System.Pending at pending ⊢
  rw [shows.called, pending]
  rfl

/-- A call of the other system is one of this system. -/
theorem Shows.of_called {call' : Call Op' Fut' Res} (shows : impl.Shows system image)
    (found : image.calls[index]? = some call') :
    ∃ call, system.calls[index]? = some call ∧ impl.call call = call' := by
  rw [shows.called] at found
  exact Option.map_eq_some_iff.mp found

theorem Shows.start (shows : impl.Shows system image) (op : Op) :
    impl.Shows { system with calls := system.calls ++ [⟨op, .running (component.begin op)⟩] }
      { image with calls := image.calls ++ [⟨same op, .running (other.begin (same op))⟩] } where
  shared := shows.shared
  calls := by
    rw [List.map_append, shows.calls, ← impl.begin op]
    rfl

theorem Shows.set {shared : Shared} {shared' : Shared'} {progress : Progress Fut Res}
    (shows : impl.Shows system image) (stands : impl.Stands shared shared') :
    impl.Shows ⟨shared, system.calls.set index ⟨op, progress⟩⟩
      ⟨shared', image.calls.set index ⟨same op, progress.map impl.future⟩⟩ where
  shared := stands
  calls := by
    rw [List.map_set, shows.calls]
    rfl

/-- The other system takes a step too, or does not see this one. -/
theorem Shows.step {action : Action Op Event} (shows : impl.Shows system image)
    (ready : Ready image.shared) (allowed : ∀ op, Allowed op → Allowed' (same op))
    (permitted : Permits Allowed quiet system action)
    (moved : component.machine.step system action = some next) :
    ∃ next', (next' = image ∨ ∃ action', Permits Allowed' quiet' image action' ∧
        other.machine.step image action' = some next') ∧ impl.Shows next next' := by
  cases action with
  | start op =>
      rw [Component.step_start moved]
      exact ⟨_, Or.inr ⟨.start (same op), allowed op permitted, rfl⟩, shows.start op⟩
  | poll index =>
      obtain ⟨op, future, shared, progress, pending, polled, rfl⟩ := Component.step_poll moved
      have polls := impl.poll index op future shows.shared
      rw [polled] at polls
      obtain ⟨⟨shared', progress'⟩, polled', stands, equal⟩ := rel_left polls
      cases equal
      exact ⟨_, Or.inr ⟨.poll index, trivial, Component.step_of_poll (shows.pending pending) polled'⟩,
        shows.set stands⟩
  | background event =>
      obtain ⟨shared, ran, rfl⟩ := Component.step_background moved
      rcases impl.background shows.shared ready permitted ran with
        stands | ⟨event', shared', permitted', ran', stands⟩
      · exact ⟨image, Or.inl rfl, stands, shows.calls⟩
      · exact ⟨_, Or.inr ⟨.background event', permitted', Component.step_of_background ran'⟩, stands,
          shows.calls⟩

/-- Every run is one of the other system, as long as an invariant of that system and the
number of calls keep it ready. -/
theorem Shows.run (Inv : System Shared' Op' Fut' Res → Prop) {bound : Nat}
    (kept : ∀ image action next, Inv image → Permits Allowed' quiet' image action →
      other.machine.step image action = some next → Inv next)
    (ready : ∀ image, Inv image → image.calls.length ≤ bound → Ready image.shared)
    (allowed : ∀ op, Allowed op → Allowed' (same op)) (shows : impl.Shows system image)
    (inv : Inv image) (run : component.machine.Run (Permits Allowed quiet) system next)
    (few : next.calls.length ≤ bound) :
    ∃ next', other.machine.Run (Permits Allowed' quiet') image next' ∧ impl.Shows next next' ∧
      Inv next' := by
  induction run with
  | refl => exact ⟨image, .refl _, shows, inv⟩
  | @tail middle last action before permitted moved ih =>
      have grows : middle.calls.length ≤ last.calls.length := by
        have longer := (Component.ops_run (Machine.Run.single permitted moved)).length_le
        unfold System.ops at longer
        rw [List.length_map, List.length_map] at longer
        exact longer
      obtain ⟨middle', run', shows', inv'⟩ := ih (Nat.le_trans grows few)
      have prepared : Ready middle'.shared :=
        ready middle' inv' (shows'.length ▸ Nat.le_trans grows few)
      obtain ⟨last', moves, shown⟩ := shows'.step prepared allowed permitted moved
      rcases moves with rfl | ⟨action', permitted', moved'⟩
      · exact ⟨_, run', shown, inv'⟩
      · exact ⟨last', .tail run' permitted' moved', shown, kept _ _ _ inv' permitted' moved'⟩

/-- A step of the other system can be followed. -/
theorem Shows.follow {action' : Action Op' Event'} (shows : impl.Shows system image)
    (onto : ∀ op', Allowed' op' → ∃ op, same op = op' ∧ Allowed op)
    (permitted : Permits Allowed' quiet' image action')
    (moved : other.machine.step image action' = some next') :
    ∃ next, component.machine.Run (Permits Allowed quiet) system next ∧ impl.Shows next next' := by
  cases action' with
  | start op' =>
      obtain ⟨op, rfl, allowed⟩ := onto op' permitted
      rw [Component.step_start moved]
      have permitted' : Permits Allowed quiet system (.start op : Action Op Event) := allowed
      exact ⟨_, .single permitted' rfl, shows.start op⟩
  | poll index =>
      obtain ⟨op', future', shared', progress', pending, polled, rfl⟩ := Component.step_poll moved
      obtain ⟨⟨op, progress⟩, found, equal⟩ := shows.of_called pending
      cases progress with
      | finished result => cases congrArg Call.progress equal
      | running future =>
          cases equal
          have polls := impl.poll index op future shows.shared
          rw [polled] at polls
          obtain ⟨⟨shared, progress⟩, polled', stands, equal⟩ := rel_right polls
          cases equal
          have permitted' : Permits Allowed quiet system (.poll index : Action Op Event) := trivial
          exact ⟨_, .single permitted' (Component.step_of_poll found polled'), shows.set stands⟩
  | background event' =>
      obtain ⟨shared', ran, rfl⟩ := Component.step_background moved
      obtain ⟨shared, run, stands⟩ := impl.follow shows.shared permitted ran
      exact ⟨_, Component.run_of_tasks system.calls run, stands, shows.calls⟩

end Implementation

/-! ### Around a component -/

def Wrapped.map (change : Fut → Fut') : Wrapped Op Fut → Wrapped Op Fut'
  | .enter => .enter
  | .inside op future => .inside op (change future)

/-- What is put around a component can be put around its implementation. -/
def Implementation.around {Call Reply : Type} {component : Component Shared Op Fut Res Event}
    {other : Component Shared' Op Fut' Res Event'} {quiet : Event → Prop} {quiet' : Event' → Prop}
    {Ready : Shared' → Prop} (impl : Implementation component other id quiet quiet' Ready)
    (wrapper : Wrapper Call Reply Op Res) :
    Implementation (wrapper.around component) (wrapper.around other) id quiet quiet' Ready where
  Stands := impl.Stands
  future := Wrapped.map impl.future
  begin _ := rfl
  poll := by
    intro shared shared' index call current stands
    unfold Wrapper.around
    cases current with
    | enter =>
        dsimp only [Wrapped.map, id]
        cases prepared : wrapper.prepare call with
        | error reply => exact .some ⟨stands, rfl⟩
        | ok op =>
            refine .some ⟨stands, ?_⟩
            dsimp only [Progress.map, Wrapped.map]
            rw [impl.begin op]
            rfl
    | inside op future =>
        dsimp only [Wrapped.map, id]
        have polls := impl.poll index op future stands
        dsimp only [id] at polls
        generalize component.poll shared index op future = outcome at polls ⊢
        generalize other.poll shared' index op (impl.future future) = outcome' at polls ⊢
        cases polls with
        | none => exact .none
        | @some outcome outcome' both =>
            obtain ⟨next, progress⟩ := outcome
            obtain ⟨next', progress'⟩ := outcome'
            obtain ⟨stands', equal⟩ := both
            cases equal
            unfold Wrapper.resume
            cases progress with
            | running later => exact .some ⟨stands', rfl⟩
            | finished result =>
                dsimp only [Option.bind_some, Progress.map]
                cases wrapper.answer call result with
                | none => exact .none
                | some reply => exact .some ⟨stands', rfl⟩
  background := impl.background
  follow := impl.follow

end Async
