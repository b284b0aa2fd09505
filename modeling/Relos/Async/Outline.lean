import Relos.Async.Component

set_option autoImplicit false

/-! Rely-guarantee outlines for components. An outline states what holds of the
shared state, of each suspended future and of each returned result, and what a
call may rely on while others move. One poll is checked against the guarantee
of every other call; the rule below carries the outline through every
interleaving. -/

namespace Async

variable {Shared Op Fut Res Event : Type}

def Progress.Holds (running : Fut → Prop) (finished : Res → Prop) : Progress Fut Res → Prop
  | .running future => running future
  | .finished result => finished result

theorem Progress.Holds.imp {running running' : Fut → Prop} {finished finished' : Res → Prop}
    {progress : Progress Fut Res} (holds : progress.Holds running finished)
    (onRunning : ∀ future, running future → running' future)
    (onFinished : ∀ result, finished result → finished' result) :
    progress.Holds running' finished' := by
  cases progress with
  | running future => exact onRunning future holds
  | finished result => exact onFinished result holds

/-- `Fresh` is what the shared state says of an index before its call starts. -/
structure Outline (component : Component Shared Op Fut Res Event) where
  OpOk : Op → Prop
  PollOk : Shared → Nat → Op → Fut → Prop
  EventOk : Shared → Event → Prop
  Inv : Shared → Prop
  Fresh : Shared → Nat → Prop
  Running : Shared → Nat → Op → Fut → Prop
  Finished : Shared → Nat → Op → Res → Prop
  Rely : Nat → Shared → Shared → Prop
  begin_running : ∀ {shared index op}, Inv shared → OpOk op → Fresh shared index →
    Running shared index op (component.begin op)
  poll_sound : ∀ {shared index op future next progress}, Inv shared → OpOk op →
    Running shared index op future → PollOk shared index op future →
    component.poll shared index op future = some (next, progress) →
    Inv next ∧ progress.Holds (Running next index op) (Finished next index op) ∧
      ∀ other, other ≠ index → Rely other shared next
  background_sound : ∀ {shared event next}, Inv shared → EventOk shared event →
    component.background shared event = some next →
    Inv next ∧ ∀ index, Rely index shared next
  fresh_stable : ∀ {shared next index}, Inv shared → Inv next → Rely index shared next →
    Fresh shared index → Fresh next index
  running_stable : ∀ {shared next index op future}, Inv shared → Inv next →
    Rely index shared next → Running shared index op future → Running next index op future
  finished_stable : ∀ {shared next index op result}, Inv shared → Inv next →
    Rely index shared next → Finished shared index op result → Finished next index op result

namespace Outline

variable {component : Component Shared Op Fut Res Event} (outline : Outline component)

/-- The steps that the outline accounts for. -/
def permit (system : System Shared Op Fut Res) : Action Op Event → Prop
  | .start op => outline.OpOk op
  | .poll index => ∀ op future, system.Pending index op future →
      outline.PollOk system.shared index op future
  | .background event => outline.EventOk system.shared event

def Outcome (shared : Shared) (index : Nat) (op : Op) (progress : Progress Fut Res) : Prop :=
  progress.Holds (outline.Running shared index op) (outline.Finished shared index op)

structure Valid (system : System Shared Op Fut Res) : Prop where
  inv : outline.Inv system.shared
  fresh : ∀ index, system.calls.length ≤ index → outline.Fresh system.shared index
  calls : ∀ index call, system.calls[index]? = some call →
    outline.OpOk call.op ∧ outline.Outcome system.shared index call.op call.progress

variable {outline}

theorem Valid.init {shared : Shared} (inv : outline.Inv shared)
    (fresh : ∀ index, outline.Fresh shared index) : outline.Valid (System.fresh shared) :=
  ⟨inv, fun index _ => fresh index, fun _ _ found => by cases found⟩

theorem Valid.running {system : System Shared Op Fut Res} (valid : outline.Valid system)
    {index : Nat} {op : Op} {future : Fut} (pending : system.Pending index op future) :
    outline.Running system.shared index op future :=
  (valid.calls index _ pending).2

theorem Valid.finished {system : System Shared Op Fut Res} (valid : outline.Valid system)
    {index : Nat} {op : Op} {result : Res} (returned : system.Returned index op result) :
    outline.Finished system.shared index op result :=
  (valid.calls index _ returned).2

theorem Valid.opOk {system : System Shared Op Fut Res} (valid : outline.Valid system)
    {index : Nat} {op : Op} {future : Fut} (pending : system.Pending index op future) :
    outline.OpOk op :=
  (valid.calls index _ pending).1

theorem outcome_stable {shared next : Shared} {index : Nat} {op : Op}
    {progress : Progress Fut Res} (inv : outline.Inv shared) (inv' : outline.Inv next)
    (rely : outline.Rely index shared next) (holds : outline.Outcome shared index op progress) :
    outline.Outcome next index op progress :=
  holds.imp (fun _ => outline.running_stable inv inv' rely)
    (fun _ => outline.finished_stable inv inv' rely)

theorem Valid.step {system next : System Shared Op Fut Res} {action : Action Op Event}
    (valid : outline.Valid system) (permitted : outline.permit system action)
    (moved : component.machine.step system action = some next) : outline.Valid next := by
  cases action with
  | start op =>
      rw [Component.step_start moved]
      refine ⟨valid.inv, fun index later => ?_, fun index call found => ?_⟩
      · rw [List.length_append, List.length_singleton] at later
        exact valid.fresh index (Nat.le_of_succ_le later)
      · rcases getElem?_of_concat found with earlier | ⟨rfl, rfl⟩
        · exact valid.calls index call earlier
        · exact ⟨permitted, outline.begin_running valid.inv permitted
            (valid.fresh _ (Nat.le_refl _))⟩
  | poll index =>
      obtain ⟨op, future, shared, progress, pending, polled, rfl⟩ := Component.step_poll moved
      obtain ⟨inv, outcome, rely⟩ := outline.poll_sound valid.inv (valid.opOk pending)
        (valid.running pending) (permitted op future pending) polled
      refine ⟨inv, fun other later => ?_, fun other call found => ?_⟩
      · have inside := (List.getElem?_eq_some_iff.mp pending).1
        rw [List.length_set] at later
        exact outline.fresh_stable valid.inv inv (rely other (by omega)) (valid.fresh other later)
      · rcases getElem?_poll found with ⟨rfl, rfl⟩ | ⟨different, earlier⟩
        · exact ⟨valid.opOk pending, outcome⟩
        · obtain ⟨opOk, holds⟩ := valid.calls other call earlier
          exact ⟨opOk, outcome_stable valid.inv inv (rely other different) holds⟩
  | background event =>
      obtain ⟨shared, ran, rfl⟩ := Component.step_background moved
      obtain ⟨inv, rely⟩ := outline.background_sound valid.inv permitted ran
      refine ⟨inv, fun index later => ?_, fun index call found => ?_⟩
      · exact outline.fresh_stable valid.inv inv (rely index) (valid.fresh index later)
      · obtain ⟨opOk, holds⟩ := valid.calls index call found
        exact ⟨opOk, outcome_stable valid.inv inv (rely index) holds⟩

/-- A fact about each index and the call it has, if any, that its own polls and the steps of
others keep. -/
theorem Valid.facts {system next : System Shared Op Fut Res} {action : Action Op Event}
    (valid : outline.Valid system) (Fact : Nat → Option Op → Shared → Prop)
    (stable : ∀ {shared next index op}, outline.Inv shared → outline.Inv next →
      outline.Rely index shared next → Fact index op shared → Fact index op next)
    (starts : ∀ {shared index} op, Fact index none shared → Fact index (some op) shared)
    (polls : ∀ {shared index op future next progress},
      component.poll shared index op future = some (next, progress) →
      Fact index (some op) shared → Fact index (some op) next)
    (permitted : outline.permit system action)
    (moved : component.machine.step system action = some next)
    (facts : ∀ index, Fact index (system.calls[index]?.map Call.op) system.shared) (index : Nat) :
    Fact index (next.calls[index]?.map Call.op) next.shared := by
  have before := facts index
  cases action with
  | start op =>
      rw [Component.step_start moved]
      dsimp only
      rcases Nat.lt_trichotomy index system.calls.length with earlier | same | later
      · rw [List.getElem?_append_left earlier]
        exact before
      · subst same
        rw [List.getElem?_eq_none (Nat.le_refl _)] at before
        rw [List.getElem?_concat_length]
        exact starts op before
      · rw [List.getElem?_eq_none (Nat.le_of_lt later)] at before
        rw [List.getElem?_eq_none (by rw [List.length_append, List.length_singleton]; omega)]
        exact before
  | poll polledIndex =>
      obtain ⟨op, future, shared, progress, pending, polled, rfl⟩ := Component.step_poll moved
      obtain ⟨inv, -, rely⟩ := outline.poll_sound valid.inv (valid.opOk pending)
        (valid.running pending) (permitted op future pending) polled
      dsimp only
      by_cases same : index = polledIndex
      · subst same
        rw [pending] at before
        rw [List.getElem?_set_self (List.getElem?_eq_some_iff.mp pending).1]
        exact polls polled before
      · rw [List.getElem?_set_ne (fun equal => same equal.symm)]
        exact stable valid.inv inv (rely index same) before
  | background event =>
      obtain ⟨shared, ran, rfl⟩ := Component.step_background moved
      obtain ⟨inv, rely⟩ := outline.background_sound valid.inv permitted ran
      exact stable valid.inv inv (rely index) before

/-- An outline holds throughout every interleaving of permitted steps. -/
theorem Valid.run {system next : System Shared Op Fut Res} (valid : outline.Valid system)
    (run : component.machine.Run outline.permit system next) : outline.Valid next :=
  run.invariant outline.Valid valid fun _ _ _ kept permitted moved => kept.step permitted moved

/-- A returned call stays in the history with its result. -/
theorem returned_run {permit : System Shared Op Fut Res → Action Op Event → Prop}
    {system next : System Shared Op Fut Res} {index : Nat} {op : Op} {result : Res}
    (run : component.machine.Run permit system next) (returned : system.Returned index op result) :
    next.Returned index op result := by
  refine run.invariant (fun state => state.Returned index op result) returned ?_
  intro state action last kept _ moved
  have before := kept
  unfold System.Returned at before ⊢
  cases action with
  | start op =>
      rw [Component.step_start moved]
      exact List.getElem?_append_left (List.getElem?_eq_some_iff.mp before).1 ▸ before
  | poll polled =>
      obtain ⟨_, _, _, _, pending, _, rfl⟩ := Component.step_poll moved
      have different : polled ≠ index := by
        intro same
        subst same
        unfold System.Pending at pending
        rw [before] at pending
        cases pending
      simpa only [List.getElem?_set_ne different] using before
  | background event =>
      obtain ⟨_, _, rfl⟩ := Component.step_background moved
      exact before

variable (outline) in
/-- What a fact about the shared state promises to the calls started after it
was established. -/
structure Promise where
  Fact : Shared → Prop
  Running : Shared → Op → Fut → Prop
  Finished : Op → Res → Prop
  fact_stable : ∀ {shared next index}, outline.Inv shared → outline.Inv next →
    outline.Rely index shared next → Fact shared → Fact next
  begin_running : ∀ {shared op}, outline.Inv shared → Fact shared →
    Running shared op (component.begin op)
  poll_sound : ∀ {shared index op future next progress}, outline.Inv shared → Fact shared →
    outline.OpOk op → outline.Running shared index op future →
    outline.PollOk shared index op future → Running shared op future →
    component.poll shared index op future = some (next, progress) →
    progress.Holds (Running next op) (Finished op)
  running_stable : ∀ {shared next index op future}, outline.Inv shared → outline.Inv next →
    Fact shared → outline.Rely index shared next → Running shared op future →
    Running next op future

structure Promise.Kept (promise : Promise outline) (started : Nat)
    (system : System Shared Op Fut Res) : Prop where
  valid : outline.Valid system
  fact : promise.Fact system.shared
  calls : ∀ index call, started ≤ index → system.calls[index]? = some call →
    call.progress.Holds (promise.Running system.shared call.op) (promise.Finished call.op)

theorem Promise.Kept.step {promise : Promise outline} {started : Nat}
    {system next : System Shared Op Fut Res} {action : Action Op Event}
    (kept : promise.Kept started system) (permitted : outline.permit system action)
    (moved : component.machine.step system action = some next) : promise.Kept started next := by
  have valid := kept.valid.step permitted moved
  cases action with
  | start op =>
      rw [Component.step_start moved] at valid ⊢
      refine ⟨valid, kept.fact, fun index call later found => ?_⟩
      rcases getElem?_of_concat found with earlier | ⟨rfl, rfl⟩
      · exact kept.calls index call later earlier
      · exact promise.begin_running kept.valid.inv kept.fact
  | poll index =>
      obtain ⟨op, future, shared, progress, pending, polled, rfl⟩ := Component.step_poll moved
      have opOk := kept.valid.opOk pending
      have running := kept.valid.running pending
      have pollOk := permitted op future pending
      obtain ⟨inv, _, rely⟩ := outline.poll_sound kept.valid.inv opOk running pollOk polled
      -- Some call other than the polled one relies on this step.
      have fact : promise.Fact shared := promise.fact_stable kept.valid.inv inv
        (rely (index + 1) (Nat.succ_ne_self index)) kept.fact
      refine ⟨valid, fact, fun other call later found => ?_⟩
      rcases getElem?_poll found with ⟨rfl, rfl⟩ | ⟨different, earlier⟩
      · exact promise.poll_sound kept.valid.inv kept.fact opOk running pollOk
          (kept.calls other _ later pending) polled
      · exact (kept.calls other call later earlier).imp
          (fun _ => promise.running_stable kept.valid.inv inv kept.fact (rely other different))
          (fun _ finished => finished)
  | background event =>
      obtain ⟨shared, ran, rfl⟩ := Component.step_background moved
      obtain ⟨inv, rely⟩ := outline.background_sound kept.valid.inv permitted ran
      refine ⟨valid, promise.fact_stable kept.valid.inv inv (rely 0) kept.fact, ?_⟩
      intro index call later found
      exact (kept.calls index call later found).imp
        (fun _ => promise.running_stable kept.valid.inv inv kept.fact (rely index))
        (fun _ finished => finished)

theorem Promise.kept_run {promise : Promise outline} {system next : System Shared Op Fut Res}
    (valid : outline.Valid system) (fact : promise.Fact system.shared)
    (run : component.machine.Run outline.permit system next) :
    promise.Kept system.calls.length next := by
  refine run.invariant (promise.Kept system.calls.length) ⟨valid, fact, ?_⟩
    fun _ _ _ kept permitted moved => kept.step permitted moved
  intro index call later found
  have inside := (List.getElem?_eq_some_iff.mp found).1
  omega

/-- What every step of the others preserves holds along every run. -/
theorem fact_run {system next : System Shared Op Fut Res} (Fact : Shared → Prop)
    (stable : ∀ {shared later index}, outline.Inv shared → outline.Inv later →
      outline.Rely index shared later → Fact shared → Fact later)
    (valid : outline.Valid system) (fact : Fact system.shared)
    (run : component.machine.Run outline.permit system next) : Fact next.shared := by
  let promise : Promise outline :=
    { Fact := Fact
      Running := fun _ _ _ => True
      Finished := fun _ _ => True
      fact_stable := stable
      begin_running := fun _ _ => trivial
      poll_sound := by
        intro _ _ _ _ _ progress _ _ _ _ _ _ _
        cases progress <;> exact trivial
      running_stable := fun _ _ _ _ _ => trivial }
  have kept : promise.Kept system.calls.length next := promise.kept_run valid fact run
  exact kept.fact

/-- A call started once the fact holds returns what the promise says. -/
theorem Promise.result {promise : Promise outline} {system next : System Shared Op Fut Res}
    (valid : outline.Valid system) (fact : promise.Fact system.shared)
    (run : component.machine.Run outline.permit system next) {index : Nat} {op : Op} {result : Res}
    (later : system.calls.length ≤ index) (returned : next.Returned index op result) :
    promise.Finished op result :=
  (promise.kept_run valid fact run).calls index _ later returned

end Outline

end Async
