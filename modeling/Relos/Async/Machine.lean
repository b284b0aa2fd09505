import Mathlib.Init

set_option autoImplicit false

/-! Labelled machines whose labels name every choice of the environment. A run
is restricted by a permission on the steps it takes, so that the same machine
serves statements about all runs and about the runs that avoid some branch. -/

namespace Async

structure Machine (State Label : Type) where
  step : State → Label → Option State

namespace Machine

variable {State Label : Type}

/-- Finite runs whose every step is permitted in the state it leaves. -/
inductive Run (machine : Machine State Label) (permit : State → Label → Prop) :
    State → State → Prop where
  | refl (state : State) : Run machine permit state state
  | tail {first middle last : State} {label : Label} :
      Run machine permit first middle → permit middle label →
      machine.step middle label = some last → Run machine permit first last

/-- Follow a list of labels; a step that is not permitted stops the execution. -/
def execute (machine : Machine State Label) (permit : State → Label → Prop)
    [∀ state label, Decidable (permit state label)] : State → List Label → Option State
  | state, [] => some state
  | state, label :: rest =>
      if permit state label then
        (machine.step state label).bind fun next => machine.execute permit next rest
      else none

variable {machine : Machine State Label} {permit other : State → Label → Prop}

theorem Run.single {first last : State} {label : Label} (permitted : permit first label)
    (moved : machine.step first label = some last) : machine.Run permit first last :=
  .tail (.refl first) permitted moved

theorem Run.trans {first middle last : State} (before : machine.Run permit first middle)
    (after : machine.Run permit middle last) : machine.Run permit first last := by
  induction after with
  | refl => exact before
  | tail _ permitted moved ih => exact .tail ih permitted moved

theorem Run.mono {first last : State} (weaker : ∀ state label, permit state label → other state label)
    (run : machine.Run permit first last) : machine.Run other first last := by
  induction run with
  | refl => exact .refl _
  | tail _ permitted moved ih => exact .tail ih (weaker _ _ permitted) moved

/-- What one permitted step preserves, a run preserves. -/
theorem Run.invariant {first last : State} (Inv : State → Prop) (initial : Inv first)
    (preserved : ∀ state label next, Inv state → permit state label →
      machine.step state label = some next → Inv next)
    (run : machine.Run permit first last) : Inv last := by
  induction run with
  | refl => exact initial
  | tail _ permitted moved ih => exact preserved _ _ _ ih permitted moved

/-- An invariant that implies a further permission turns a run into one that
has that permission at every step. -/
theorem Run.strengthen {first last : State} (Inv : State → Prop) (initial : Inv first)
    (preserved : ∀ state label next, Inv state → permit state label →
      machine.step state label = some next → other state label ∧ Inv next)
    (run : machine.Run permit first last) : machine.Run other first last ∧ Inv last := by
  induction run with
  | refl => exact ⟨.refl _, initial⟩
  | tail _ permitted moved ih =>
      obtain ⟨allowed, kept⟩ := preserved _ _ _ ih.2 permitted moved
      exact ⟨.tail ih.1 allowed moved, kept⟩

/-- Where a related state can follow every step, it can follow every run. -/
theorem Run.simulate {State' Label' : Type} {machine' : Machine State' Label'}
    {permit' : State' → Label' → Prop} (Related : State → State' → Prop)
    (steps : ∀ state image label next, Related state image → permit state label →
      machine.step state label = some next →
      ∃ image', machine'.Run permit' image image' ∧ Related next image')
    {first last : State} (run : machine.Run permit first last) {image : State'}
    (related : Related first image) :
    ∃ image', machine'.Run permit' image image' ∧ Related last image' := by
  induction run with
  | refl => exact ⟨image, .refl _, related⟩
  | tail _ permitted moved ih =>
      obtain ⟨middle, before, related⟩ := ih
      obtain ⟨last, after, related⟩ := steps _ _ _ _ related permitted moved
      exact ⟨last, before.trans after, related⟩

/-- Where every step towards a goal makes a rank smaller, and there is always one, the
goal is reached. -/
theorem exists_run_of_rank {Goal Busy : State → Prop} (rank : State → Nat)
    (moves : ∀ state, Busy state → Goal state ∨ ∃ label next, permit state label ∧
      machine.step state label = some next ∧ Busy next ∧ rank next < rank state)
    {first : State} (busy : Busy first) : ∃ last, machine.Run permit first last ∧ Goal last := by
  have bounded : ∀ bound state, rank state < bound → Busy state →
      ∃ last, machine.Run permit state last ∧ Goal last := by
    intro bound
    induction bound with
    | zero =>
        intro state impossible
        exact absurd impossible (Nat.not_lt_zero _)
    | succ bound ih =>
        intro state below busy
        rcases moves state busy with reached | ⟨label, next, permitted, moved, busy', less⟩
        · exact ⟨state, .refl state, reached⟩
        · obtain ⟨last, rest, reached⟩ := ih next (by omega) busy'
          exact ⟨last, (Run.single permitted moved).trans rest, reached⟩
  exact bounded _ first (Nat.lt_succ_self _) busy

theorem run_of_execute [∀ state label, Decidable (permit state label)] (first last : State)
    (labels : List Label) (executed : machine.execute permit first labels = some last) :
    machine.Run permit first last := by
  induction labels generalizing first with
  | nil =>
      have same : first = last := Option.some.inj executed
      subst last
      exact .refl first
  | cons label rest ih =>
      unfold execute at executed
      split at executed
      · rename_i permitted
        obtain ⟨next, moved, remaining⟩ := Option.bind_eq_some_iff.mp executed
        exact (Run.single permitted moved).trans (ih next remaining)
      · cases executed

variable (machine permit) in
/-- A concrete execution, read through a view of its last state. -/
theorem exists_run_of_execute [∀ state label, Decidable (permit state label)] {View : Type}
    (first : State) (labels : List Label) (view : State → View) (seen : View)
    (executed : (machine.execute permit first labels).map view = some seen) :
    ∃ last, machine.Run permit first last ∧ view last = seen := by
  obtain ⟨last, reached, viewed⟩ := Option.map_eq_some_iff.mp executed
  exact ⟨last, run_of_execute first last labels reached, viewed⟩

variable (machine permit) in
theorem exists_runs_of_execute [∀ state label, Decidable (permit state label)] {View : Type}
    (first : State) (labels more : List Label) (view : State → View) (seen seen' : View)
    (executed : ((machine.execute permit first labels).bind fun middle =>
      (machine.execute permit middle more).map fun last => (view middle, view last)) =
        some (seen, seen')) :
    ∃ middle last, machine.Run permit first middle ∧ machine.Run permit middle last ∧
      view middle = seen ∧ view last = seen' := by
  obtain ⟨middle, reached, remaining⟩ := Option.bind_eq_some_iff.mp executed
  obtain ⟨last, reached', viewed⟩ := Option.map_eq_some_iff.mp remaining
  obtain ⟨same, same'⟩ := Prod.mk.inj viewed
  exact ⟨middle, last, run_of_execute first middle labels reached,
    run_of_execute middle last more reached', same, same'⟩

variable (machine permit) in
/-- A concrete execution split at one of its steps. -/
theorem exists_step_of_execute [∀ state label, Decidable (permit state label)] {View : Type}
    (first : State) (labels : List Label) (label : Label) (more : List Label) (view : State → View)
    (seen seen' : View)
    (executed : ((machine.execute permit first labels).bind fun middle =>
      (machine.execute permit middle (label :: more)).map fun last => (view middle, view last)) =
        some (seen, seen')) :
    ∃ middle next last, machine.Run permit first middle ∧ permit middle label ∧
      machine.step middle label = some next ∧ machine.Run permit next last ∧
      view middle = seen ∧ view last = seen' := by
  obtain ⟨middle, reached, remaining⟩ := Option.bind_eq_some_iff.mp executed
  obtain ⟨last, reached', viewed⟩ := Option.map_eq_some_iff.mp remaining
  obtain ⟨same, same'⟩ := Prod.mk.inj viewed
  unfold execute at reached'
  split at reached'
  · rename_i permitted
    obtain ⟨next, moved, ended⟩ := Option.bind_eq_some_iff.mp reached'
    exact ⟨middle, next, last, run_of_execute first middle labels reached, permitted, moved,
      run_of_execute next last more ended, same, same'⟩
  · cases reached'

end Machine

end Async
