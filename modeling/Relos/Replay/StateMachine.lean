import Mathlib.Data.Option.Basic

set_option autoImplicit false

/-! Deterministic machines that replay a log. A step sees the position of its
input and may reject it. -/

namespace Replay

structure StateMachine (Input State Output : Type) where
  initial : State
  step : State → Input → Nat → Option (State × Output)

namespace StateMachine

variable {Input State Output : Type} (machine : StateMachine Input State Output)

/-- Apply the inputs in order, the first of them at position `pos`. -/
def replayFrom (pos : Nat) (state : State) : List Input → Option State
  | [] => some state
  | input :: rest => (machine.step state input pos).bind fun next =>
      replayFrom (pos + 1) next.1 rest

/-- The state after the log whose first position is `first`. -/
def replay (first : Nat) (inputs : List Input) : Option State :=
  machine.replayFrom first machine.initial inputs

theorem replayFrom_append (pos : Nat) (state : State) (inputs more : List Input) :
    machine.replayFrom pos state (inputs ++ more) =
      (machine.replayFrom pos state inputs).bind fun next =>
        machine.replayFrom (pos + inputs.length) next more := by
  induction inputs generalizing pos state with
  | nil => rfl
  | cons input inputs ih =>
      simp only [List.cons_append, replayFrom, Option.bind_assoc, List.length_cons]
      refine congrArg _ (funext fun next => ?_)
      rw [ih, Nat.add_assoc, Nat.add_comm 1]

theorem replay_concat (first : Nat) (inputs : List Input) (input : Input) :
    machine.replay first (inputs ++ [input]) =
      (machine.replay first inputs).bind fun state =>
        (machine.step state input (first + inputs.length)).map Prod.fst := by
  unfold replay
  rw [replayFrom_append]
  refine congrArg _ (funext fun state => ?_)
  unfold replayFrom
  cases machine.step state input (first + inputs.length) <;> rfl

end StateMachine

end Replay
