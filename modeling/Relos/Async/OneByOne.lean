import Relos.Async.Sequential

set_option autoImplicit false

/-! Calls made one after another where what a call does depends on its surroundings. What
is known between two calls is stated of all calls so far and of their results. -/

namespace Async

variable {Shared Op Fut Res Event : Type}

/-- A call starts once all earlier ones have returned. -/
def OneByOne (Allowed : Op → Prop) (Polls : Shared → Op → Fut → Prop) (quiet : Event → Prop)
    (system : System Shared Op Fut Res) : Action Op Event → Prop
  | .start op => system.Settled ∧ Allowed op
  | .poll index => Call.Meets (Polls system.shared) system.calls[index]?
  | .background event => quiet event

instance (Allowed : Op → Prop) (Polls : Shared → Op → Fut → Prop) (quiet : Event → Prop)
    (system : System Shared Op Fut Res) [∀ op, Decidable (Allowed op)]
    [∀ shared op future, Decidable (Polls shared op future)] [∀ event, Decidable (quiet event)] :
    (action : Action Op Event) → Decidable (OneByOne Allowed Polls quiet system action)
  | .start op => inferInstanceAs
      (Decidable ((∀ call ∈ system.calls, call.isReturned = true) ∧ Allowed op))
  | .poll index => inferInstanceAs
      (Decidable (Call.Meets (Polls system.shared) system.calls[index]?))
  | .background event => inferInstanceAs (Decidable (quiet event))

/-- The call has just been started. -/
def System.begun (component : Component Shared Op Fut Res Event) (system : System Shared Op Fut Res)
    (op : Op) : System Shared Op Fut Res :=
  { system with calls := system.calls ++ [⟨op, .running (component.begin op)⟩] }

/-- What is known between two calls, during one that started in the state `first`, and when
it returns. -/
structure CallRules (component : Component Shared Op Fut Res Event) (Allowed : Op → Prop)
    (Polls : Shared → Op → Fut → Prop) (quiet : Event → Prop) where
  Idle : List (Call Op Fut Res) → Shared → Prop
  Busy : List (Call Op Fut Res) → Shared → Op → Shared → Fut → Prop
  Done : List (Call Op Fut Res) → Shared → Op → Shared → Res → Prop
  start : ∀ {history shared op}, Idle history shared → Allowed op →
    Busy history shared op shared (component.begin op)
  poll : ∀ {history first op shared future next progress}, Busy history first op shared future →
    Polls shared op future →
    component.poll shared history.length op future = some (next, progress) →
    progress.Holds (Busy history first op next) (Done history first op next)
  ended : ∀ {history first op shared result}, Done history first op shared result →
    Idle (history ++ [⟨op, .finished result⟩]) shared
  idle_background : ∀ {history shared event next}, Idle history shared → quiet event →
    component.background shared event = some next → Idle history next
  busy_background : ∀ {history first op shared future event next},
    Busy history first op shared future → quiet event →
    component.background shared event = some next → Busy history first op next future
  done_background : ∀ {history first op shared result event next},
    Done history first op shared result → quiet event →
    component.background shared event = some next → Done history first op next result

namespace CallRules

variable {component : Component Shared Op Fut Res Event} {Allowed : Op → Prop}
  {Polls : Shared → Op → Fut → Prop} {quiet : Event → Prop}
  (rules : CallRules component Allowed Polls quiet)

/-- Where the calls stand: between two, or in the last. -/
def Stands (system : System Shared Op Fut Res) : Prop :=
  (system.Settled ∧ rules.Idle system.calls system.shared) ∨
  ∃ earlier first op future, system.calls = earlier ++ [⟨op, .running future⟩] ∧
    (∀ call ∈ earlier, call.isReturned = true) ∧ rules.Busy earlier first op system.shared future

variable {rules} {system next before after : System Shared Op Fut Res} {action : Action Op Event}

theorem not_settled {earlier : List (Call Op Fut Res)} {op : Op} {future : Fut}
    (same : system.calls = earlier ++ [⟨op, .running future⟩]) : ¬ system.Settled := by
  intro settled
  have impossible := settled ⟨op, .running future⟩
    (same ▸ List.mem_append_right _ List.mem_cons_self)
  cases impossible

/-- One poll of the last call, the only one that can be polled. -/
theorem poll_last {earlier : List (Call Op Fut Res)} {op : Op} {future : Fut} {index : Nat}
    (same : system.calls = earlier ++ [⟨op, .running future⟩])
    (returned : ∀ call ∈ earlier, call.isReturned = true)
    (permitted : OneByOne Allowed Polls quiet system (.poll index))
    (moved : component.machine.step system (.poll index) = some next) :
    ∃ progress, Polls system.shared op future ∧
      component.poll system.shared earlier.length op future = some (next.shared, progress) ∧
      next.calls = earlier ++ [⟨op, progress⟩] := by
  obtain ⟨op', future', shared, progress, pending, polled, rfl⟩ := Component.step_poll moved
  obtain ⟨rfl, rfl, rfl⟩ := Simulation.pending_last same returned pending
  have meets : Call.Meets (Polls system.shared) system.calls[earlier.length]? := permitted
  unfold System.Pending at pending
  rw [pending] at meets
  refine ⟨progress, meets, polled, ?_⟩
  dsimp only
  rw [same, Simulation.set_last]

theorem settled_concat {earlier : List (Call Op Fut Res)} {op : Op} {result : Res}
    (same : system.calls = earlier ++ [⟨op, .finished result⟩])
    (returned : ∀ call ∈ earlier, call.isReturned = true) : system.Settled := by
  intro call member
  rw [same] at member
  rcases List.mem_append.mp member with old | added
  · exact returned call old
  · rw [List.mem_singleton.mp added]
    rfl

theorem Stands.step (stands : rules.Stands system)
    (permitted : OneByOne Allowed Polls quiet system action)
    (moved : component.machine.step system action = some next) : rules.Stands next := by
  cases action with
  | start op =>
      obtain ⟨settled, allowed⟩ := permitted
      rw [Component.step_start moved]
      rcases stands with ⟨-, idle⟩ | ⟨earlier, first, running, future, same, -, -⟩
      · exact Or.inr ⟨system.calls, system.shared, op, _, rfl, settled, rules.start idle allowed⟩
      · exact absurd settled (not_settled same)
  | poll index =>
      rcases stands with ⟨settled, -⟩ | ⟨earlier, first, op, future, same, returned, busy⟩
      · obtain ⟨_, _, _, _, pending, _, _⟩ := Component.step_poll moved
        have impossible := settled _ (List.mem_of_getElem? pending)
        cases impossible
      · obtain ⟨progress, polls, polled, calls⟩ := poll_last same returned permitted moved
        have held := rules.poll busy polls polled
        cases progress with
        | running later => exact Or.inr ⟨earlier, first, op, later, calls, returned, held⟩
        | finished result =>
            refine Or.inl ⟨settled_concat calls returned, ?_⟩
            rw [calls]
            exact rules.ended held
  | background event =>
      obtain ⟨shared, ran, rfl⟩ := Component.step_background moved
      rcases stands with ⟨settled, idle⟩ | ⟨earlier, first, op, future, same, returned, busy⟩
      · exact Or.inl ⟨settled, rules.idle_background idle permitted ran⟩
      · exact Or.inr ⟨earlier, first, op, future, same, returned,
          rules.busy_background busy permitted ran⟩

theorem Stands.run (stands : rules.Stands before)
    (run : component.machine.Run (OneByOne Allowed Polls quiet) before after) :
    rules.Stands after :=
  run.invariant rules.Stands stands fun _ _ _ held permitted moved => held.step permitted moved

theorem Stands.fresh {shared : Shared} (idle : rules.Idle [] shared) :
    rules.Stands (.fresh shared) :=
  Or.inl ⟨fun _ impossible => absurd impossible List.not_mem_nil, idle⟩

theorem Stands.idle (stands : rules.Stands system) (settled : system.Settled) :
    rules.Idle system.calls system.shared := by
  rcases stands with ⟨-, idle⟩ | ⟨earlier, first, op, future, same, -, -⟩
  · exact idle
  · exact absurd settled (not_settled same)

/-- Only the last call is running. -/
theorem Stands.busy (stands : rules.Stands system) {index : Nat} {op : Op} {future : Fut}
    (pending : system.Pending index op future) :
    ∃ earlier first, index = earlier.length ∧ system.calls = earlier ++ [⟨op, .running future⟩] ∧
      rules.Busy earlier first op system.shared future := by
  rcases stands with ⟨settled, -⟩ | ⟨earlier, first, running, future', same, returned, busy⟩
  · have impossible := settled _ (List.mem_of_getElem? pending)
    cases impossible
  · obtain ⟨rfl, rfl, rfl⟩ := Simulation.pending_last same returned pending
    exact ⟨earlier, first, rfl, same, busy⟩

/-- What one call has come to, while no other is made. -/
theorem during (idle : rules.Idle before.calls before.shared) (settled : before.Settled) {op : Op}
    (allowed : Allowed op)
    (run : component.machine.Run (OneByOne Allowed Polls quiet) (before.begun component op) after)
    (alone : after.calls.length ≤ before.calls.length + 1) :
    ∃ progress, after.calls = before.calls ++ [⟨op, progress⟩] ∧ progress.Holds
      (rules.Busy before.calls before.shared op after.shared)
      (rules.Done before.calls before.shared op after.shared) := by
  have kept := run.invariant (fun state => state.calls.length ≤ before.calls.length + 1 →
    ∃ progress, state.calls = before.calls ++ [⟨op, progress⟩] ∧ progress.Holds
      (rules.Busy before.calls before.shared op state.shared)
      (rules.Done before.calls before.shared op state.shared)) ?_ ?_
  · exact kept alone
  · exact fun _ => ⟨.running (component.begin op), rfl, rules.start idle allowed⟩
  · intro state action next held permitted moved inside
    cases action with
    | start other =>
        rw [Component.step_start moved, List.length_append, List.length_singleton] at inside
        obtain ⟨progress, same, -⟩ := held (by omega)
        rw [same, List.length_append, List.length_singleton] at inside
        omega
    | poll index =>
        obtain ⟨_, _, _, _, pending, _, later⟩ := Component.step_poll moved
        have length : next.calls.length = state.calls.length := by
          rw [later]
          exact List.length_set
        obtain ⟨progress, same, known⟩ := held (length ▸ inside)
        cases progress with
        | running future =>
            obtain ⟨progress, polls, polled, calls⟩ := poll_last same settled permitted moved
            exact ⟨progress, calls, rules.poll known polls polled⟩
        | finished result =>
            have impossible := settled_concat same settled _ (List.mem_of_getElem? pending)
            cases impossible
    | background event =>
        obtain ⟨shared, ran, rfl⟩ := Component.step_background moved
        obtain ⟨progress, same, known⟩ := held inside
        refine ⟨progress, same, ?_⟩
        cases progress with
        | running future => exact rules.busy_background known permitted ran
        | finished result => exact rules.done_background known permitted ran

end CallRules

end Async
