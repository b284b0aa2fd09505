import Relos.Async.Outline
import Mathlib.Data.List.Induction

set_option autoImplicit false

/-! Calls made one after another. Their results are compared with a specification
that answers one call at a time, and a call may not hang. -/

namespace Async

variable {Shared Op Fut Res Event State : Type}

def System.ops (system : System Shared Op Fut Res) : List Op := system.calls.map Call.op

def System.Settled (system : System Shared Op Fut Res) : Prop :=
  ∀ call ∈ system.calls, call.isReturned = true

theorem System.Settled.returned {system : System Shared Op Fut Res} (settled : system.Settled)
    {index : Nat} {op : Op} (called : system.ops[index]? = some op) :
    ∃ result, system.Returned index op result := by
  unfold System.ops at called
  rw [List.getElem?_map] at called
  obtain ⟨⟨op', progress⟩, found, same⟩ := Option.map_eq_some_iff.mp called
  cases same
  have returned := settled _ (List.mem_of_getElem? found)
  cases progress with
  | running future => cases returned
  | finished result => exact ⟨result, found⟩

theorem System.Returned.called {system : System Shared Op Fut Res} {index : Nat} {op : Op}
    {result : Res} (returned : system.Returned index op result) : system.ops[index]? = some op := by
  unfold System.Returned at returned
  unfold System.ops
  rw [List.getElem?_map, returned]
  rfl

/-- Calls are only added. -/
theorem Component.ops_run {component : Component Shared Op Fut Res Event}
    {permit : System Shared Op Fut Res → Action Op Event → Prop}
    {system later : System Shared Op Fut Res} (run : component.machine.Run permit system later) :
    system.ops <+: later.ops := by
  refine run.invariant (fun later => system.ops <+: later.ops) (List.prefix_refl _)
    fun middle action next before _ moved => before.trans ?_
  cases action with
  | start op =>
      rw [Component.step_start moved]
      unfold System.ops
      rw [List.map_append]
      exact List.prefix_append _ _
  | poll index =>
      obtain ⟨op, future, shared, progress, pending, _, rfl⟩ := Component.step_poll moved
      have same : (middle.calls.set index ⟨op, progress⟩).map Call.op = middle.calls.map Call.op := by
        obtain ⟨inside, held⟩ := List.getElem?_eq_some_iff.mp pending
        have bound : index < (middle.calls.map Call.op).length := by rwa [List.length_map]
        have kept : (middle.calls.map Call.op)[index] = op := by rw [List.getElem_map, held]
        rw [List.map_set]
        dsimp only
        rw [← kept]
        exact List.set_getElem_self bound
      exact prefix_of_same same
  | background event =>
      obtain ⟨_, _, rfl⟩ := Component.step_background moved
      exact List.prefix_refl _

/-- Only the start of a call adds one. -/
theorem Component.ops_step {component : Component Shared Op Fut Res Event}
    {system next : System Shared Op Fut Res} {action : Action Op Event}
    (moved : component.machine.step system action = some next) :
    (∃ op, action = .start op ∧ next.ops = system.ops ++ [op]) ∨ next.ops = system.ops := by
  have length : (∀ op, action ≠ .start op) → next.calls.length = system.calls.length := by
    intro other
    cases action with
    | start op => exact absurd rfl (other op)
    | poll index =>
        obtain ⟨_, _, _, _, _, _, rfl⟩ := Component.step_poll moved
        exact List.length_set
    | background event =>
        obtain ⟨_, _, rfl⟩ := Component.step_background moved
        rfl
  have still : (∀ op, action ≠ .start op) → next.ops = system.ops := by
    intro other
    have run : component.machine.Run (fun _ _ => True) system next := .single trivial moved
    refine ((Component.ops_run run).eq_of_length ?_).symm
    unfold System.ops
    rw [List.length_map, List.length_map, length other]
  cases action with
  | start op =>
      rw [Component.step_start moved]
      exact Or.inl ⟨op, rfl, List.map_append⟩
  | poll index => exact Or.inr (still fun _ impossible => by cases impossible)
  | background event => exact Or.inr (still fun _ impossible => by cases impossible)

/-- What a sequence of calls does and may be answered. -/
structure Sequential (State Op Res : Type) where
  next : State → Op → State
  Allowed : State → Op → Prop
  Answers : State → Op → Res → Prop

namespace Sequential

variable (spec : Sequential State Op Res)

def after (initial : State) (ops : List Op) : State := ops.foldl spec.next initial

theorem after_concat (initial : State) (ops : List Op) (op : Op) :
    spec.after initial (ops ++ [op]) = spec.next (spec.after initial ops) op := by
  unfold after
  rw [List.foldl_append]
  rfl

/-- A call starts once all earlier ones have returned. -/
def permit (quiet : Event → Prop) (initial : State) (system : System Shared Op Fut Res) :
    Action Op Event → Prop
  | .start op => system.Settled ∧ spec.Allowed (spec.after initial system.ops) op
  | .poll _ => True
  | .background event => quiet event

instance (quiet : Event → Prop) (initial : State) (system : System Shared Op Fut Res)
    [∀ state op, Decidable (spec.Allowed state op)] [∀ event, Decidable (quiet event)] :
    (action : Action Op Event) → Decidable (spec.permit quiet initial system action)
  | .start op => inferInstanceAs (Decidable ((∀ call ∈ system.calls, call.isReturned = true) ∧
      spec.Allowed (spec.after initial system.ops) op))
  | .poll _ => isTrue trivial
  | .background event => inferInstanceAs (Decidable (quiet event))

/-- Each result answers its call after the calls before it. -/
def Served (initial : State) (system : System Shared Op Fut Res) : Prop :=
  ∀ index op result, system.Returned index op result →
    spec.Answers (spec.after initial (system.ops.take index)) op result

end Sequential

/-- The future returns, with such background steps in between. -/
inductive Component.Completes (component : Component Shared Op Fut Res Event)
    (quiet : Event → Prop) (index : Nat) (op : Op) : Shared → Fut → Shared → Res → Prop where
  | finished {shared last : Shared} {future : Fut} {result : Res} :
      component.poll shared index op future = some (last, .finished result) →
      Completes component quiet index op shared future last result
  | running {shared middle last : Shared} {future later : Fut} {result : Res} :
      component.poll shared index op future = some (middle, .running later) →
      Completes component quiet index op middle later last result →
      Completes component quiet index op shared future last result
  | background {shared middle last : Shared} {future : Fut} {result : Res} {event : Event} :
      quiet event → component.background shared event = some middle →
      Completes component quiet index op middle future last result →
      Completes component quiet index op shared future last result

/-- A running call that completes can be run to its end, whatever else has been called. -/
theorem Component.Completes.run {component : Component Shared Op Fut Res Event}
    {quiet : Event → Prop} {permit : System Shared Op Fut Res → Action Op Event → Prop}
    {index : Nat} {op : Op} {shared last : Shared} {future : Fut} {result : Res}
    (completes : component.Completes quiet index op shared future last result)
    (polls : ∀ system, permit system (.poll index))
    (events : ∀ system event, quiet event → permit system (.background event))
    {calls : List (Call Op Fut Res)} (pending : calls[index]? = some ⟨op, .running future⟩) :
    component.machine.Run permit ⟨shared, calls⟩ ⟨last, calls.set index ⟨op, .finished result⟩⟩ := by
  induction completes generalizing calls with
  | @finished shared last future result polled =>
      have running : System.Pending ⟨shared, calls⟩ index op future := pending
      exact .single (polls _) (step_of_poll running polled)
  | @running shared middle last future later result polled _ ih =>
      have now : System.Pending ⟨shared, calls⟩ index op future := pending
      have again : (calls.set index ⟨op, .running later⟩)[index]? = some ⟨op, .running later⟩ :=
        List.getElem?_set_self (List.getElem?_eq_some_iff.mp pending).1
      have rest := ih again
      rw [List.set_set] at rest
      exact (Machine.Run.single (polls _) (step_of_poll now polled)).trans rest
  | @background shared middle last future result event permitted ran _ ih =>
      have moved : component.machine.step ⟨shared, calls⟩ (.background event) = some ⟨middle, calls⟩ :=
        step_of_background ran
      exact (Machine.Run.single (events _ _ permitted) moved).trans (ih pending)

/-- Every step towards the return makes a rank smaller, and there is always one. -/
theorem Component.completes_of_rank {component : Component Shared Op Fut Res Event}
    {quiet : Event → Prop} {index : Nat} {op : Op} (Busy : Shared → Fut → Prop)
    (rank : Shared → Fut → Nat)
    (moves : ∀ shared future, Busy shared future →
      (∃ last result, component.poll shared index op future = some (last, .finished result)) ∨
      (∃ next later, component.poll shared index op future = some (next, .running later) ∧
        Busy next later ∧ rank next later < rank shared future) ∨
      ∃ event next, quiet event ∧ component.background shared event = some next ∧
        Busy next future ∧ rank next future < rank shared future)
    {shared : Shared} {future : Fut} (busy : Busy shared future) :
    ∃ last result, component.Completes quiet index op shared future last result := by
  have bounded : ∀ bound shared future, rank shared future < bound → Busy shared future →
      ∃ last result, component.Completes quiet index op shared future last result := by
    intro bound
    induction bound with
    | zero =>
        intro shared future impossible
        exact absurd impossible (Nat.not_lt_zero _)
    | succ bound ih =>
        intro shared future below busy
        rcases moves shared future busy with ⟨last, result, polled⟩ | ⟨next, later, polled, busy', less⟩ |
          ⟨event, next, permitted, ran, busy', less⟩
        · exact ⟨last, result, .finished polled⟩
        · obtain ⟨last, result, rest⟩ := ih next later (by omega) busy'
          exact ⟨last, result, .running polled rest⟩
        · obtain ⟨last, result, rest⟩ := ih next future (by omega) busy'
          exact ⟨last, result, .background permitted ran rest⟩
  exact bounded _ shared future (Nat.lt_succ_self _) busy

/-- What polls of the call and such background steps preserve holds when it returns. -/
theorem Component.Completes.invariant {component : Component Shared Op Fut Res Event}
    {quiet : Event → Prop} {index : Nat} {op : Op} {shared last : Shared} {future : Fut}
    {result : Res} (completes : component.Completes quiet index op shared future last result)
    (Busy : Shared → Fut → Prop) (Done : Shared → Res → Prop)
    (poll_kept : ∀ {shared future next progress}, Busy shared future →
      component.poll shared index op future = some (next, progress) →
      progress.Holds (Busy next) (Done next))
    (background_kept : ∀ {shared future event next}, Busy shared future → quiet event →
      component.background shared event = some next → Busy next future)
    (busy : Busy shared future) : Done last result := by
  induction completes with
  | finished polled => exact poll_kept busy polled
  | running polled _ ih => exact ih (poll_kept busy polled)
  | background permitted ran _ ih => exact ih (background_kept busy permitted ran)

/-- What relates a component to a specification between calls and during one. -/
structure Simulation (component : Component Shared Op Fut Res Event)
    (spec : Sequential State Op Res) (quiet : Event → Prop) where
  Idle : Shared → Nat → State → Prop
  Busy : Shared → Nat → State → Op → Fut → Prop
  start : ∀ {shared index state op}, Idle shared index state → spec.Allowed state op →
    Busy shared index state op (component.begin op)
  poll : ∀ {shared index state op future next progress}, Busy shared index state op future →
    component.poll shared index op future = some (next, progress) →
    progress.Holds (Busy next index state op) fun result =>
      spec.Answers state op result ∧ Idle next (index + 1) (spec.next state op)
  idle_background : ∀ {shared index state event next}, Idle shared index state → quiet event →
    component.background shared event = some next → Idle next index state
  busy_background : ∀ {shared index state op future event next},
    Busy shared index state op future → quiet event →
    component.background shared event = some next → Busy next index state op future
  completes : ∀ {shared index state op future}, Busy shared index state op future →
    ∃ last result, component.Completes quiet index op shared future last result

namespace Simulation

variable {component : Component Shared Op Fut Res Event} {spec : Sequential State Op Res}
  {quiet : Event → Prop}

/-- Where a sequence of calls stands: between two, or in the last. -/
def Stands (simulation : Simulation component spec quiet) (initial : State)
    (system : System Shared Op Fut Res) : Prop :=
  (system.Settled ∧
    simulation.Idle system.shared system.calls.length (spec.after initial system.ops)) ∨
  ∃ earlier op future, system.calls = earlier ++ [⟨op, .running future⟩] ∧
    (∀ call ∈ earlier, call.isReturned = true) ∧
    simulation.Busy system.shared earlier.length (spec.after initial (earlier.map Call.op)) op future

variable {simulation : Simulation component spec quiet} {initial : State}
  {system next : System Shared Op Fut Res}

theorem set_last {earlier : List (Call Op Fut Res)} {last replacement : Call Op Fut Res} :
    (earlier ++ [last]).set earlier.length replacement = earlier ++ [replacement] := by
  rw [List.set_append_right _ _ (Nat.le_refl _), Nat.sub_self]
  rfl

theorem pending_last {earlier : List (Call Op Fut Res)} {op op' : Op} {future future' : Fut}
    {index : Nat} (same : system.calls = earlier ++ [⟨op, .running future⟩])
    (returned : ∀ call ∈ earlier, call.isReturned = true)
    (pending : system.Pending index op' future') :
    index = earlier.length ∧ op' = op ∧ future' = future := by
  unfold System.Pending at pending
  rw [same] at pending
  rcases getElem?_of_concat pending with before | ⟨last, equal⟩
  · have impossible := returned _ (List.mem_of_getElem? before)
    cases impossible
  · cases equal
    exact ⟨last, rfl, rfl⟩

/-- A result among calls that grew by one. -/
theorem served_concat {earlier : List (Call Op Fut Res)} {added : Call Op Fut Res}
    {shared shared' : Shared} (served : spec.Served initial ⟨shared, earlier⟩)
    (last : ∀ result, added.progress = .finished result →
      spec.Answers (spec.after initial (earlier.map Call.op)) added.op result) :
    spec.Served initial ⟨shared', earlier ++ [added]⟩ := by
  intro index op result returned
  have ops : System.ops ⟨shared', earlier ++ [added]⟩ = earlier.map Call.op ++ [added.op] :=
    List.map_append
  rw [ops]
  rcases getElem?_of_concat returned with before | ⟨here, equal⟩
  · have inside := (List.getElem?_eq_some_iff.mp before).1
    rw [List.take_append_of_le_length (by rw [List.length_map]; omega)]
    exact served index op result before
  · subst here
    rw [List.take_left' (List.length_map _)]
    subst equal
    exact last result rfl

theorem stands_step {action : Action Op Event} (served : spec.Served initial system)
    (stands : simulation.Stands initial system) (permitted : spec.permit quiet initial system action)
    (moved : component.machine.step system action = some next) :
    spec.Served initial next ∧ simulation.Stands initial next := by
  cases action with
  | start op =>
      obtain ⟨idle, allowed⟩ := permitted
      rw [Component.step_start moved]
      rcases stands with ⟨-, between⟩ | ⟨earlier, busyOp, future, same, -, -⟩
      · constructor
        · exact served_concat served (by intro result impossible; cases impossible)
        · exact Or.inr ⟨system.calls, op, _, rfl, idle, simulation.start between allowed⟩
      · have impossible := idle ⟨busyOp, .running future⟩ (by rw [same]; simp)
        cases impossible
  | poll index =>
      obtain ⟨op, future, shared, progress, pending, polled, rfl⟩ := Component.step_poll moved
      rcases stands with ⟨idle, -⟩ | ⟨earlier, busyOp, busyFuture, same, returned, busy⟩
      · have impossible := idle _ (List.mem_of_getElem? pending)
        cases impossible
      · obtain ⟨rfl, rfl, rfl⟩ := pending_last same returned pending
        have advanced := simulation.poll busy polled
        have replaced : system.calls.set earlier.length ⟨op, progress⟩ =
            earlier ++ [⟨op, progress⟩] := by
          rw [same, set_last]
        have before : spec.Served initial ⟨system.shared, earlier⟩ := by
          intro index op result found
          have inside : index < earlier.length := (List.getElem?_eq_some_iff.mp found).1
          have known := served index op result
            (by unfold System.Returned; rw [same, List.getElem?_append_left inside]; exact found)
          unfold System.ops at known
          rw [same, List.map_append, List.take_append_of_le_length
            (by rw [List.length_map]; omega)] at known
          exact known
        rw [replaced]
        cases progress with
        | running later =>
            constructor
            · exact served_concat before (by intro result impossible; cases impossible)
            · exact Or.inr ⟨earlier, op, later, rfl, returned, advanced⟩
        | finished result =>
            constructor
            · refine served_concat before fun result' equal => ?_
              cases equal
              exact advanced.1
            · refine Or.inl ⟨fun call member => ?_, ?_⟩
              · rcases List.mem_append.mp member with old | added
                · exact returned call old
                · rw [List.mem_singleton.mp added]
                  rfl
              · unfold System.ops
                dsimp only
                rw [List.map_append, List.map_singleton, spec.after_concat, List.length_append]
                exact advanced.2
  | background event =>
      obtain ⟨shared, ran, rfl⟩ := Component.step_background moved
      refine ⟨served, ?_⟩
      rcases stands with ⟨idle, between⟩ | ⟨earlier, op, future, same, returned, busy⟩
      · exact Or.inl ⟨idle, simulation.idle_background between permitted ran⟩
      · exact Or.inr ⟨earlier, op, future, same, returned,
          simulation.busy_background busy permitted ran⟩

/-- The last call, if it completes, can be run to its end. -/
theorem run_completes {index : Nat} {op : Op} {shared last : Shared} {future : Fut} {result : Res}
    (completes : component.Completes quiet index op shared future last result)
    {earlier : List (Call Op Fut Res)} (place : index = earlier.length) :
    component.machine.Run (spec.permit quiet initial) ⟨shared, earlier ++ [⟨op, .running future⟩]⟩
      ⟨last, earlier ++ [⟨op, .finished result⟩]⟩ := by
  subst place
  have pending : (earlier ++ [(⟨op, .running future⟩ : Call Op Fut Res)])[earlier.length]? =
      some ⟨op, .running future⟩ := List.getElem?_concat_length
  have ran : component.machine.Run (spec.permit quiet initial) _ _ :=
    completes.run (fun _ => trivial) (fun _ _ permitted => permitted) pending
  rw [set_last] at ran
  exact ran

theorem served_stands (simulation : Simulation component spec quiet) {shared : Shared}
    (idle : simulation.Idle shared 0 initial)
    (run : component.machine.Run (spec.permit quiet initial) (.fresh shared) system) :
    spec.Served initial system ∧ simulation.Stands initial system := by
  refine run.invariant (fun system => spec.Served initial system ∧ simulation.Stands initial system)
    ⟨?_, ?_⟩ fun state action next valid permitted moved =>
      stands_step valid.1 valid.2 permitted moved
  · intro index op result impossible
    cases impossible
  · exact Or.inl ⟨fun call impossible => absurd impossible List.not_mem_nil, idle⟩

/-- Between two calls the component idles. -/
theorem idle_of_settled (simulation : Simulation component spec quiet) {shared : Shared}
    (idle : simulation.Idle shared 0 initial)
    (run : component.machine.Run (spec.permit quiet initial) (.fresh shared) system)
    (settled : system.Settled) :
    simulation.Idle system.shared system.calls.length (spec.after initial system.ops) := by
  rcases (simulation.served_stands idle run).2 with ⟨-, between⟩ | ⟨earlier, op, future, same, -, -⟩
  · exact between
  · have impossible := settled ⟨op, .running future⟩ (by rw [same]; simp)
    cases impossible

/-- In every sequence of calls each result is one that the specification allows, and
what has been called can return. -/
theorem served (simulation : Simulation component spec quiet) {shared : Shared}
    (idle : simulation.Idle shared 0 initial)
    (run : component.machine.Run (spec.permit quiet initial) (.fresh shared) system) :
    spec.Served initial system ∧ ∃ last,
      component.machine.Run (spec.permit quiet initial) system last ∧ last.Settled ∧
        last.ops = system.ops := by
  have kept := simulation.served_stands idle run
  refine ⟨kept.1, ?_⟩
  rcases kept.2 with ⟨returned, -⟩ | ⟨earlier, op, future, same, returned, busy⟩
  · exact ⟨system, .refl _, returned, rfl⟩
  · obtain ⟨last, result, completes⟩ := simulation.completes busy
    obtain ⟨shared, calls⟩ := system
    dsimp only at same
    subst same
    refine ⟨_, run_completes completes rfl, ?_, ?_⟩
    · intro call member
      rcases List.mem_append.mp member with old | added
      · exact returned call old
      · rw [List.mem_singleton.mp added]
        rfl
    · simp only [System.ops, List.map_append, List.map_cons, List.map_nil]

/-- Every sequence of allowed calls can be made. -/
theorem exists_run (simulation : Simulation component spec quiet) {shared : Shared}
    (idle : simulation.Idle shared 0 initial) (ops : List Op)
    (allowed : ∀ earlier op later, ops = earlier ++ op :: later →
      spec.Allowed (spec.after initial earlier) op) :
    ∃ system, component.machine.Run (spec.permit quiet initial) (.fresh shared) system ∧
      system.Settled ∧ system.ops = ops := by
  induction ops using List.reverseRecOn with
  | nil => exact ⟨_, .refl _, fun call member => absurd member List.not_mem_nil, rfl⟩
  | append_singleton ops op ih =>
      obtain ⟨system, run, settled, same⟩ := ih fun earlier op' later split =>
        allowed earlier op' (later ++ [op]) (by rw [split, List.append_assoc, List.cons_append])
      have permitted : spec.permit quiet initial system (.start op : Action Op Event) := by
        refine ⟨settled, ?_⟩
        rw [same]
        exact allowed ops op [] rfl
      have started := run.trans (.single permitted rfl)
      obtain ⟨last, rest, settled', same'⟩ := (simulation.served idle started).2
      refine ⟨last, started.trans rest, settled', ?_⟩
      rw [same', System.ops, List.map_append]
      exact congrArg (· ++ [op]) same

end Simulation

/-! ### Components without background steps -/

/-- If every allowed call completes and is answered rightly, all sequences are served. -/
def Simulation.ofCompletes {component : Component Shared Op Fut Res Event}
    {spec : Sequential State Op Res} (Idle : Shared → Nat → State → Prop)
    (completes : ∀ {shared index state op}, Idle shared index state → spec.Allowed state op →
      ∃ last result, component.Completes (fun _ => False) index op shared (component.begin op) last
        result ∧ spec.Answers state op result ∧ Idle last (index + 1) (spec.next state op)) :
    Simulation component spec fun _ => False where
  Idle := Idle
  Busy shared index state op future := ∃ last result,
    component.Completes (fun _ => False) index op shared future last result ∧
      spec.Answers state op result ∧ Idle last (index + 1) (spec.next state op)
  start := completes
  poll := by
    intro shared index state op future next progress busy polled
    obtain ⟨last, result, ran, right⟩ := busy
    cases ran with
    | finished polled' =>
        rw [polled] at polled'
        cases polled'
        exact right
    | running polled' rest =>
        rw [polled] at polled'
        cases polled'
        exact ⟨last, result, rest, right⟩
    | background impossible => exact impossible.elim
  idle_background _ impossible := impossible.elim
  busy_background _ impossible := impossible.elim
  completes := fun ⟨last, result, ran, _⟩ => ⟨last, result, ran⟩

end Async
