import Relos.Async.Implementation
import Relos.Engine.LogServers
import Relos.Log.SingleSegment

set_option autoImplicit false

/-! One engine over a log of its own. The log call that its loop awaits takes many steps, and
all of them together are one turn over one memory loglet. -/

namespace Relos

open Async Serial BaseEngine

/-! ### Turns and cursors -/

namespace BaseEngine

variable {Memory Choice : Type} {applicator : Applicator Memory Choice} {choice : Choice}
  {store : MemoryStore} {engine : BaseEngine Memory} {turn : LocalTurn Memory}

/-- The position that the loop reads next exists. -/
theorem localTurn_positive (positive : logPosBegin ≤ engine.cursor)
    (moved : engine.localTurn applicator choice store = some turn) :
    logPosBegin ≤ turn.engine.cursor := by
  unfold localTurn at moved
  split at moved
  · split at moved <;> cases moved
    exact positive
  · cases moved
    exact positive
  · split at moved <;> cases moved <;> exact positive
  · cases moved
    exact positive
  · cases moved
    exact Nat.le_succ_of_le positive
  · cases moved
  · cases moved

theorem resume_cursor {result : LogletResult} (moved : engine.resume store result = some turn) :
    turn.engine.cursor = engine.cursor := by
  unfold resume at moved
  split at moved
  · split at moved <;> cases moved <;> rfl
  · split at moved <;> cases moved <;> rfl
  · split at moved <;> cases moved <;> rfl
  · cases moved

theorem byLoop_of_logCall (positive : logPosBegin ≤ engine.cursor) {index : Nat} {op : LogletOp}
    (asking : engine.logCall = some (index, op)) : op.ByLoop := by
  obtain ⟨phase, -, called⟩ := serving_of_logCall asking
  unfold Phase.logCall at called
  split at called
  · cases called
    trivial
  · cases called
    trivial
  · split at called <;> cases called
    exact positive
  · cases called
  · cases called
  · cases called

end BaseEngine

/-! ### One engine -/

/-- The engine never stops, and its log has only its own tasks beside it. -/
def ServerEvent.IsSole {Memory Choice Op Event : Type} (quiet : Event → Prop) :
    ServerEvent Unit Memory Choice Op Event → Prop
  | .turn _ _ | .log (.poll _) => True
  | .log (.background event) => quiet event
  | .log (.start _) | .stop _ | .new _ _ => False

instance {Memory Choice Op Event : Type} (quiet : Event → Prop) [∀ event, Decidable (quiet event)] :
    (event : ServerEvent Unit Memory Choice Op Event) → Decidable (event.IsSole quiet)
  | .turn _ _ | .log (.poll _) => isTrue trivial
  | .log (.background event) => inferInstanceAs (Decidable (quiet event))
  | .log (.start _) | .stop _ | .new _ _ => isFalse id

def ReplicaEvent.IsTurn {Node Memory Choice : Type} : ReplicaEvent Node Memory Choice → Prop
  | .turn _ _ => True
  | .stop _ | .new _ _ => False

namespace Servers

variable {Memory Choice Shared Op Fut Event : Type}

/-- A server whose engine has been created on an empty store. -/
def started (shared : Shared) : Servers Unit Unit Shared Op Fut where
  log := .fresh shared
  stores _ := .new
  engines _ := (BaseEngine.new .new ()).toOption
  awaited _ := none
  created _ := 1
  replies _ := none
  purpose _ := none

end Servers

namespace SoleEngine

variable {Memory Choice Shared Op Fut Event : Type} {quiet : Event → Prop}
  {served : ServedLog Unit Shared Op Fut Event}
  (sim : Simulation served.component (loopSpec served.asks) quiet)

/-- How far the last call of the log is, on a log that held this memory loglet before it. -/
structure Asked (log : System Shared Op Fut LogletResult) (memory : MemoryLoglet) (index : Nat)
    (op : LogletOp) (asked : Op) : Prop where
  asks : served.asks asked = op
  last : log.calls.length = index + 1
  earlier : ∀ (other : Nat) call, log.calls[other]? = some call → other ≠ index → call.isReturned = true
  progress : ∃ progress : Progress Fut LogletResult, log.calls[index]? = some ⟨asked, progress⟩ ∧
    progress.Holds (sim.Busy log.shared index memory asked) fun result =>
      result = (memory.call op).2 ∧ sim.Idle log.shared (index + 1) (memory.call op).1

/-- The log of the server stands at the memory loglet of the replica, or has a call on its way
that the loop awaits. -/
structure Stands (servers : Servers Unit Memory Shared Op Fut) (replicas : Replicas Unit Memory) :
    Prop where
  stores : servers.stores = replicas.stores
  engines : servers.engines = replicas.engines
  replies : servers.replies = replicas.replies
  positive : ∀ engine, servers.engines () = some engine → logPosBegin ≤ engine.cursor
  resting : servers.awaited () = none → servers.log.Settled ∧
    sim.Idle servers.log.shared servers.log.calls.length replicas.log.loglet
  calling : ∀ index, servers.awaited () = some index → ∃ engine resultTx op asked,
    servers.engines () = some engine ∧ engine.logCall = some (resultTx, op) ∧
    Asked sim servers.log replicas.log.loglet index op asked

/-- The Vec of the loglet has room for what the loop appends. -/
def Ready (replicas : Replicas Unit Memory) : Prop :=
  ∀ engine resultTx op, replicas.engines () = some engine → engine.logCall = some (resultTx, op) →
    HasRoom replicas.log op

variable {sim} {log : System Shared Op Fut LogletResult} {memory : MemoryLoglet} {index : Nat}
  {op : LogletOp} {asked : Op} {servers next : Servers Unit Memory Shared Op Fut}
  {replicas : Replicas Unit Memory} {engine : BaseEngine Memory} {resultTx : Nat}

/-- Only the last call can be polled. -/
theorem Asked.pending (calling : Asked sim log memory index op asked) {other : Nat} {asked' : Op}
    {future : Fut} (pending : log.Pending other asked' future) :
    other = index ∧ asked' = asked ∧ sim.Busy log.shared index memory asked future := by
  have same : other = index := by
    by_contra different
    have impossible := calling.earlier other _ pending different
    cases impossible
  subst same
  obtain ⟨progress, found, holds⟩ := calling.progress
  cases Option.some.inj (found.symm.trans pending)
  exact ⟨rfl, rfl, holds⟩

theorem Asked.returned (calling : Asked sim log memory index op asked) {asked' : Op}
    {result : LogletResult} (returned : log.Returned index asked' result) :
    result = (memory.call op).2 ∧ sim.Idle log.shared log.calls.length (memory.call op).1 := by
  obtain ⟨progress, found, holds⟩ := calling.progress
  cases Option.some.inj (found.symm.trans returned)
  rw [calling.last]
  exact holds

theorem Asked.settled (calling : Asked sim log memory index op asked) {asked' : Op}
    {result : LogletResult} (returned : log.Returned index asked' result) : log.Settled := by
  intro call member
  obtain ⟨other, found⟩ := List.getElem?_of_mem member
  by_cases same : other = index
  · subst same
    cases Option.some.inj (found.symm.trans returned)
    rfl
  · exact calling.earlier other call found same

/-! ### Steps of the log -/

theorem Asked.poll (calling : Asked sim log memory index op asked) {polled : Nat}
    {log' : System Shared Op Fut LogletResult}
    (moved : served.component.machine.step log (.poll polled) = some log') :
    Asked sim log' memory index op asked := by
  obtain ⟨asked', future, shared, progress, pending, ran, rfl⟩ := Component.step_poll moved
  obtain ⟨rfl, rfl, busy⟩ := calling.pending pending
  have holds := sim.poll busy ran
  refine ⟨calling.asks, ?_, fun other call found different => ?_, progress, ?_, ?_⟩
  · rw [List.length_set]
    exact calling.last
  · rcases getElem?_poll found with ⟨same, -⟩ | ⟨-, earlier⟩
    · exact absurd same different
    · exact calling.earlier other call earlier different
  · exact List.getElem?_set_self (List.getElem?_eq_some_iff.mp pending).1
  · refine holds.imp (fun _ busy => busy) fun result answered => ?_
    obtain ⟨answers, idle⟩ := answered
    unfold loopSpec at answers idle
    dsimp only at answers idle
    rw [calling.asks] at answers idle
    exact ⟨answers, idle⟩

theorem Asked.background (calling : Asked sim log memory index op asked) {event : Event}
    (permitted : quiet event) {shared : Shared}
    (ran : served.component.background log.shared event = some shared) :
    Asked sim { log with shared := shared } memory index op asked := by
  obtain ⟨progress, found, holds⟩ := calling.progress
  refine ⟨calling.asks, calling.last, calling.earlier, progress, found, ?_⟩
  exact holds.imp (fun _ busy => sim.busy_background busy permitted ran)
    fun _ ⟨answers, idle⟩ => ⟨answers, sim.idle_background idle permitted ran⟩

/-- No replica sees what happens inside of the log. -/
theorem Stands.log_step (stands : Stands sim servers replicas) {action : Action Op Event}
    {log : System Shared Op Fut LogletResult}
    (permitted : Permits (fun _ => False) quiet servers.log action)
    (moved : served.component.machine.step servers.log action = some log) :
    Stands sim { servers with log := log } replicas := by
  refine ⟨stands.stores, stands.engines, stands.replies, stands.positive, fun resting => ?_,
    fun index waits => ?_⟩
  · obtain ⟨settled, idle⟩ := stands.resting resting
    cases action with
    | start => exact permitted.elim
    | poll polled =>
        obtain ⟨_, _, _, _, pending, -, -⟩ := Component.step_poll moved
        have impossible := settled _ (List.mem_of_getElem? pending)
        cases impossible
    | background event =>
        obtain ⟨shared, ran, rfl⟩ := Component.step_background moved
        exact ⟨settled, sim.idle_background idle permitted ran⟩
  · obtain ⟨engine, resultTx, op, asked, running, asking, calling⟩ := stands.calling index waits
    refine ⟨engine, resultTx, op, asked, running, asking, ?_⟩
    cases action with
    | start => exact permitted.elim
    | poll polled => exact calling.poll moved
    | background event =>
        obtain ⟨shared, ran, rfl⟩ := Component.step_background moved
        exact calling.background permitted ran

/-! ### Turns of the loop -/

variable {applicator : Applicator Memory Choice} {choice : Choice}

theorem asking_awaited : (servers.asking served () resultTx op).awaited () =
    some servers.log.calls.length := rfl

/-- The loop has taken a step with its log at rest. -/
theorem Stands.turned (stands : Stands sim servers replicas) {turn : LocalTurn Memory}
    {loglet : TrackedLoglet} (positive : logPosBegin ≤ turn.engine.cursor)
    (settled : servers.log.Settled)
    (idle : sim.Idle servers.log.shared servers.log.calls.length loglet.loglet) :
    Stands sim (servers.turned () turn)
      { log := loglet
        stores := Function.update replicas.stores () turn.store
        engines := Function.update replicas.engines () (some turn.engine)
        replies := Replicas.reply replicas.replies turn.reply } where
  stores := by
    unfold Servers.turned
    rw [stands.stores]
  engines := by
    unfold Servers.turned
    rw [stands.engines]
  replies := by
    unfold Servers.turned
    rw [stands.replies]
  positive engine running := by
    unfold Servers.turned at running
    dsimp only at running
    rw [Function.update_self] at running
    cases running
    exact positive
  resting _ := ⟨settled, idle⟩
  calling _ impossible := by
    unfold Servers.turned at impossible
    dsimp only at impossible
    rw [Function.update_self] at impossible
    cases impossible

/-- What the loop does without its log, it does in both. -/
theorem Stands.turn_local (applicator : Applicator Memory Choice) (choice : Choice)
    (stands : Stands sim servers replicas)
    (running : servers.engines () = some engine) (resting : engine.logCall = none) :
    Option.Rel (Stands sim) (Servers.background served applicator servers (.turn () choice))
      (Replicas.background applicator replicas (.turn () choice)) := by
  have idle : servers.awaited () = none := by
    cases waits : servers.awaited () with
    | none => rfl
    | some index =>
        obtain ⟨engine', resultTx, op, asked, running', asking, -⟩ := stands.calling index waits
        cases running.symm.trans running'
        cases resting.symm.trans asking
  have running' : replicas.engines () = some engine := stands.engines ▸ running
  unfold Servers.background Replicas.background
  dsimp only
  rw [running, running']
  dsimp only
  rw [turn_eq, resting]
  dsimp only
  rw [← stands.stores]
  cases moved : engine.localTurn applicator choice (servers.stores ()) with
  | none => exact .none
  | some turn =>
      obtain ⟨settled, idle⟩ := stands.resting idle
      exact .some (stands.turned (localTurn_positive (stands.positive engine running) moved) settled idle)

/-- The loop goes on with an answer, which is the one that the loglet of the replica gives. -/
theorem Stands.turn_answered (applicator : Applicator Memory Choice) (choice : Choice)
    (stands : Stands sim servers replicas)
    (running : servers.engines () = some engine) (asking : engine.logCall = some (resultTx, op))
    (waits : servers.awaited () = some index) {result : LogletResult}
    (returned : servers.log.Returned index asked result) (room : HasRoom replicas.log op) :
    Option.Rel (Stands sim) (Servers.background served applicator servers (.turn () choice))
      (Replicas.background applicator replicas (.turn () choice)) := by
  obtain ⟨engine', resultTx', op', asked', running', asking', calling⟩ := stands.calling index waits
  cases running.symm.trans running'
  cases asking.symm.trans asking'
  obtain ⟨rfl, idle⟩ := calling.returned returned
  have runs : replicas.engines () = some engine := stands.engines ▸ running
  unfold Servers.background Replicas.background
  dsimp only
  rw [running, runs]
  dsimp only
  rw [turn_eq, asking]
  dsimp only
  rw [waits, if_pos room, ← stands.stores]
  dsimp only
  rw [returned]
  dsimp only
  have answers : (replicas.log.call resultTx op).2 = (replicas.log.loglet.call op).2 := rfl
  rw [answers]
  cases moved : engine.resume (servers.stores ()) (replicas.log.loglet.call op).2 with
  | none => exact .none
  | some turn =>
      have positive : logPosBegin ≤ turn.engine.cursor := by
        rw [resume_cursor moved]
        exact stands.positive engine running
      exact .some (stands.turned positive (calling.settled returned) idle)

/-- The loop makes its log call. -/
theorem Stands.asking (stands : Stands sim servers replicas)
    (running : servers.engines () = some engine) (asking : engine.logCall = some (resultTx, op))
    (idle : servers.awaited () = none) :
    Stands sim (servers.asking served () resultTx op) replicas := by
  obtain ⟨settled, rests⟩ := stands.resting idle
  refine ⟨stands.stores, stands.engines, stands.replies, stands.positive, fun impossible => ?_,
    fun index waits => ?_⟩
  · cases asking_awaited.symm.trans impossible
  · cases asking_awaited.symm.trans waits
    refine ⟨engine, resultTx, op, _, running, asking, served.asks_ask () _ op, List.length_append,
      fun other call found different => ?_, _, List.getElem?_concat_length, ?_⟩
    · rcases getElem?_of_concat found with earlier | ⟨same, -⟩
      · exact settled call (List.mem_of_getElem? earlier)
      · exact absurd same different
    · refine sim.start rests ?_
      unfold loopSpec
      dsimp only
      rw [served.asks_ask]
      exact byLoop_of_logCall (stands.positive engine running) asking

/-- A request is queued. -/
theorem Stands.enqueue (stands : Stands sim servers replicas)
    (running : servers.engines () = some engine) (request : ApplyRequest) :
    Stands sim
      (servers.setEngine () (some { engine with requests := engine.requests ++ [request] }))
      (replicas.setEngine () (some { engine with requests := engine.requests ++ [request] })) where
  stores := stands.stores
  engines := by
    unfold Servers.setEngine Replicas.setEngine
    rw [stands.engines]
  replies := stands.replies
  positive engine' running' := by
    unfold Servers.setEngine at running'
    dsimp only at running'
    rw [Function.update_self] at running'
    cases running'
    exact stands.positive engine running
  resting := stands.resting
  calling index waits := by
    obtain ⟨engine', resultTx, op, asked, running', asking, calling⟩ := stands.calling index waits
    cases running.symm.trans running'
    exact ⟨_, resultTx, op, asked, rfl, asking, calling⟩

/-! ### The engine and the replica -/

theorem Stands.background (stands : Stands sim servers replicas) (ready : Ready replicas)
    {event : ServerEvent Unit Memory Choice Op Event} (permitted : event.IsSole quiet)
    (ran : Servers.background served applicator servers event = some next) :
    Stands sim next replicas ∨ ∃ event' next', ReplicaEvent.IsTurn event' ∧
      Replicas.background applicator replicas event' = some next' ∧ Stands sim next next' := by
  cases event with
  | log action =>
      obtain ⟨log, moved, rfl⟩ := Option.map_eq_some_iff.mp ran
      have steps : Permits (fun _ => False) quiet servers.log action := by
        cases action <;> exact permitted
      exact Or.inl (stands.log_step steps moved)
  | turn node choice =>
      have turns : ∀ {outcome}, outcome = some next → Option.Rel (Stands sim) outcome
          (Replicas.background applicator replicas (.turn () choice)) →
          ∃ event' next', ReplicaEvent.IsTurn event' ∧
            Replicas.background applicator replicas event' = some next' ∧ Stands sim next next' := by
        rintro outcome rfl both
        obtain ⟨next', ran', stands'⟩ := rel_left both
        exact ⟨.turn () choice, next', trivial, ran', stands'⟩
      obtain ⟨engine, running, ⟨resting, -⟩ | ⟨resultTx, op, asking, ⟨idle, rfl⟩ | answered⟩⟩ :=
        Servers.turn_cases ran
      · exact Or.inr (turns ran (stands.turn_local applicator choice running resting))
      · exact Or.inl (stands.asking running asking idle)
      · obtain ⟨call, asked, result, turn, waits, returned, -, -⟩ := answered
        exact Or.inr (turns ran (stands.turn_answered applicator choice running asking waits returned
          (ready engine resultTx op (stands.engines ▸ running) asking)))
  | stop | new => exact permitted.elim

/-- The log alone takes steps. -/
theorem Stands.log_run (stands : Stands sim servers replicas)
    (enter : Unit → Memory → EngineOp → Result EngineOp) {log : System Shared Op Fut LogletResult}
    (run : served.component.machine.Run (Permits (fun _ => False) quiet) servers.log log) :
    (serverComponent served enter applicator).tasks.Run (Quietly (ServerEvent.IsSole quiet)) servers
      { servers with log := log } ∧ Stands sim { servers with log := log } replicas := by
  induction run with
  | refl => exact ⟨.refl _, stands⟩
  | @tail middle last action _ permitted moved ih =>
      obtain ⟨run, stands⟩ := ih
      have ran : Servers.background served applicator { servers with log := middle } (.log action) =
          some { servers with log := last } := by
        unfold Servers.background
        dsimp only
        rw [moved, Option.map_some]
      have permitted' : Quietly (ServerEvent.IsSole quiet) ({ servers with log := middle } :
          Servers Unit Memory Shared Op Fut) (.log action : ServerEvent Unit Memory Choice Op Event) := by
        cases action <;> exact permitted
      exact ⟨.tail run permitted' ran, stands.log_step permitted moved⟩

/-- A loop that awaits its log gets an answer. -/
theorem Stands.answered (stands : Stands sim servers replicas)
    (enter : Unit → Memory → EngineOp → Result EngineOp) (waits : servers.awaited () = some index) :
    ∃ log asked result, (serverComponent served enter applicator).tasks.Run
        (Quietly (ServerEvent.IsSole quiet)) servers { servers with log := log } ∧
      Stands sim { servers with log := log } replicas ∧ log.Returned index asked result := by
  obtain ⟨engine, resultTx, op, asked, -, -, calling⟩ := stands.calling index waits
  obtain ⟨progress, found, holds⟩ := calling.progress
  cases progress with
  | finished result => exact ⟨servers.log, asked, result, .refl _, stands, found⟩
  | running future =>
      obtain ⟨last, result, completes⟩ := sim.completes holds
      have run : served.component.machine.Run (Permits (fun _ => False) quiet) servers.log _ :=
        completes.run (fun _ => trivial) (fun _ _ permitted => permitted) found
      obtain ⟨run', stands'⟩ := stands.log_run enter run
      exact ⟨_, asked, result, run', stands',
        List.getElem?_set_self (List.getElem?_eq_some_iff.mp found).1⟩

/-- Where the replica takes a turn, the engine can take it, with what its log needs. -/
theorem Stands.follow (stands : Stands sim servers replicas)
    (enter : Unit → Memory → EngineOp → Result EngineOp)
    {event' : ReplicaEvent Unit Memory Choice} (permitted : event'.IsTurn)
    {next' : Replicas Unit Memory}
    (ran : Replicas.background applicator replicas event' = some next') :
    ∃ next, (serverComponent served enter applicator).tasks.Run (Quietly (ServerEvent.IsSole quiet))
      servers next ∧ Stands sim next next' := by
  cases event' with
  | turn node choice =>
      have turns : Quietly (ServerEvent.IsSole quiet) servers
          (.turn () choice : ServerEvent Unit Memory Choice Op Event) := trivial
      cases running : servers.engines () with
      | none =>
          unfold Replicas.background at ran
          dsimp only at ran
          rw [← stands.engines, running] at ran
          cases ran
      | some engine =>
          cases asking : engine.logCall with
          | none =>
              have both := stands.turn_local applicator choice running asking
              rw [ran] at both
              obtain ⟨next, ran', stands'⟩ := rel_right both
              exact ⟨next, .single turns ran', stands'⟩
          | some call =>
              obtain ⟨resultTx, op⟩ := call
              have room : HasRoom replicas.log op := by
                by_contra full
                unfold Replicas.background at ran
                dsimp only at ran
                rw [← stands.engines, running] at ran
                dsimp only at ran
                rw [turn_eq, asking] at ran
                dsimp only at ran
                rw [if_neg full] at ran
                cases ran
              -- The loop makes its call, unless it has done so, and waits for the answer.
              obtain ⟨middle, before, stands₁, engines, index, waits⟩ : ∃ middle,
                  (serverComponent served enter applicator).tasks.Run
                    (Quietly (ServerEvent.IsSole quiet)) servers middle ∧
                  Stands sim middle replicas ∧ middle.engines = servers.engines ∧
                  ∃ index, middle.awaited () = some index := by
                cases waits : servers.awaited () with
                | some index => exact ⟨servers, .refl _, stands, rfl, index, waits⟩
                | none =>
                    have asks : Servers.background served applicator servers (.turn () choice) =
                        some (servers.asking served () resultTx op) := by
                      unfold Servers.background
                      dsimp only
                      rw [running]
                      dsimp only
                      rw [asking]
                      dsimp only
                      rw [waits]
                    exact ⟨_, .single turns asks, stands.asking running asking waits, rfl, _,
                      asking_awaited⟩
              obtain ⟨log, asked, result, meanwhile, stands₂, returned⟩ := stands₁.answered enter waits
              have both := stands₂.turn_answered applicator choice
                (engines ▸ running) asking waits returned room
              rw [ran] at both
              obtain ⟨next, ran', stands'⟩ := rel_right both
              have turns' : Quietly (ServerEvent.IsSole quiet) ({ middle with log := log } :
                  Servers Unit Memory Shared Op Fut)
                  (.turn () choice : ServerEvent Unit Memory Choice Op Event) := trivial
              exact ⟨next, (before.trans meanwhile).trans (.single turns' ran'), stands'⟩
  | stop | new => exact permitted.elim

def future : Servers.Future → Replicas.Future
  | .enter => .enter
  | .send op => .send op
  | .receive => .receive

theorem Stands.poll (stands : Stands sim servers replicas)
    (enter : Unit → Memory → EngineOp → Result EngineOp) (index : Nat) (call : Unit × EngineOp)
    (current : Servers.Future) :
    Option.Rel (fun (outcome : Servers Unit Memory Shared Op Fut × Progress Servers.Future EngineResult)
        (outcome' : Replicas Unit Memory × Progress Replicas.Future EngineResult) =>
      Stands sim outcome.1 outcome'.1 ∧ outcome'.2 = outcome.2.map future)
      (Servers.poll enter servers index call current)
      (Replicas.poll enter replicas index (.engine call.1 call.2) (future current)) := by
  obtain ⟨⟨⟩, op⟩ := call
  cases current with
  | enter =>
      unfold Servers.poll Replicas.poll
      dsimp only [future]
      rw [stands.engines]
      cases replicas.engines () with
      | none => exact .some ⟨stands, rfl⟩
      | some engine =>
          dsimp only
          cases enter () engine.memory op with
          | ok op => exact .some ⟨stands, rfl⟩
          | error error => exact .some ⟨stands, rfl⟩
  | send op =>
      unfold Servers.poll Replicas.poll
      dsimp only [future]
      rw [← stands.engines]
      cases running : servers.engines () with
      | none => exact .some ⟨stands, rfl⟩
      | some engine =>
          refine .some ⟨?_, rfl⟩
          exact stands.enqueue running ⟨op, index⟩
  | receive =>
      unfold Servers.poll Replicas.poll
      dsimp only [future]
      rw [stands.replies]
      cases replicas.replies index with
      | none => exact .none
      | some result => exact .some ⟨stands, rfl⟩

end SoleEngine

open SoleEngine in
/-- An engine over its own log is a replica over one memory loglet. -/
def soleEngine {Memory Choice Shared Op Fut Event : Type} {quiet : Event → Prop}
    {served : ServedLog Unit Shared Op Fut Event}
    (sim : Simulation served.component (loopSpec served.asks) quiet)
    (enter : Unit → Memory → EngineOp → Result EngineOp) (applicator : Applicator Memory Choice) :
    Implementation (serverComponent served enter applicator) (replicaComponent enter applicator)
      (fun call => .engine call.1 call.2) (ServerEvent.IsSole quiet) ReplicaEvent.IsTurn Ready where
  Stands := Stands sim
  future := future
  begin _ := rfl
  poll index call current stands := stands.poll enter index call current
  background stands ready permitted ran := stands.background ready permitted ran
  follow stands permitted ran := stands.follow enter permitted ran

end Relos
