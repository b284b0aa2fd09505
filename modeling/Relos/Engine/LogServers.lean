import Relos.Async.Sequential
import Relos.Engine.BaseEngine

set_option autoImplicit false

/-! Engines over a log that is itself a component: the log call of an apply loop runs beside
the calls of everybody else, and takes as many steps as the log needs. -/

namespace Relos

open Async Serial BaseEngine

/-- What one step of an apply loop may change, apart from its log. -/
structure LocalTurn (Memory : Type) where
  store : MemoryStore
  engine : BaseEngine Memory
  reply : Option (Nat × EngineResult)

namespace LocalTurn

variable {Memory : Type}

def onLog (turn : LocalTurn Memory) (log : TrackedLoglet) : Turn Memory :=
  { log := log, store := turn.store, engine := turn.engine, reply := turn.reply }

def goOn (store : MemoryStore) (engine : BaseEngine Memory) (resultTx : Nat) (phase : Phase) :
    LocalTurn Memory :=
  { store := store, engine := { engine with serving := some (resultTx, phase) }, reply := none }

def answer (store : MemoryStore) (engine : BaseEngine Memory) (resultTx : Nat)
    (result : EngineResult) : LocalTurn Memory :=
  { store := store, engine := { engine with serving := none }, reply := some (resultTx, result) }

end LocalTurn

namespace BaseEngine

variable {Memory Choice : Type}

/-- The log call that the loop awaits at this point. -/
def Phase.logCall (cursor : Nat) : Phase → Option LogletOp
  | .append entry => some (.append entry)
  | .checkTail => some .checkTail
  | .play handler => if handler.continues cursor then some (.read cursor) else none
  | .read _ _ | .staged _ _ _ | .committed _ _ => none

def logCall (engine : BaseEngine Memory) : Option (Nat × LogletOp) :=
  engine.serving.bind fun current =>
    (current.2.logCall engine.cursor).map fun op => (current.1, op)

/-- The loop goes on with what its log answered. -/
def resume (store : MemoryStore) (engine : BaseEngine Memory) (result : LogletResult) :
    Option (LocalTurn Memory) :=
  match engine.serving with
  | some (resultTx, .append _) =>
      match result with
      | .ok (.pos targetPos) =>
          some (.goOn store engine resultTx (.play (.propose targetPos .success)))
      | .ok _ => none
      | .error error => some (.answer store engine resultTx (.error error))
  | some (resultTx, .checkTail) =>
      match result with
      | .ok (.pos tail) => some (.goOn store engine resultTx (.play (.sync tail)))
      | .ok _ => none
      | .error error => some (.answer store engine resultTx (.error error))
  | some (resultTx, .play handler) =>
      match result with
      | .ok (.entry (some entry)) => some (.goOn store engine resultTx (.read handler entry))
      | .ok (.entry none) => some (.answer store engine resultTx
          (.error (.internal s!"expected entry at position {engine.cursor} but got None")))
      | .ok _ => none
      | .error error => some (.answer store engine resultTx (.error error))
  | _ => none

/-- The steps of the loop that are not log calls. -/
def localTurn (applicator : Applicator Memory Choice) (choice : Choice) (store : MemoryStore)
    (engine : BaseEngine Memory) : Option (LocalTurn Memory) :=
  match engine.serving with
  | none =>
      match engine.requests with
      | [] => none
      | request :: requests => some (.goOn store { engine with requests := requests }
          request.resultTx (.start request.op))
  | some (resultTx, .play handler) => some (.answer store engine resultTx handler.result)
  | some (resultTx, .read handler entry) =>
      match applicator.apply choice engine.memory store.beginWriteTxn entry engine.cursor with
      | (memory, .ok (txn, rv)) => some (.goOn store { engine with memory := memory } resultTx
          (.staged handler (txn.put cursorKey (toLeBytes 8 (engine.cursor + 1))) rv))
      | (memory, .error error) =>
          some (.answer store { engine with memory := memory } resultTx (.error error))
  | some (resultTx, .staged handler txn rv) =>
      some (.goOn txn.commit engine resultTx (.committed handler rv))
  | some (resultTx, .committed handler rv) =>
      some (.goOn store { engine with cursor := engine.cursor + 1 } resultTx
        (.play (handler.applied engine.cursor rv)))
  | some (_, .append _) | some (_, .checkTail) => none

theorem logCall_idle {engine : BaseEngine Memory} (idle : engine.serving = none) :
    engine.logCall = none := by
  unfold logCall
  rw [idle]
  rfl

theorem logCall_serving {engine : BaseEngine Memory} {resultTx : Nat} {phase : Phase}
    (serving : engine.serving = some (resultTx, phase)) :
    engine.logCall = (phase.logCall engine.cursor).map fun op => (resultTx, op) := by
  unfold logCall
  rw [serving]
  rfl

theorem serving_of_logCall {engine : BaseEngine Memory} {resultTx : Nat} {op : LogletOp}
    (asking : engine.logCall = some (resultTx, op)) :
    ∃ phase, engine.serving = some (resultTx, phase) ∧ phase.logCall engine.cursor = some op := by
  obtain ⟨⟨index, phase⟩, serving, called⟩ := Option.bind_eq_some_iff.mp asking
  obtain ⟨_, made, same⟩ := Option.map_eq_some_iff.mp called
  cases same
  exact ⟨phase, serving, made⟩

/-- The Vec of a memory loglet has room for what the call appends. -/
def HasRoom (log : TrackedLoglet) (op : LogletOp) : Prop :=
  op.IsAppend → log.loglet.entries.length < vecCapacity

instance (log : TrackedLoglet) : (op : LogletOp) → Decidable (HasRoom log op)
  | .append _ => decidable_of_iff (log.loglet.entries.length < vecCapacity)
      ⟨fun room _ => room, fun room => room trivial⟩
  | .checkTail | .read _ | .trim _ | .seal => isTrue fun impossible => impossible.elim

theorem call_read (log : TrackedLoglet) (index pos : Nat) :
    log.call index (.read pos) = (log, (log.loglet.read pos).map .entry) := rfl

/-- A turn over one memory loglet is a step of the loop's own, or one call of the loglet with
its answer. -/
theorem turn_eq (applicator : Applicator Memory Choice) (choice : Choice) (log : TrackedLoglet)
    (store : MemoryStore) (engine : BaseEngine Memory) :
    engine.turn applicator choice log store =
      match engine.logCall with
      | none => (engine.localTurn applicator choice store).map fun turn => turn.onLog log
      | some (resultTx, op) =>
          if HasRoom log op then
            (engine.resume store (log.call resultTx op).2).map fun turn =>
              turn.onLog (log.call resultTx op).1
          else none := by
  cases serving : engine.serving with
  | none =>
      rw [logCall_idle serving]
      unfold turn localTurn
      rw [serving]
      cases engine.requests <;> rfl
  | some current =>
      obtain ⟨resultTx, phase⟩ := current
      rw [logCall_serving serving]
      unfold turn
      rw [serving]
      cases phase with
      | append entry =>
          dsimp only [Phase.logCall, Option.map_some]
          by_cases room : log.loglet.entries.length < vecCapacity
          · have roomy : HasRoom log (.append entry) := fun _ => room
            rw [if_pos room, if_pos roomy]
            unfold resume
            rw [serving]
            dsimp only
            cases isSealed : log.loglet.sealed with
            | false =>
                simp only [TrackedLoglet.call, MemoryLoglet.call, MemoryLoglet.append_open isSealed]
                rfl
            | true =>
                simp only [TrackedLoglet.call, MemoryLoglet.call, MemoryLoglet.append_sealed isSealed]
                rfl
          · rw [if_neg room, if_neg fun roomy => room (roomy trivial)]
      | checkTail =>
          have roomy : HasRoom log .checkTail := fun impossible => impossible.elim
          dsimp only [Phase.logCall, Option.map_some]
          rw [if_pos roomy]
          unfold resume
          rw [serving]
          rfl
      | play handler =>
          have roomy : HasRoom log (.read engine.cursor) := fun impossible => impossible.elim
          unfold Phase.logCall resume localTurn
          rw [serving]
          dsimp only
          cases continues : handler.continues engine.cursor with
          | false => rfl
          | true =>
              simp only [if_true, Option.map_some]
              rw [if_pos roomy]
              rw [call_read]
              rcases log.loglet.read engine.cursor with error | found | entry <;> rfl
      | read handler entry =>
          unfold Phase.logCall localTurn
          rw [serving]
          dsimp only [Option.map_none]
          rcases applicator.apply choice engine.memory store.beginWriteTxn entry engine.cursor with
            ⟨memory, error | ⟨txn, rv⟩⟩ <;> rfl
      | staged handler txn rv =>
          unfold Phase.logCall localTurn
          rw [serving]
          rfl
      | committed handler rv =>
          unfold Phase.logCall localTurn
          rw [serving]
          rfl

end BaseEngine

/-! ### Servers -/

/-- Engines named by `Node` over one log. `awaited` is the log call that a loop has in
flight, `created` counts the engines that a node has had, and `purpose` names the request
that a log call was made for; only statements read `purpose`. -/
structure Servers (Node Memory Shared Op Fut : Type) where
  log : System Shared Op Fut LogletResult
  stores : Node → MemoryStore
  engines : Node → Option (BaseEngine Memory)
  awaited : Node → Option Nat
  created : Node → Nat
  replies : Nat → Option EngineResult
  purpose : Nat → Option Nat

/-- The log takes a step; the others are the events of replicas. -/
inductive ServerEvent (Node Memory Choice Op Event : Type) where
  | log (action : Action Op Event)
  | turn (node : Node) (choice : Choice)
  | stop (node : Node)
  | new (node : Node) (memory : Memory)

/-- A log, and the operation with which the engine that was created at this count on a node
makes a call. -/
structure ServedLog (Node Shared Op Fut Event : Type) where
  component : Component Shared Op Fut LogletResult Event
  ask : Node → Nat → LogletOp → Op
  asks : Op → LogletOp
  asks_ask : ∀ node created op, asks (ask node created op) = op

namespace Servers

variable {Node Memory Choice Shared Op Fut Event : Type}

inductive Future where
  | enter
  | send (op : EngineOp)
  | receive
deriving DecidableEq

def new (shared : Shared) : Servers Node Memory Shared Op Fut where
  log := .fresh shared
  stores _ := .new
  engines _ := none
  awaited _ := none
  created _ := 0
  replies _ := none
  purpose _ := none

variable [DecidableEq Node]

def setEngine (servers : Servers Node Memory Shared Op Fut) (node : Node)
    (engine : Option (BaseEngine Memory)) : Servers Node Memory Shared Op Fut :=
  { servers with engines := Function.update servers.engines node engine }

def poll (enter : Node → Memory → EngineOp → Result EngineOp)
    (servers : Servers Node Memory Shared Op Fut) (index : Nat) (call : Node × EngineOp) :
    Future → Option (Servers Node Memory Shared Op Fut × Progress Future EngineResult)
  | .enter =>
      match servers.engines call.1 with
      | some engine =>
          match enter call.1 engine.memory call.2 with
          | .ok op => some (servers, .running (.send op))
          | .error error => some (servers, .finished (.error error))
      | none => some (servers, .finished Replicas.shutDown)
  | .send op =>
      match servers.engines call.1 with
      | some engine =>
          some (servers.setEngine call.1
            (some { engine with requests := engine.requests ++ [⟨op, index⟩] }), .running .receive)
      | none => some (servers, .finished Replicas.shutDown)
  | .receive => (servers.replies index).map fun result => (servers, .finished result)

/-- The loop of a node has taken a step. -/
def turned (servers : Servers Node Memory Shared Op Fut) (node : Node) (turn : LocalTurn Memory) :
    Servers Node Memory Shared Op Fut :=
  { servers with
    stores := Function.update servers.stores node turn.store
    engines := Function.update servers.engines node (some turn.engine)
    awaited := Function.update servers.awaited node none
    replies := Replicas.reply servers.replies turn.reply }

/-- The loop of a node makes its log call. -/
def asking (served : ServedLog Node Shared Op Fut Event)
    (servers : Servers Node Memory Shared Op Fut) (node : Node) (resultTx : Nat) (op : LogletOp) :
    Servers Node Memory Shared Op Fut :=
  let asked := served.ask node (servers.created node) op
  { servers with
    log := { servers.log with
      calls := servers.log.calls ++ [⟨asked, .running (served.component.begin asked)⟩] }
    awaited := Function.update servers.awaited node (some servers.log.calls.length)
    purpose := Function.update servers.purpose servers.log.calls.length (some resultTx) }

/-- The engine of a node stops. The log call that it drops stays where it is. -/
def stopped (servers : Servers Node Memory Shared Op Fut) (node : Node)
    (engine : BaseEngine Memory) : Servers Node Memory Shared Op Fut :=
  { servers.setEngine node none with
    awaited := Function.update servers.awaited node none
    replies := fun index =>
      if index ∈ engine.unanswered then some Replicas.dropped else servers.replies index }

/-- An engine is created on a node. -/
def opened (servers : Servers Node Memory Shared Op Fut) (node : Node)
    (engine : BaseEngine Memory) : Servers Node Memory Shared Op Fut :=
  { servers.setEngine node (some engine) with
    created := Function.update servers.created node (servers.created node + 1) }

def background (served : ServedLog Node Shared Op Fut Event)
    (applicator : Applicator Memory Choice) (servers : Servers Node Memory Shared Op Fut) :
    ServerEvent Node Memory Choice Op Event → Option (Servers Node Memory Shared Op Fut)
  | .log action =>
      (served.component.machine.step servers.log action).map fun log => { servers with log := log }
  | .turn node choice =>
      match servers.engines node with
      | none => none
      | some engine =>
          match engine.logCall with
          | none => (engine.localTurn applicator choice (servers.stores node)).map
              (servers.turned node)
          | some (resultTx, op) =>
              match servers.awaited node with
              | none => some (servers.asking served node resultTx op)
              | some index =>
                  match servers.log.calls[index]? with
                  | some ⟨_, .finished result⟩ =>
                      (engine.resume (servers.stores node) result).map (servers.turned node)
                  | _ => none
  | .stop node =>
      match servers.engines node with
      | some engine => some (servers.stopped node engine)
      | none => none
  | .new node memory =>
      match servers.engines node with
      | some _ => none
      | none =>
          match BaseEngine.new (servers.stores node) memory with
          | .ok engine => some (servers.opened node engine)
          | .error _ => some servers

/-- A turn of a loop is a step of its own, the start of its log call, or what it makes of the
answer. -/
theorem turn_cases {served : ServedLog Node Shared Op Fut Event}
    {applicator : Applicator Memory Choice} {servers next : Servers Node Memory Shared Op Fut}
    {node : Node} {choice : Choice}
    (ran : background served applicator servers (.turn node choice) = some next) :
    ∃ engine, servers.engines node = some engine ∧
      ((engine.logCall = none ∧ ∃ turn,
          engine.localTurn applicator choice (servers.stores node) = some turn ∧
          next = servers.turned node turn) ∨
        ∃ resultTx op, engine.logCall = some (resultTx, op) ∧
          ((servers.awaited node = none ∧ next = servers.asking served node resultTx op) ∨
            ∃ call asked result turn, servers.awaited node = some call ∧
              servers.log.Returned call asked result ∧
              engine.resume (servers.stores node) result = some turn ∧
              next = servers.turned node turn)) := by
  unfold background at ran
  dsimp only at ran
  split at ran
  · cases ran
  · rename_i engine running
    refine ⟨engine, running, ?_⟩
    split at ran
    · rename_i resting
      obtain ⟨turn, turned, rfl⟩ := Option.map_eq_some_iff.mp ran
      exact Or.inl ⟨resting, turn, turned, rfl⟩
    · rename_i resultTx op asking
      refine Or.inr ⟨resultTx, op, asking, ?_⟩
      split at ran
      · rename_i idle
        cases ran
        exact Or.inl ⟨idle, rfl⟩
      · rename_i call waiting
        split at ran
        · rename_i asked result returned
          obtain ⟨turn, turned, rfl⟩ := Option.map_eq_some_iff.mp ran
          exact Or.inr ⟨call, asked, result, turn, waiting, returned, turned, rfl⟩
        · cases ran

theorem asking_log (served : ServedLog Node Shared Op Fut Event)
    (servers : Servers Node Memory Shared Op Fut) (node : Node) (resultTx : Nat) (op : LogletOp) :
    served.component.machine.step servers.log (.start (served.ask node (servers.created node) op)) =
      some (servers.asking served node resultTx op).log := rfl

end Servers

def serverComponent {Node Memory Choice Shared Op Fut Event : Type} [DecidableEq Node]
    (served : ServedLog Node Shared Op Fut Event)
    (enter : Node → Memory → EngineOp → Result EngineOp) (applicator : Applicator Memory Choice) :
    Component (Servers Node Memory Shared Op Fut) (Node × EngineOp) Servers.Future EngineResult
      (ServerEvent Node Memory Choice Op Event) where
  begin _ := .enter
  poll := Servers.poll enter
  background := Servers.background served applicator

namespace Servers

variable {Node Memory Choice Shared Op Fut Event : Type} [DecidableEq Node]
  {served : ServedLog Node Shared Op Fut Event} {applicator : Applicator Memory Choice}
  {enter : Node → Memory → EngineOp → Result EngineOp}

theorem poll_log {servers next : Servers Node Memory Shared Op Fut} {index : Nat}
    {call : Node × EngineOp} {future : Future} {progress : Progress Future EngineResult}
    (polled : poll enter servers index call future = some (next, progress)) :
    next.log = servers.log ∧ next.purpose = servers.purpose := by
  cases future with
  | enter =>
      simp only [poll] at polled
      split at polled
      · split at polled <;> cases polled <;> exact ⟨rfl, rfl⟩
      · cases polled
        exact ⟨rfl, rfl⟩
  | send op =>
      simp only [poll] at polled
      split at polled <;> cases polled <;> exact ⟨rfl, rfl⟩
  | receive =>
      obtain ⟨_, _, same⟩ := Option.map_eq_some_iff.mp polled
      cases same
      exact ⟨rfl, rfl⟩

/-- What a step of the servers is for their log. -/
theorem step_log {system next : System (Servers Node Memory Shared Op Fut) (Node × EngineOp)
      Future EngineResult}
    {action : Action (Node × EngineOp) (ServerEvent Node Memory Choice Op Event)}
    (moved : (serverComponent served enter applicator).machine.step system action = some next) :
    next.shared.log = system.shared.log ∨
      (∃ logAction, action = .background (.log logAction) ∧
        served.component.machine.step system.shared.log logAction = some next.shared.log) ∨
      ∃ node choice engine resultTx op, action = .background (.turn node choice) ∧
        system.shared.engines node = some engine ∧ engine.logCall = some (resultTx, op) ∧
        system.shared.awaited node = none ∧
        next.shared = system.shared.asking served node resultTx op := by
  cases action with
  | start op =>
      rw [Component.step_start moved]
      exact Or.inl rfl
  | poll index =>
      obtain ⟨op, future, shared, progress, _, polled, rfl⟩ := Component.step_poll moved
      exact Or.inl (poll_log polled).1
  | background event =>
      obtain ⟨shared, ran, rfl⟩ := Component.step_background moved
      cases event with
      | log logAction =>
          obtain ⟨log, stepped, rfl⟩ := Option.map_eq_some_iff.mp ran
          exact Or.inr (Or.inl ⟨logAction, rfl, stepped⟩)
      | turn node choice =>
          obtain ⟨engine, running, ⟨_, turn, _, rfl⟩ | ⟨resultTx, op, asking, cases⟩⟩ := turn_cases ran
          · exact Or.inl rfl
          · rcases cases with ⟨idle, rfl⟩ | ⟨_, _, _, _, _, _, _, rfl⟩
            · exact Or.inr (Or.inr ⟨node, choice, engine, resultTx, op, rfl, running, asking, idle,
                rfl⟩)
            · exact Or.inl rfl
      | stop node =>
          simp only [serverComponent, background] at ran
          split at ran
          · cases ran
            exact Or.inl rfl
          · cases ran
      | new node memory =>
          simp only [serverComponent, background] at ran
          split at ran
          · cases ran
          · split at ran <;> cases ran <;> exact Or.inl rfl

end Servers

end Relos
