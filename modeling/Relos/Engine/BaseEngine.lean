import Relos.Log.MemoryLoglet
import Relos.Serial.LittleEndian
import Relos.Store.MemoryStore
import Mathlib.Logic.Function.Basic

set_option autoImplicit false

/-! The engine at the bottom of every stack: its apply loop, one step at a time,
and replicas that run it over one shared memory loglet. -/

namespace Relos

open Async Serial

inductive ReturnValue where
  | success
  | data (bytes : Bytes)
deriving DecidableEq

/-- `Memory` is what an applicator keeps outside the store, and `Choice` whatever
else an apply depends on. A failed apply leaves its memory changed; its
transaction is dropped. -/
structure Applicator (Memory Choice : Type) where
  apply : Choice → Memory → MemoryWriteTx → Entry → Nat →
    Memory × Result (MemoryWriteTx × ReturnValue)

/-- The operations of the `Engine` trait. -/
inductive EngineOp where
  | propose (entry : Entry)
  | sync
deriving DecidableEq

/-- `propose` returns what its apply returned, `sync` a position. -/
inductive EngineValue where
  | returned (value : ReturnValue)
  | pos (pos : Nat)
deriving DecidableEq

abbrev EngineResult := Result EngineValue

instance : DecidableEq EngineResult := inferInstanceAs (DecidableEq (Except RelosError EngineValue))

/-- `result_tx` is named by the call that waits for it. -/
structure ApplyRequest where
  op : EngineOp
  resultTx : Nat
deriving DecidableEq

namespace BaseEngine

def cursorKey : Bytes := utf8 "__cursor__"

/-- What `BaseEngine::new` reads from the store. -/
def persistedCursor (store : MemoryStore) : Result Nat :=
  match store.get cursorKey with
  | some bytes =>
      if bytes.length = 8 then .ok (fromLeBytes bytes) else .error (.store "invalid cursor bytes")
  | none => .ok logPosBegin

/-- The locals of `handle_propose` and `handle_sync` while they play forward. -/
inductive Handler where
  | propose (targetPos : Nat) (targetReturn : ReturnValue)
  | sync (tail : Nat)
deriving DecidableEq

/-- The conditions of the two loops. -/
def Handler.continues (cursor : Nat) : Handler → Bool
  | .propose targetPos _ => cursor ≤ targetPos
  | .sync tail => cursor < tail

def Handler.applied (cursor : Nat) (rv : ReturnValue) : Handler → Handler
  | .propose targetPos targetReturn =>
      .propose targetPos (if cursor = targetPos then rv else targetReturn)
  | .sync tail => .sync tail

def Handler.result : Handler → EngineResult
  | .propose _ targetReturn => .ok (.returned targetReturn)
  | .sync tail => .ok (.pos tail)

/-- Where the apply loop stands within a request. The middle three are the
points of `apply_one` before `apply`, before `commit` and after it. -/
inductive Phase where
  | append (entry : Entry)
  | checkTail
  | play (handler : Handler)
  | read (handler : Handler) (entry : Entry)
  | staged (handler : Handler) (txn : MemoryWriteTx) (rv : ReturnValue)
  | committed (handler : Handler) (rv : ReturnValue)
deriving DecidableEq

def Phase.start : EngineOp → Phase
  | .propose entry => .append entry
  | .sync => .checkTail

end BaseEngine

/-- What the apply loop of one engine holds. -/
structure BaseEngine (Memory : Type) where
  cursor : Nat
  requests : List ApplyRequest
  serving : Option (Nat × BaseEngine.Phase)
  memory : Memory

/-- What one step of an apply loop may change. -/
structure Turn (Memory : Type) where
  log : TrackedLoglet
  store : MemoryStore
  engine : BaseEngine Memory
  reply : Option (Nat × EngineResult)

namespace BaseEngine

variable {Memory Choice : Type}

/-- `BaseEngine::new` -/
def new (store : MemoryStore) (memory : Memory) : Result (BaseEngine Memory) :=
  (persistedCursor store).map fun cursor =>
    { cursor := cursor, requests := [], serving := none, memory := memory }

theorem new_memory {store : MemoryStore} {memory : Memory} {engine : BaseEngine Memory}
    (opened : new store memory = .ok engine) : engine.memory = memory := by
  unfold new at opened
  cases cursor : persistedCursor store with
  | ok value =>
      rw [cursor] at opened
      cases opened
      rfl
  | error error =>
      rw [cursor] at opened
      cases opened

def goOn (log : TrackedLoglet) (store : MemoryStore) (engine : BaseEngine Memory) (resultTx : Nat)
    (phase : Phase) : Option (Turn Memory) :=
  some { log := log, store := store, engine := { engine with serving := some (resultTx, phase) },
         reply := none }

/-- The handler returns and its result is sent. -/
def answer (log : TrackedLoglet) (store : MemoryStore) (engine : BaseEngine Memory) (resultTx : Nat)
    (result : EngineResult) : Option (Turn Memory) :=
  some { log := log, store := store, engine := { engine with serving := none },
         reply := some (resultTx, result) }

/-- One step of the apply loop. -/
def turn (applicator : Applicator Memory Choice) (choice : Choice) (log : TrackedLoglet)
    (store : MemoryStore) (engine : BaseEngine Memory) : Option (Turn Memory) :=
  match engine.serving with
  | none =>
      match engine.requests with
      | [] => none
      | request :: requests =>
          goOn log store { engine with requests := requests } request.resultTx (.start request.op)
  | some (resultTx, .append entry) =>
      if log.loglet.entries.length < vecCapacity then
        match (log.loglet.append entry).2 with
        | .ok targetPos =>
            goOn (log.call resultTx (.append entry)).1 store engine resultTx
              (.play (.propose targetPos .success))
        | .error error => answer log store engine resultTx (.error error)
      else none
  | some (resultTx, .checkTail) =>
      match log.loglet.checkTail with
      | .ok tail => goOn log store engine resultTx (.play (.sync tail))
      | .error error => answer log store engine resultTx (.error error)
  | some (resultTx, .play handler) =>
      if handler.continues engine.cursor then
        match log.loglet.read engine.cursor with
        | .ok (some entry) => goOn log store engine resultTx (.read handler entry)
        | .ok none => answer log store engine resultTx
            (.error (.internal s!"expected entry at position {engine.cursor} but got None"))
        | .error error => answer log store engine resultTx (.error error)
      else answer log store engine resultTx handler.result
  | some (resultTx, .read handler entry) =>
      match applicator.apply choice engine.memory store.beginWriteTxn entry engine.cursor with
      | (memory, .ok (txn, rv)) =>
          goOn log store { engine with memory := memory } resultTx
            (.staged handler (txn.put cursorKey (toLeBytes 8 (engine.cursor + 1))) rv)
      | (memory, .error error) =>
          answer log store { engine with memory := memory } resultTx (.error error)
  | some (resultTx, .staged handler txn rv) =>
      goOn log txn.commit engine resultTx (.committed handler rv)
  | some (resultTx, .committed handler rv) =>
      goOn log store { engine with cursor := engine.cursor + 1 } resultTx
        (.play (handler.applied engine.cursor rv))

def Phase.reading : Phase → Option Entry
  | .read _ entry => some entry
  | .append _ | .checkTail | .play _ | .staged _ _ _ | .committed _ _ => none

/-- The entry that the next turn of the loop applies. -/
def reading (engine : BaseEngine Memory) : Option Entry :=
  engine.serving.bind fun current => current.2.reading

theorem serving_of_reading {engine : BaseEngine Memory} {entry : Entry}
    (reading : engine.reading = some entry) :
    ∃ resultTx handler, engine.serving = some (resultTx, .read handler entry) := by
  obtain ⟨⟨resultTx, phase⟩, serving, read⟩ := Option.bind_eq_some_iff.mp reading
  cases phase with
  | read handler found =>
      cases read
      exact ⟨resultTx, handler, serving⟩
  | append | checkTail | play | staged | committed => cases read

theorem reading_of_serving {engine : BaseEngine Memory} {resultTx : Nat} {phase : Phase}
    (serving : engine.serving = some (resultTx, phase)) : engine.reading = phase.reading := by
  unfold reading
  rw [serving]
  rfl

def Phase.accepted (cursor : Nat) : Phase → Nat
  | .staged _ _ _ | .committed _ _ => cursor
  | .append _ | .checkTail | .play _ | .read _ _ => cursor - 1

/-- How many entries the applicator of the loop has accepted. -/
def accepted (engine : BaseEngine Memory) : Nat :=
  engine.serving.elim (engine.cursor - 1) fun current => current.2.accepted engine.cursor

theorem accepted_idle {engine : BaseEngine Memory} (idle : engine.serving = none) :
    engine.accepted = engine.cursor - 1 := by
  unfold accepted
  rw [idle]
  rfl

theorem accepted_serving {engine : BaseEngine Memory} {resultTx : Nat} {phase : Phase}
    (serving : engine.serving = some (resultTx, phase)) :
    engine.accepted = phase.accepted engine.cursor := by
  unfold accepted
  rw [serving]
  rfl

/-- The requests that a dropped loop leaves without a result. -/
def unanswered (engine : BaseEngine Memory) : List Nat :=
  (engine.serving.map Prod.fst).toList ++ engine.requests.map ApplyRequest.resultTx

theorem unanswered_idle {engine : BaseEngine Memory} (idle : engine.serving = none) :
    engine.unanswered = engine.requests.map ApplyRequest.resultTx := by
  unfold unanswered
  rw [idle]
  rfl

theorem unanswered_serving {engine : BaseEngine Memory} {resultTx : Nat} {phase : Phase}
    (serving : engine.serving = some (resultTx, phase)) :
    engine.unanswered = resultTx :: engine.requests.map ApplyRequest.resultTx := by
  unfold unanswered
  rw [serving]
  rfl

/-- What is written for the served request belongs to no waiting request. -/
theorem absent_concat_serving {engine : BaseEngine Memory} {resultTx : Nat} {phase : Phase}
    (serving : engine.serving = some (resultTx, phase)) (nodup : engine.unanswered.Nodup)
    {other : ApplyRequest} (waiting : other ∈ engine.requests) {owners : List Nat}
    (absent : other.resultTx ∉ owners) : other.resultTx ∉ owners ++ [resultTx] := by
  rw [unanswered_serving serving] at nodup
  intro within
  rcases List.mem_append.mp within with earlier | last
  · exact absent earlier
  · have again : other.resultTx ∈ engine.requests.map ApplyRequest.resultTx :=
      List.mem_map_of_mem waiting
    rw [List.mem_singleton.mp last] at again
    exact (List.nodup_cons.mp nodup).1 again

theorem unanswered_enqueue (engine : BaseEngine Memory) (request : ApplyRequest) :
    unanswered { engine with requests := engine.requests ++ [request] } =
      engine.unanswered ++ [request.resultTx] := by
  unfold unanswered
  rw [List.map_append, List.append_assoc]
  rfl

end BaseEngine

/-! ### Replicas -/

/-- Engines named by `Node`, each over a store of its own, and the shared log.
`replies` is the content of the oneshot channels, by the call that waits. -/
structure Replicas (Node Memory : Type) where
  log : TrackedLoglet
  stores : Node → MemoryStore
  engines : Node → Option (BaseEngine Memory)
  replies : Nat → Option EngineResult

/-- Calls of clients: on the engine of a replica, or directly on the log. -/
inductive ReplicaOp (Node : Type) where
  | engine (node : Node) (op : EngineOp)
  | append (entry : Entry)
deriving DecidableEq

/-- The apply loop of a replica takes a step; its engine stops for good; an engine
is created on the replica's store once the old one has stopped. -/
inductive ReplicaEvent (Node Memory Choice : Type) where
  | turn (node : Node) (choice : Choice)
  | stop (node : Node)
  | new (node : Node) (memory : Memory)

namespace Replicas

variable {Node Memory Choice : Type}

def new (Node Memory : Type) : Replicas Node Memory where
  log := .new
  stores _ := .new
  engines _ := none
  replies _ := none

inductive Future where
  | enter
  | send (op : EngineOp)
  | receive
  | append
deriving DecidableEq

def begin : ReplicaOp Node → Future
  | .engine _ _ => .enter
  | .append _ => .append

def shutDown : EngineResult := .error (.internal "apply loop has shut down")

def dropped : EngineResult := .error (.internal "apply loop dropped result channel")

variable [DecidableEq Node]

def setEngine (replicas : Replicas Node Memory) (node : Node) (engine : Option (BaseEngine Memory)) :
    Replicas Node Memory :=
  { replicas with engines := Function.update replicas.engines node engine }

/-- No engine stands above the base engine. -/
def direct (_ : Node) (_ : Memory) (op : EngineOp) : Result EngineOp := .ok op

/-- `enter` is what the engines above the base engine of a replica do with an
operation before they pass it down. -/
def poll (enter : Node → Memory → EngineOp → Result EngineOp) (replicas : Replicas Node Memory)
    (index : Nat) (call : ReplicaOp Node) :
    Future → Option (Replicas Node Memory × Progress Future EngineResult)
  | .enter =>
      match call with
      | .engine node op =>
          match replicas.engines node with
          | some engine =>
              match enter node engine.memory op with
              | .ok op => some (replicas, .running (.send op))
              | .error error => some (replicas, .finished (.error error))
          | none => some (replicas, .finished shutDown)
      | .append _ => none
  | .send op =>
      match call with
      | .engine node _ =>
          match replicas.engines node with
          | some engine =>
              some (replicas.setEngine node
                (some { engine with requests := engine.requests ++ [⟨op, index⟩] }),
                .running .receive)
          | none => some (replicas, .finished shutDown)
      | .append _ => none
  | .receive => (replicas.replies index).map fun result => (replicas, .finished result)
  | .append =>
      match call with
      | .append entry =>
          if replicas.log.loglet.entries.length < vecCapacity then
            some ({ replicas with log := (replicas.log.call index (.append entry)).1 },
              .finished ((replicas.log.loglet.append entry).2.map .pos))
          else none
      | .engine _ _ => none

def reply (replies : Nat → Option EngineResult) : Option (Nat × EngineResult) →
    Nat → Option EngineResult
  | some (resultTx, result) => Function.update replies resultTx (some result)
  | none => replies

theorem reply_cases (replies : Nat → Option EngineResult) (sent : Option (Nat × EngineResult))
    (index : Nat) : (∃ result, sent = some (index, result) ∧ reply replies sent index = some result) ∨
      ((∀ result, sent ≠ some (index, result)) ∧ reply replies sent index = replies index) := by
  cases sent with
  | none => exact Or.inr ⟨fun _ impossible => (by cases impossible), rfl⟩
  | some answer =>
      obtain ⟨resultTx, result⟩ := answer
      by_cases same : index = resultTx
      · subst same
        exact Or.inl ⟨result, rfl, Function.update_self ..⟩
      · refine Or.inr ⟨fun _ impossible => ?_, Function.update_of_ne same ..⟩
        cases impossible
        exact same rfl

def background (applicator : Applicator Memory Choice) (replicas : Replicas Node Memory) :
    ReplicaEvent Node Memory Choice → Option (Replicas Node Memory)
  | .turn node choice =>
      match replicas.engines node with
      | some engine =>
          (engine.turn applicator choice replicas.log (replicas.stores node)).map fun turn =>
            { log := turn.log
              stores := Function.update replicas.stores node turn.store
              engines := Function.update replicas.engines node (some turn.engine)
              replies := reply replicas.replies turn.reply }
      | none => none
  | .stop node =>
      match replicas.engines node with
      | some engine =>
          some { replicas.setEngine node none with
            replies := fun index =>
              if index ∈ engine.unanswered then some dropped else replicas.replies index }
      | none => none
  | .new node memory =>
      match replicas.engines node with
      | some _ => none
      | none =>
          match BaseEngine.new (replicas.stores node) memory with
          | .ok engine => some (replicas.setEngine node (some engine))
          | .error _ => some replicas

end Replicas

def replicaComponent {Node Memory Choice : Type} [DecidableEq Node]
    (enter : Node → Memory → EngineOp → Result EngineOp) (applicator : Applicator Memory Choice) :
    Component (Replicas Node Memory) (ReplicaOp Node) Replicas.Future EngineResult
      (ReplicaEvent Node Memory Choice) where
  begin := Replicas.begin
  poll := Replicas.poll enter
  background := Replicas.background applicator

end Relos
