import Relos.Table.StoredTables

set_option autoImplicit false

/-! The table store on replicas over one shared log. A client calls the table of any
replica; the apply loops of the replicas run in between. -/

namespace Relos

open Async BaseEngine DelosTable

/-- The created schemas have their primary key columns. -/
def TableCommand.Keyed : TableCommand → Prop
  | .createTable schema => schema.KeyListed
  | .dropTable _ | .put _ _ | .delete _ _ => True

instance (command : TableCommand) : Decidable command.Keyed :=
  match command with
  | .createTable schema => inferInstanceAs (Decidable schema.KeyListed)
  | .dropTable _ | .put _ _ | .delete _ _ => isTrue trivial

/-- The calls of `DelosTable`. The four writes differ in the command they propose. -/
inductive TableOp (Node : Type) where
  | write (node : Node) (command : TableCommand)
  | get (node : Node) (table : String) (key : List Value)
  | scan (node : Node) (table : String)
deriving DecidableEq

inductive TableValue where
  | unit
  | row (row : Option Row)
  | rows (rows : List Row)
deriving DecidableEq

abbrev TableResult := Result TableValue

instance : DecidableEq TableResult := inferInstanceAs (DecidableEq (Except RelosError TableValue))

/-- The replicas, with the length of the log that each finished read has observed.
Only statements read `observed`. -/
structure TableReplicas (Node : Type) where
  replicas : Replicas Node Unit
  observed : Nat → Option Nat

namespace TableOp

variable {Node : Type}

def node : TableOp Node → Node
  | .write node _ | .get node _ _ | .scan node _ => node

def IsWrite : TableOp Node → Prop
  | .write _ _ => True
  | .get _ _ _ | .scan _ _ => False

/-- What is asked of the engine. -/
def request (codec : TableCodec) : TableOp Node → Result EngineOp
  | .write _ command => (codec.command.serialize command).map fun payload => .propose (.new payload)
  | .get _ _ _ | .scan _ _ => .ok .sync

/-- What a read takes from a snapshot of the store. -/
def answer (codec : TableCodec) (store : MemoryStore) : TableOp Node → Option TableResult
  | .write _ _ => none
  | .get _ table key => some ((readRow codec store table key).map .row)
  | .scan _ table => some ((readRows codec store table).map .rows)

/-- What a write makes of the response to its command. -/
def respond (codec : TableCodec) (rv : ReturnValue) : TableResult :=
  (checkResponse codec rv).map fun _ => .unit

end TableOp

namespace TableReplicas

variable {Node : Type}

/-- A read opens its read transaction once its sync has returned. -/
inductive Future where
  | enter
  | engine (request : EngineOp) (future : Replicas.Future)
  | snapshot
deriving DecidableEq

/-- All replicas run, each over a store of its own. -/
def new (Node : Type) : TableReplicas Node where
  replicas := { Replicas.new Node Unit with engines := fun _ => (BaseEngine.new .new ()).toOption }
  observed _ := none

/-- The number of entries of the log that a store holds. -/
def appliedCount (store : MemoryStore) : Nat :=
  match persistedCursor store with
  | .ok cursor => cursor - logPosBegin
  | .error _ => 0

def observe (tables : TableReplicas Node) (index : Nat) (node : Node) : TableReplicas Node :=
  { tables with
    observed := Function.update tables.observed index
      (some (appliedCount (tables.replicas.stores node))) }

/-- A call goes on once the engine has advanced. By its type a propose returns what
its apply returned, and a sync a position. -/
def resume (codec : TableCodec) (op : TableOp Node) (request : EngineOp) :
    Progress Replicas.Future EngineResult → Option (Progress Future TableResult)
  | .running future => some (.running (.engine request future))
  | .finished (.error error) => some (.finished (.error error))
  | .finished (.ok value) =>
      match op, value with
      | .write _ _, .returned rv => some (.finished (TableOp.respond codec rv))
      | .get _ _ _, .pos _ | .scan _ _, .pos _ => some (.running .snapshot)
      | .write _ _, .pos _ | .get _ _ _, .returned _ | .scan _ _, .returned _ => none

variable [DecidableEq Node]

def poll (codec : TableCodec) (tables : TableReplicas Node) (index : Nat) (op : TableOp Node) :
    Future → Option (TableReplicas Node × Progress Future TableResult)
  | .enter =>
      match op.request codec with
      | .ok request =>
          some (tables, .running (.engine request (Replicas.begin (.engine op.node request))))
      | .error error => some (tables, .finished (.error error))
  | .engine request future =>
      (tables.replicas.poll Replicas.direct index (.engine op.node request) future).bind fun outcome =>
        (resume codec op request outcome.2).map fun progress =>
          ({ tables with replicas := outcome.1 }, progress)
  | .snapshot =>
      (op.answer codec (tables.replicas.stores op.node)).map fun result =>
        (tables.observe index op.node, .finished result)

def background (codec : TableCodec) (tables : TableReplicas Node)
    (event : ReplicaEvent Node Unit Unit) : Option (TableReplicas Node) :=
  (tables.replicas.background (tableApplicator codec) event).map fun replicas =>
    { tables with replicas := replicas }

end TableReplicas

def tableComponent {Node : Type} [DecidableEq Node] (codec : TableCodec) :
    Component (TableReplicas Node) (TableOp Node) TableReplicas.Future TableResult
      (ReplicaEvent Node Unit Unit) where
  begin _ := .enter
  poll := TableReplicas.poll codec
  background := TableReplicas.background codec

abbrev TableSystem (Node : Type) :=
  System (TableReplicas Node) (TableOp Node) TableReplicas.Future TableResult

instance {Node : Type} [DecidableEq Node] :
    DecidableEq (Call (TableOp Node) TableReplicas.Future TableResult) := inferInstance

abbrev TableAction (Node : Type) := Action (TableOp Node) (ReplicaEvent Node Unit Unit)

namespace TableSystem

variable {Node : Type}

def new (Node : Type) : TableSystem Node := .fresh (.new Node)

/-- Calls in any order, and steps of the apply loops. No engine stops. -/
def Undisturbed (_ : TableSystem Node) : TableAction Node → Prop
  | .start (.write _ command) => command.Keyed
  | .start (.get _ _ _) | .start (.scan _ _) => True
  | .poll _ => True
  | .background (.turn _ _) => True
  | .background (.stop _) | .background (.new _ _) => False

instance (system : TableSystem Node) (action : TableAction Node) :
    Decidable (system.Undisturbed action) :=
  match action with
  | .start (.write _ command) => inferInstanceAs (Decidable command.Keyed)
  | .start (.get _ _ _) | .start (.scan _ _) | .poll _ | .background (.turn _ _) => isTrue trivial
  | .background (.stop _) | .background (.new _ _) => isFalse id

/-- The history of the log. -/
def written (system : TableSystem Node) : List (Nat × Entry) :=
  system.shared.replicas.log.written

/-- What a call has seen of the log: a write everything up to its own command, a read
what its snapshot held. -/
def Seen (system : TableSystem Node) (index count : Nat) : TableOp Node → Prop
  | .write _ _ => ∃ slot entry, system.written[slot]? = some (index, entry) ∧ count = slot + 1
  | .get _ _ _ | .scan _ _ => system.shared.observed index = some count

end TableSystem

end Relos
