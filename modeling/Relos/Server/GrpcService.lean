import Relos.Async.Wrapping
import Relos.Server.Proto
import Relos.Table.ReplicatedTable
import Relos.Table.Refinement

set_option autoImplicit false

/-! The gRPC service of the table store. Any number of servers, each over the table of its
own replica, serve any number of requests at a time. -/

namespace Relos

open Async

abbrev RpcReply := Except Status Proto.Response

instance : DecidableEq RpcReply := inferInstanceAs (DecidableEq (Except Status Proto.Response))

/-- What a request asks of the table, and the response to the value that the table returns. -/
structure RpcHandler (Node : Type) where
  call : Except Status (TableOp Node)
  respond : TableValue → Option Proto.Response

namespace RelosTableService

variable {Node : Type} (node : Node)

/-- The check that comes first in all handlers but one. -/
def named (table : String) (call : Except Status (TableOp Node)) : Except Status (TableOp Node) :=
  if table.isEmpty then .error (.invalidArgument "table name must not be empty") else call

/-- A write returns no value. -/
def acknowledge (response : Proto.Response) : TableValue → Option Proto.Response
  | .unit => some response
  | .row _ | .rows _ => none

def createTable (schema : Option Proto.TableSchema) : RpcHandler Node where
  call := match schema with
    | none => .error (.invalidArgument "missing schema")
    | some schema => (protoSchemaToRelos schema).map fun relosSchema =>
        .write node (.createTable relosSchema)
  respond := acknowledge .createTable

def dropTable (table : String) : RpcHandler Node where
  call := named table (.ok (.write node (.dropTable table)))
  respond := acknowledge .dropTable

def put (table : String) (row : Option Proto.Row) : RpcHandler Node where
  call := named table (match row with
    | none => .error (.invalidArgument "missing row")
    | some row => .ok (.write node (.put table (protoRowToRelos row))))
  respond := acknowledge .put

def delete (table : String) (key : List Proto.Value) : RpcHandler Node where
  call := named table (.ok (.write node (.delete table (key.map protoValueToRelos))))
  respond := acknowledge .delete

def get (table : String) (key : List Proto.Value) : RpcHandler Node where
  call := named table (.ok (.get node table (key.map protoValueToRelos)))
  respond
    | .row (some row) => some (.get true (some (relosRowToProto row)))
    | .row none => some (.get false none)
    | .unit | .rows _ => none

def scan (table : String) : RpcHandler Node where
  call := named table (.ok (.scan node table))
  respond
    | .rows rows => some (.scan (rows.map relosRowToProto))
    | .unit | .row _ => none

end RelosTableService

/-- A write stays within what the tables are refined for. -/
def TableOp.Plain {Node : Type} : TableOp Node → Prop
  | .write _ command => TableApplicator.Plain command
  | .get _ _ _ | .scan _ _ => True

instance {Node : Type} (op : TableOp Node) : Decidable op.Plain :=
  match op with
  | .write _ command => inferInstanceAs (Decidable (TableApplicator.Plain command))
  | .get _ _ _ | .scan _ _ => isTrue trivial

def Proto.Request.handler {Node : Type} (node : Node) : Proto.Request → RpcHandler Node
  | .createTable schema => RelosTableService.createTable node schema
  | .dropTable table => RelosTableService.dropTable node table
  | .put table row => RelosTableService.put node table row
  | .delete table key => RelosTableService.delete node table key
  | .get table key => RelosTableService.get node table key
  | .scan table => RelosTableService.scan node table

/-- A request at the server that receives it. -/
structure Rpc (Node : Type) where
  node : Node
  request : Proto.Request
deriving DecidableEq

namespace Rpc

variable {Node : Type} (rpc : Rpc Node)

def call : Except Status (TableOp Node) := (rpc.request.handler rpc.node).call

def respond : TableValue → Option Proto.Response := (rpc.request.handler rpc.node).respond

/-- What becomes of the result of the table. -/
def reply : TableResult → Option RpcReply
  | .ok value => (rpc.respond value).map .ok
  | .error error => some (.error (relosErrToStatus error))

/-- What is let through, if anything, is plain. -/
def Plain : Prop := ∀ op ∈ rpc.call.toOption, op.Plain

instance : Decidable rpc.Plain := inferInstanceAs (Decidable (∀ op ∈ rpc.call.toOption, op.Plain))

end Rpc

def relosTable (Node : Type) : Wrapper (Rpc Node) RpcReply (TableOp Node) TableResult where
  prepare rpc := rpc.call.mapError .error
  answer rpc := rpc.reply

def serviceComponent {Node : Type} [DecidableEq Node] (codec : TableCodec) :
    Component (TableReplicas Node) (Rpc Node) (Wrapped (TableOp Node) TableReplicas.Future) RpcReply
      (ReplicaEvent Node Unit Unit) :=
  (relosTable Node).around (tableComponent codec)

abbrev ServiceSystem (Node : Type) :=
  System (TableReplicas Node) (Rpc Node) (Wrapped (TableOp Node) TableReplicas.Future) RpcReply

abbrev ServiceAction (Node : Type) := Action (Rpc Node) (ReplicaEvent Node Unit Unit)

namespace ServiceSystem

variable {Node : Type}

def new (Node : Type) : ServiceSystem Node := .fresh (.new Node)

/-- Requests in any order, and steps of the apply loops. No engine stops. -/
def Undisturbed (_ : ServiceSystem Node) : ServiceAction Node → Prop
  | .start rpc => rpc.Plain
  | .poll _ => True
  | .background (.turn _ _) => True
  | .background (.stop _) | .background (.new _ _) => False

instance (system : ServiceSystem Node) (action : ServiceAction Node) :
    Decidable (system.Undisturbed action) :=
  match action with
  | .start rpc => inferInstanceAs (Decidable rpc.Plain)
  | .poll _ | .background (.turn _ _) => isTrue trivial
  | .background (.stop _) | .background (.new _ _) => isFalse id

/-- The history of the log. -/
def written (system : ServiceSystem Node) : List (Nat × Entry) :=
  system.shared.replicas.log.written

/-- What a call of the table has seen of the log. -/
def Seen (system : ServiceSystem Node) (index count : Nat) : TableOp Node → Prop
  | .write _ _ => ∃ slot entry, system.written[slot]? = some (index, entry) ∧ count = slot + 1
  | .get _ _ _ | .scan _ _ => system.shared.observed index = some count

end ServiceSystem

end Relos
