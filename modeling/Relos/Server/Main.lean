import Relos.Server.Linearization
import Relos.Table.TableServers

set_option autoImplicit false

/-! The server that `main` assembles: the gRPC service over the table store, its one engine, and
a virtual log whose factory makes a new loglet at every `create`. -/

namespace Relos

open Async

variable {State Fut Event : Type}

abbrev MainSystem (State Fut : Type) :=
  System (Servers Unit Unit (Cluster Unit State) (Unit × LogletOp) (VirtualLog.Future Fut)) (Rpc Unit)
    (Wrapped (TableOp Unit) TableServers.Future) RpcReply

abbrev MainAction (Event : Type) :=
  Action (Rpc Unit) (ServerEvent Unit Unit Unit (Unit × LogletOp) (ClusterEvent Unit Event))

namespace MainSystem

/-- The chain and the stores are new, and the engine has been created. -/
def new (Fut : Type) (initialLogletId : String) (loglet : State) : MainSystem State Fut :=
  .fresh (.started (.new initialLogletId loglet))

/-- Requests in any order, turns of the apply loop, and polls and tasks of its log. -/
abbrev Undisturbed (quiet : Event → Prop) : MainSystem State Fut → MainAction Event → Prop :=
  Permits Rpc.Plain (ServerEvent.IsSole (ClusterEvent.IsQuiet quiet))

variable {codec : TableCodec} {component : LogletComponent State Fut Event} {quiet : Event → Prop}
  {state : State} {initial : String} {earlier later : MainSystem State Fut}

theorem undisturbed_iff {system : ServiceSystem Unit} {action : ServiceAction Unit} :
    Permits Rpc.Plain ReplicaEvent.IsTurn system action ↔ system.Undisturbed action := by
  cases action with
  | start | poll => exact Iff.rfl
  | background event => cases event <;> exact Iff.rfl

/-- The table below the service keeps its invariant. -/
def Kept (codec : TableCodec) (image : ServiceSystem Unit) : Prop :=
  ∃ started commands inner, ServiceSystem.Mirrored codec image inner ∧
    TableSystem.Inv codec started commands inner

theorem Kept.step (lawful : codec.Lawful) {image next : ServiceSystem Unit}
    {action : ServiceAction Unit} (kept : Kept codec image)
    (permitted : Permits Rpc.Plain ReplicaEvent.IsTurn image action)
    (moved : (serviceComponent codec).machine.step image action = some next) : Kept codec next := by
  obtain ⟨started, commands, inner, mirrored, inv⟩ := kept
  obtain ⟨inner', rfl | moved', mirrored'⟩ := mirrored.step moved
  · exact ⟨started, commands, _, mirrored', inv⟩
  · obtain ⟨commands', inv', -⟩ :=
      inv.step lawful (ServiceSystem.permitted_lower (undisturbed_iff.mp permitted)) moved'
    exact ⟨started, commands', inner', mirrored', inv'⟩

theorem Kept.ready {image : ServiceSystem Unit} (kept : Kept codec image)
    (few : image.calls.length ≤ vecCapacity) : SoleEngine.Ready image.shared.replicas := by
  obtain ⟨started, commands, inner, mirrored, inv⟩ := kept
  rw [← mirrored.shared]
  exact inv.ready (mirrored.length ▸ few)

/-- A request up to the point where the engine has to answer. -/
def asked (index : Nat) (request : Proto.Request) : List (MainAction Event) :=
  [.start ⟨(), request⟩, .poll index, .poll index, .poll index, .poll index]

/-- The loop makes its log call, which is the given one, and goes on after its three polls. -/
def throughCall (index turns : Nat) : List (MainAction Event) :=
  ([.background (.turn () ())] : List (MainAction Event)) ++
    (List.replicate 3 (.background (.log (.poll index))) : List (MainAction Event)) ++
    (List.replicate turns (.background (.turn () ())) : List (MainAction Event))

def replies (system : MainSystem State Fut) : List (Option RpcReply) :=
  system.calls.map fun call => match call.progress with
    | .finished reply => some reply
    | .running _ => none

def firstReplies : List (Option RpcReply) :=
  [some (.error (.invalidArgument "missing row")), some (.ok .createTable)]

def laterReplies : List (Option RpcReply) :=
  [some (.ok .put), some (.ok (.get true (some ⟨[⟨some (.int64Value 1)⟩, ⟨some (.isNull true)⟩]⟩))),
    some (.error (.invalidArgument "table 'users' already exists"))]

end MainSystem

end Relos
