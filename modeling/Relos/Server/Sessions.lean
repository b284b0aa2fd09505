import Relos.Server.ServiceRefinement
import Relos.Table.TableSessions

set_option autoImplicit false

/-! Servers over a replicated log that is sealed, extended and read under way, with engines that
stop and start. What a server answers follows one order of the writes, and its clients see their
sessions go forward; a read on another server may lag behind. -/

namespace Relos

open Async

abbrev LogsSystem (Node State Fut : Type) :=
  System (Servers Node Unit (Cluster (Seat Node) State) (Seat Node × LogletOp) (VirtualLog.Future Fut))
    (Rpc Node) (Wrapped (TableOp Node) TableServers.Future) RpcReply

def logsComponent {State Fut Event : Type} (Node : Type) [DecidableEq Node]
    (component : LogletComponent State Fut Event) (codec : TableCodec) :
    Component (Servers Node Unit (Cluster (Seat Node) State) (Seat Node × LogletOp)
        (VirtualLog.Future Fut)) (Rpc Node) (Wrapped (TableOp Node) TableServers.Future) RpcReply
      (ServerEvent Node Unit Unit (Seat Node × LogletOp) (ClusterEvent (Seat Node) Event)) :=
  (relosTable Node).around (TableServers.tablesOverLogs Node component codec)

namespace LogsSystem

variable {Node State Fut Event : Type} {codec : TableCodec} {component : LogletComponent State Fut Event}
  {outline : LogletOutline component}

variable [DecidableEq Node] {system earlier later : LogsSystem Node State Fut}
  {inner inner' : TableServers.TablesOverLogs Node State Fut} {index : Nat} {rpc : Rpc Node}

abbrev Mirrored (component : LogletComponent State Fut Event) (codec : TableCodec)
    (system : LogsSystem Node State Fut) (inner : TableServers.TablesOverLogs Node State Fut) : Prop :=
  (relosTable Node).Mirrors (TableServers.tablesOverLogs Node component codec) Rpc.idle system inner

/-- Requests in any order, and steps in the background that leave appending to the engines. -/
abbrev Undisturbed (outline : LogletOutline component) (system : LogsSystem Node State Fut) :
    Action (Rpc Node) (ServerEvent Node Unit Unit (Seat Node × LogletOp)
      (ClusterEvent (Seat Node) Event)) → Prop :=
  Within Rpc.Plain (Servers.ClientsApart outline) system

theorem Mirrored.lowered (mirrored : Mirrored component codec earlier inner)
    (run : (logsComponent Node component codec).machine.Run (Undisturbed outline) earlier later) :
    ∃ inner', (TableServers.tablesOverLogs Node component codec).machine.Run
        (TableServers.Beside outline) inner inner' ∧ Mirrored component codec later inner' := by
  refine mirrored.run (fun outer inner action mirrored permitted => ?_) run
  cases action with
  | start | poll => trivial
  | background event =>
      exact (mirrored.shared ▸ permitted : Servers.ClientsApart outline inner.shared event)

/-- A response is made of a value of the table. -/
theorem Mirrored.below (mirrored : Mirrored component codec system inner) {response : Proto.Response}
    (returned : system.Returned index rpc (.ok response)) :
    ∃ op value, rpc.call = .ok op ∧ inner.Returned index op (.ok value) ∧
      rpc.respond value = some response := by
  rcases mirrored.returned returned with refused | ⟨op, result, prepared, returned', replies⟩
  · unfold relosTable at refused
    dsimp only at refused
    cases asks : rpc.call with
    | ok op =>
        rw [asks] at refused
        cases refused
    | error status =>
        rw [asks] at refused
        cases refused
  · change rpc.reply result = some (.ok response) at replies
    unfold Rpc.reply at replies
    rcases result with error | value
    · cases replies
    · obtain ⟨response', responds, same⟩ := Option.map_eq_some_iff.mp replies
      cases same
      exact ⟨op, value, Rpc.call_of_prepare prepared, returned', responds⟩

theorem Mirrored.writes (mirrored : Mirrored component codec system inner) {node : Node}
    {command : TableCommand} {progress : Progress TableServers.Future TableResult}
    (called : inner.calls[index]? = some ⟨.write node command, progress⟩) :
    ∃ rpc progress', system.calls[index]? = some ⟨rpc, progress'⟩ ∧
      rpc.call = .ok (.write node command) := by
  obtain ⟨rpc, progress', above, prepared⟩ := mirrored.called called fun rpc impossible => by
    cases impossible
  exact ⟨rpc, progress', above, Rpc.call_of_prepare prepared⟩

/-- A request up to the point where its engine has to answer. -/
def asked (index : Nat) (rpc : Rpc Bool) :
    List (Servers.TwoServersAction (Rpc Bool) Unit (NativeLoglet.Event 3)) :=
  [.start rpc, .poll index, .poll index, .poll index, .poll index]

def created : List (Servers.TwoServersAction (Rpc Bool) Unit (NativeLoglet.Event 3)) :=
  Servers.bothStarted ++ asked 0 ⟨true, .createTable (some ServiceSystem.users)⟩ ++
    Servers.appendsFirst () ++ [.poll 0]

def replies (system : LogsSystem Bool (NativeLoglet 3) NativeLoglet.Future) : List (Option RpcReply) :=
  system.calls.map fun call => match call.progress with
    | .finished reply => some reply
    | .running _ => none

end LogsSystem

end Relos
