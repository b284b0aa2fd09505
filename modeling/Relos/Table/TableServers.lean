import Relos.Engine.SoleEngine
import Relos.Table.Linearizability

set_option autoImplicit false

/-! The table store over servers: the calls of `DelosTable` on engines whose log is a component
of its own. Over one engine they are the calls of one replica. -/

namespace Relos

open Async BaseEngine DelosTable

namespace TableServers

variable {Node Shared Op Fut Event : Type}

inductive Future where
  | enter
  | engine (request : EngineOp) (future : Servers.Future)
  | snapshot
deriving DecidableEq

/-- A call goes on once the engine has advanced. -/
def resume (codec : TableCodec) (op : TableOp Node) (request : EngineOp) :
    Progress Servers.Future EngineResult → Option (Progress Future TableResult)
  | .running future => some (.running (.engine request future))
  | .finished (.error error) => some (.finished (.error error))
  | .finished (.ok value) =>
      match op, value with
      | .write _ _, .returned rv => some (.finished (TableOp.respond codec rv))
      | .get _ _ _, .pos _ | .scan _ _, .pos _ => some (.running .snapshot)
      | .write _ _, .pos _ | .get _ _ _, .returned _ | .scan _ _, .returned _ => none

variable [DecidableEq Node]

def poll (codec : TableCodec) (servers : Servers Node Unit Shared Op Fut) (index : Nat)
    (op : TableOp Node) :
    Future → Option (Servers Node Unit Shared Op Fut × Progress Future TableResult)
  | .enter =>
      match op.request codec with
      | .ok request => some (servers, .running (.engine request .enter))
      | .error error => some (servers, .finished (.error error))
  | .engine request future =>
      (servers.poll Replicas.direct index (op.node, request) future).bind fun outcome =>
        (resume codec op request outcome.2).map fun progress => (outcome.1, progress)
  | .snapshot => (op.answer codec (servers.stores op.node)).map fun result =>
      (servers, .finished result)

end TableServers

def tableServers {Node Shared Op Fut Event : Type} [DecidableEq Node]
    (served : ServedLog Node Shared Op Fut Event) (codec : TableCodec) :
    Component (Servers Node Unit Shared Op Fut) (TableOp Node) TableServers.Future TableResult
      (ServerEvent Node Unit Unit Op Event) where
  begin _ := .enter
  poll := TableServers.poll codec
  background := Servers.background served (tableApplicator codec)

namespace TableServers

variable {Shared Op Fut Event : Type} {quiet : Event → Prop}
  {served : ServedLog Unit Shared Op Fut Event} {codec : TableCodec}

def future : Future → TableReplicas.Future
  | .enter => .enter
  | .engine request future => .engine request (SoleEngine.future future)
  | .snapshot => .snapshot

theorem resume_map (op : TableOp Unit) (request : EngineOp)
    (progress : Progress Servers.Future EngineResult) :
    TableReplicas.resume codec op request (progress.map SoleEngine.future) =
      (resume codec op request progress).map (Progress.map future) := by
  cases progress with
  | running current => rfl
  | finished result =>
      rcases result with error | value
      · rfl
      · cases op <;> cases value <;> rfl

/-- A read that has finished leaves a trace that only statements read. -/
def Stands (sim : Simulation served.component (loopSpec served.asks) quiet)
    (servers : Servers Unit Unit Shared Op Fut) (tables : TableReplicas Unit) : Prop :=
  SoleEngine.Stands sim servers tables.replicas

variable {sim : Simulation served.component (loopSpec served.asks) quiet}
  {servers : Servers Unit Unit Shared Op Fut} {tables : TableReplicas Unit}

theorem Stands.poll (stands : Stands sim servers tables) (index : Nat) (op : TableOp Unit)
    (current : Future) :
    Option.Rel (fun (outcome : Servers Unit Unit Shared Op Fut × Progress Future TableResult)
        (outcome' : TableReplicas Unit × Progress TableReplicas.Future TableResult) =>
      Stands sim outcome.1 outcome'.1 ∧ outcome'.2 = outcome.2.map future)
      (TableServers.poll codec servers index op current)
      (TableReplicas.poll codec tables index op (future current)) := by
  unfold TableServers.poll TableReplicas.poll
  cases current with
  | enter =>
      dsimp only [future]
      cases op.request codec with
      | ok request => exact .some ⟨stands, rfl⟩
      | error error => exact .some ⟨stands, rfl⟩
  | engine request current =>
      dsimp only [future]
      have polls := (soleEngine sim Replicas.direct (tableApplicator codec)).poll index
        (op.node, request) current stands
      dsimp only [soleEngine, serverComponent, replicaComponent] at polls
      generalize servers.poll Replicas.direct index (op.node, request) current = outcome at polls ⊢
      generalize tables.replicas.poll Replicas.direct index (.engine op.node request)
        (SoleEngine.future current) = outcome' at polls ⊢
      cases polls with
      | none => exact .none
      | @some outcome outcome' both =>
          obtain ⟨next, progress⟩ := outcome
          obtain ⟨next', progress'⟩ := outcome'
          obtain ⟨stands', equal⟩ := both
          dsimp only at stands' equal
          subst equal
          rw [Option.bind_some, Option.bind_some]
          dsimp only
          rw [resume_map]
          cases resume codec op request progress with
          | none => exact .none
          | some progress => exact .some ⟨stands', rfl⟩
  | snapshot =>
      dsimp only [future]
      rw [stands.stores]
      cases op.answer codec (tables.replicas.stores op.node) with
      | none => exact .none
      | some result => exact .some ⟨stands, rfl⟩

end TableServers

/-- What the loop appends finds room, since no call is appended twice. -/
theorem TableSystem.Inv.ready {codec : TableCodec} {started : Nat → Nat} {commands : List TableCommand}
    {system : TableSystem Unit} (inv : Inv codec started commands system)
    (capacity : system.calls.length ≤ vecCapacity) : SoleEngine.Ready system.shared.replicas := by
  intro engine resultTx op running asking appends
  obtain ⟨phase, serving, called⟩ := serving_of_logCall asking
  obtain ⟨engine', running', serves, -⟩ := inv.engines ()
  cases running.symm.trans running'
  obtain ⟨request, asks, holds⟩ := serves.serving resultTx phase serving
  have member : resultTx ∈ engine.unanswered := by
    rw [unanswered_serving serving]
    exact List.mem_cons_self
  obtain ⟨_, _, held, -⟩ := serves.asked_of_mem member
  have inside := (List.getElem?_eq_some_iff.mp held).1
  cases phase with
  | append entry =>
      obtain ⟨-, absent, -⟩ := holds
      exact inv.room capacity absent inside
  | checkTail =>
      cases called
      exact appends.elim
  | play handler =>
      unfold Phase.logCall at called
      dsimp only at called
      split at called <;> cases called
      exact appends.elim
  | read | staged | committed => cases called

end Relos
