import Relos.Async.Wrapping
import Relos.Engine.ServerAuthors
import Relos.Table.ServedTables
import Relos.Table.TableServers
import Mathlib.Order.WellFounded

set_option autoImplicit false

/-! What the tables of many servers tell their clients: one order of the writes, of which a read
has seen a prefix that no later call of its server falls behind. -/

namespace Relos

open Async Serial Replay BaseEngine DelosTable TableApplicator

namespace TableServers

/-! ### Calls of the table and of the engines -/

section Calls

variable {Node Shared Op Fut Event : Type} {codec : TableCodec}
  {served : ServedLog Node Shared Op Fut Event}

/-- What a call of the table asks of its engine. -/
def engineOp (codec : TableCodec) (op : TableOp Node) : Node × EngineOp :=
  (op.node, (op.request codec).toOption.getD .sync)

theorem engineOp_ok {op : TableOp Node} {request : EngineOp} (asks : op.request codec = .ok request) :
    engineOp codec op = (op.node, request) := by
  unfold engineOp
  rw [asks]
  rfl

/-- A call of the table and the one of its engine. Where the command cannot be encoded, that is a
call that nobody polls. -/
inductive CallAbove (codec : TableCodec) :
    Call (TableOp Node) Future TableResult → Call (Node × EngineOp) Servers.Future EngineResult → Prop
  | entering {op : TableOp Node} :
      CallAbove codec ⟨op, .running .enter⟩ ⟨engineOp codec op, .running .enter⟩
  | refused {op : TableOp Node} {error : RelosError} :
      CallAbove codec ⟨op, .finished (.error error)⟩ ⟨engineOp codec op, .running .enter⟩
  | asking {op : TableOp Node} {request : EngineOp} {future : Servers.Future} :
      op.request codec = .ok request →
      CallAbove codec ⟨op, .running (.engine request future)⟩ ⟨(op.node, request), .running future⟩
  | failed {op : TableOp Node} {request : EngineOp} {error : RelosError} :
      op.request codec = .ok request →
      CallAbove codec ⟨op, .finished (.error error)⟩ ⟨(op.node, request), .finished (.error error)⟩
  | written {node : Node} {command : TableCommand} {request : EngineOp} {rv : ReturnValue} :
      (TableOp.write node command).request codec = .ok request →
      CallAbove codec ⟨.write node command, .finished (TableOp.respond codec rv)⟩
        ⟨(node, request), .finished (.ok (.returned rv))⟩
  | synced {op : TableOp Node} {request : EngineOp} {pos : Nat} :
      op.request codec = .ok request → ¬ op.IsWrite →
      CallAbove codec ⟨op, .running .snapshot⟩ ⟨(op.node, request), .finished (.ok (.pos pos))⟩
  | read {op : TableOp Node} {request : EngineOp} {pos : Nat} {result : TableResult} :
      op.request codec = .ok request → ¬ op.IsWrite →
      CallAbove codec ⟨op, .finished result⟩ ⟨(op.node, request), .finished (.ok (.pos pos))⟩

abbrev Tracks (codec : TableCodec)
    (system : System (Servers Node Unit Shared Op Fut) (TableOp Node) Future TableResult)
    (below : System (Servers Node Unit Shared Op Fut) (Node × EngineOp) Servers.Future EngineResult) :
    Prop :=
  Paired (CallAbove codec) system below

def lower (codec : TableCodec) : Action (TableOp Node) Event → Action (Node × EngineOp) Event
  | .start op => .start (engineOp codec op)
  | .poll index => .poll index
  | .background event => .background event

variable
  {system next : System (Servers Node Unit Shared Op Fut) (TableOp Node) Future TableResult}
  {below : System (Servers Node Unit Shared Op Fut) (Node × EngineOp) Servers.Future EngineResult}

theorem CallAbove.resume {op : TableOp Node} {request : EngineOp} (asks : op.request codec = .ok request)
    {progress : Progress Servers.Future EngineResult} {progress' : Progress Future TableResult}
    (resumed : TableServers.resume codec op request progress = some progress') :
    CallAbove codec ⟨op, progress'⟩ ⟨(op.node, request), progress⟩ := by
  cases progress with
  | running future =>
      cases resumed
      exact .asking asks
  | finished result =>
      rcases result with error | value
      · cases resumed
        exact .failed asks
      · cases op <;> cases value <;> cases resumed
        · exact .written asks
        · exact .synced asks id
        · exact .synced asks id

/-- The engine has got what the table asked of it. -/
theorem CallAbove.asks {call : Call (TableOp Node) Future TableResult}
    {called : Call (Node × EngineOp) Servers.Future EngineResult} (above : CallAbove codec call called)
    (sent : Servers.Sent called.progress) : call.op.request codec = .ok called.op.2 := by
  cases above with
  | entering | refused => exact sent.elim
  | asking asks | failed asks | written asks | synced asks | read asks => exact asks

variable [DecidableEq Node]

/-- The engines below follow every step, or stay. -/
theorem tracks_step (tracks : Tracks codec system below)
    {action : Action (TableOp Node) (ServerEvent Node Unit Unit Op Event)}
    (moved : (tableServers served codec).machine.step system action = some next) :
    ∃ below', (below' = below ∨
        (serverComponent served Replicas.direct (tableApplicator codec)).machine.step below
          (lower codec action) = some below') ∧ Tracks codec next below' := by
  cases action with
  | start op =>
      rw [Component.step_start moved]
      exact ⟨_, Or.inr rfl, tracks.add .entering⟩
  | poll index =>
      obtain ⟨op, future, shared, progress, pending, polled, rfl⟩ := Component.step_poll moved
      obtain ⟨called, present, above⟩ := tracks.calls index _ pending
      cases above with
      | entering =>
          unfold tableServers TableServers.poll at polled
          dsimp only at polled
          cases asks : op.request codec with
          | ok request =>
              rw [asks] at polled
              cases polled
              refine ⟨below, Or.inl rfl, tracks.set_outer present ?_⟩
              rw [engineOp_ok asks]
              exact .asking asks
          | error error =>
              rw [asks] at polled
              cases polled
              exact ⟨below, Or.inl rfl, tracks.set_outer present .refused⟩
      | asking asks =>
          obtain ⟨⟨state, answer⟩, ran, resumed⟩ := Option.bind_eq_some_iff.mp polled
          obtain ⟨later, went, same⟩ := Option.map_eq_some_iff.mp resumed
          cases same
          rw [← tracks.shared] at ran
          exact ⟨_, Or.inr (Component.step_of_poll present ran), tracks.set state (.resume asks went)⟩
      | synced asks reads =>
          obtain ⟨result, -, same⟩ := Option.map_eq_some_iff.mp polled
          cases same
          exact ⟨below, Or.inl rfl, tracks.set_outer present (.read asks reads)⟩
  | background event =>
      obtain ⟨shared, ran, rfl⟩ := Component.step_background moved
      change Servers.background served (tableApplicator codec) system.shared event = some shared at ran
      rw [← tracks.shared] at ran
      exact ⟨_, Or.inr (Component.step_of_background ran), rfl, tracks.length, tracks.calls⟩

/-- Every run of the table is one of the engines. -/
theorem tracks_run {Allowed : TableOp Node → Prop}
    {quiet : Servers Node Unit Shared Op Fut → ServerEvent Node Unit Unit Op Event → Prop}
    (tracks : Tracks codec system below)
    (run : (tableServers served codec).machine.Run (Within Allowed quiet) system next) :
    ∃ below', (serverComponent served Replicas.direct (tableApplicator codec)).machine.Run
        (Within (fun _ => True) quiet) below below' ∧ Tracks codec next below' := by
  refine run.simulate (Tracks codec) (fun system below action next tracks permitted moved => ?_) tracks
  obtain ⟨below', rfl | moved', tracks'⟩ := tracks_step tracks moved
  · exact ⟨_, .refl _, tracks'⟩
  · have permitted' : Within (fun _ => True) quiet below (lower codec action) := by
      cases action with
      | start | poll => trivial
      | background event => exact (tracks.shared ▸ permitted : quiet below.shared event)
    exact ⟨below', .single permitted' moved', tracks'⟩

theorem Tracks.length_le_run {Allowed : TableOp Node → Prop}
    {quiet : Servers Node Unit Shared Op Fut → ServerEvent Node Unit Unit Op Event → Prop}
    (tracks : Tracks codec system below)
    (run : (tableServers served codec).machine.Run (Within Allowed quiet) system next) :
    system.shared.log.calls.length ≤ next.shared.log.calls.length := by
  obtain ⟨below', run', tracks'⟩ := tracks_run tracks run
  rw [← tracks.shared, ← tracks'.shared]
  exact Servers.length_le_run run'

end Calls

/-! ### What calls have seen -/

section Sessions

variable {Node Shared Op Fut Event : Type}

abbrev TablesOver (Node Shared Op Fut : Type) :=
  System (Servers Node Unit Shared Op Fut) (TableOp Node) Future TableResult

/-- The value of a call that has seen so many writes, its own included. -/
def Saw (codec : TableCodec) (order : List (Nat × TableCommand)) (index count : Nat) :
    TableOp Node → TableValue → Prop
  | .write _ command, value => value = .unit ∧ ∃ slot, count = slot + 1 ∧
      order[slot]? = some (index, command) ∧
      (Tables.step codec.value (tablesAt codec order slot) command).2 = .ok
  | .get _ table key, value => count ≤ order.length ∧
      value = .row ((tablesAt codec order count).find codec.value table key)
  | .scan _ table, value => count ≤ order.length ∧
      ∃ rows, value = .rows rows ∧ rows.Perm ((tablesAt codec order count).rows table)

variable {codec : TableCodec} {served : ServedLog Node Shared Op Fut Event} {rules : LogRules served}
  {system earlier later : TablesOver Node Shared Op Fut} {heard heard' : Node → List Entry}
  {counts counts' : Node → Nat} {order : List (Nat × TableCommand)}
  {below below' : System (Servers Node Unit Shared Op Fut) (Node × EngineOp) Servers.Future
    EngineResult}

/-- What is known of the engines below the tables. -/
structure Standing (codec : TableCodec) (rules : LogRules served)
    (system : TablesOver Node Shared Op Fut)
    (below : System (Servers Node Unit Shared Op Fut) (Node × EngineOp) Servers.Future EngineResult)
    (heard : Node → List Entry) (counts : Node → Nat) : Prop where
  tracks : Tracks codec system below
  knows : Servers.Knows Replicas.direct
    (fun entries data => (tableCommits codec).replay logPosBegin entries = some data)
    ((tableApplicator codec).Returns (tableCommits codec)) rules below heard counts
  authored : Servers.Authored Replicas.direct served below

open Servers (appliedBy take_appliedBy getElem?_appliedBy Authors Landed)
open TableReplicas (Encodes)
open TableSystem (request_cases)

/-- Each entry in a store is the command of a write. -/
theorem Standing.issued (standing : Standing codec rules system below heard counts) {node : Node}
    {slot : Nat} {entry : Entry} (found : (appliedBy heard counts node)[slot]? = some entry) :
    ∃ index asker command progress, Authors rules system.shared index entry slot ∧
      system.calls[index]? = some ⟨.write asker command, progress⟩ ∧ Encodes codec entry command := by
  obtain ⟨index, asker, authors, op, progress, called, sent, _, passes⟩ :=
    standing.knows.author standing.authored found
  cases passes
  rw [standing.tracks.shared] at authors
  obtain ⟨⟨op, progress'⟩, held, above⟩ := standing.tracks.above called
  have asks : op.request codec = .ok (.propose entry) := above.asks sent
  rcases request_cases asks with ⟨node, command, _, rfl, same, encodes⟩ | ⟨-, impossible⟩
  · cases same
    exact ⟨index, node, command, progress', authors, held, encodes⟩
  · cases impossible

/-- `order` lists the writes as far as some store has applied them. -/
structure OrderOf (codec : TableCodec) (rules : LogRules served) (system : TablesOver Node Shared Op Fut)
    (applied : Node → List Entry) (order : List (Nat × TableCommand)) : Prop where
  inside : ∀ node, (applied node).length ≤ order.length
  held : ∀ node (slot : Nat) entry, (applied node)[slot]? = some entry →
    ∃ index command, order[slot]? = some (index, command) ∧ Encodes codec entry command
  issued : ∀ (slot index : Nat) (command : TableCommand), order[slot]? = some (index, command) →
    (∃ entry, Authors rules system.shared index entry slot) ∧
    ∃ (node : Node) (progress : Progress Future TableResult),
      system.calls[index]? = some ⟨.write node command, progress⟩

variable {applied : Node → List Entry}

/-- The entries of a store carry the commands of the order. -/
theorem OrderOf.carry (lawful : codec.Lawful) (orders : OrderOf codec rules system applied order)
    (plain : ∀ (index : Nat) node command progress,
      system.calls[index]? = some ⟨.write node command, progress⟩ → Plain command)
    {node : Node} {count : Nat} (inside : count ≤ (applied node).length) :
    Carry codec ((applied node).take count) ((order.take count).map Prod.snd) where
  decoded := by
    refine List.ext_getElem? fun slot => ?_
    rw [List.getElem?_map, List.getElem?_map, List.getElem?_map]
    by_cases before : slot < count
    · have present := List.getElem?_eq_getElem (Nat.lt_of_lt_of_le before inside)
      obtain ⟨index, command, found, encodes⟩ := orders.held node slot _ present
      rw [List.getElem?_take_of_lt before, List.getElem?_take_of_lt before, present, found]
      exact congrArg some (encodes.decoded lawful)
    · have beyond := Nat.not_lt.mp before
      rw [List.getElem?_take_eq_none beyond, List.getElem?_take_eq_none beyond]
      rfl
  plain command member := by
    obtain ⟨⟨index, _⟩, listed, rfl⟩ := List.mem_map.mp member
    obtain ⟨slot, present⟩ := List.getElem?_of_mem (List.mem_of_mem_take listed)
    obtain ⟨-, node, progress, called⟩ := orders.issued slot index _ present
    exact plain index node _ progress called

theorem OrderOf.represents (lawful : codec.Lawful) (orders : OrderOf codec rules system applied order)
    (plain : ∀ (index : Nat) node command progress,
      system.calls[index]? = some ⟨.write node command, progress⟩ → Plain command)
    {node : Node} {count : Nat} {data : StoreData} (inside : count ≤ (applied node).length)
    (replayed : (tableCommits codec).replay logPosBegin ((applied node).take count) = some data) :
    Represents codec (tablesAt codec order count) data :=
  represents_replay lawful replayed (orders.carry lawful plain inside)

/-- The engine has told the write the value of its own entry. -/
structure Told (codec : TableCodec) (served : ServedLog Node Shared Op Fut Event)
    (servers : Servers Node Unit Shared Op Fut) (heard : Node → List Entry) (counts : Node → Nat)
    (index slot : Nat) (node : Node) : Prop where
  landed : ∃ entry, Landed served servers index entry (slot + 1)
  inside : slot < counts node
  given : ∃ rv, checkResponse codec rv = .ok () ∧
    Given ((tableApplicator codec).Returns (tableCommits codec)) (heard node) slot rv

theorem Told.learn {servers servers' : Servers Node Unit Shared Op Fut} {index slot : Nat} {node : Node}
    (told : Told codec served servers heard counts index slot node)
    (learns : Servers.Learns servers servers' heard heard' counts counts') :
    Told codec served servers' heard' counts' index slot node where
  landed := told.landed.imp fun _ landed => landed.learn learns
  inside := Nat.lt_of_lt_of_le told.inside (learns.advanced node)
  given := told.given.imp fun _ known => ⟨known.1, known.2.retake (learns.kept node) told.inside⟩

theorem Standing.told (standing : Standing codec rules system below heard counts) {index : Nat}
    {node : Node} {command : TableCommand} {value : TableValue}
    (returned : system.Returned index (.write node command) (.ok value)) :
    value = .unit ∧ ∃ slot, Told codec served system.shared heard counts index slot node := by
  obtain ⟨called, present, above⟩ := standing.tracks.calls index _ returned
  generalize same : (Progress.finished (.ok value) : Progress Future TableResult) = progress at above
  cases above with
  | entering | asking => cases same
  | refused | failed => cases same
  | synced _ reads | read _ reads => exact absurd trivial reads
  | @written _ _ request rv asks =>
      have answered := Progress.finished.inj same
      unfold TableOp.respond at answered
      cases checked : checkResponse codec rv with
      | error error =>
          rw [checked] at answered
          cases answered
      | ok _ =>
          rw [checked] at answered
          cases answered
          obtain ⟨entry, -, slot, landed, inside, given⟩ := standing.knows.calls index _ _ present rv rfl
          rw [standing.tracks.shared] at landed
          exact ⟨rfl, slot, ⟨entry, landed⟩, inside, rv, checked, given⟩

end Sessions

/-! ### Runs over virtual logs -/

section Runs

open Servers (appliedBy take_appliedBy ClientsApart Seated Advances)

variable {Node State Fut Event : Type} [DecidableEq Node] {codec : TableCodec}
  {component : LogletComponent State Fut Event} {outline : LogletOutline component}
  {ownership : Ownership outline} {initial : String}

abbrev TablesOverLogs (Node State Fut : Type) :=
  TablesOver Node (Cluster (Seat Node) State) (Seat Node × LogletOp) (VirtualLog.Future Fut)

abbrev tablesOverLogs (Node : Type) [DecidableEq Node] (component : LogletComponent State Fut Event)
    (codec : TableCodec) :=
  tableServers (seatedLog (virtualLogComponent .shared component) :
    ServedLog Node (Cluster (Seat Node) State) _ _ _) codec

/-- Any calls, and any steps in the background that leave appending to the engines. -/
abbrev Beside (outline : LogletOutline component) (system : TablesOverLogs Node State Fut) :
    Action (TableOp Node) (ServerEvent Node Unit Unit (Seat Node × LogletOp)
      (ClusterEvent (Seat Node) Event)) → Prop :=
  Within (fun _ => True) (ClientsApart outline) system

variable {system next first last earlier later : TablesOverLogs Node State Fut}
  {heard heard' : Node → List Entry} {counts counts' : Node → Nat}
  {below below' : Servers.OverLogs Node Unit State Fut} {index : Nat} {op : TableOp Node}
  {value : TableValue}

theorem Standing.new {state : State} (inv : outline.Inv state)
    (fresh : ∀ index, outline.Fresh state index)
    (silent : ∀ index, ownership.Writes index .checkTail state) :
    Standing codec (logRules outline ownership initial)
      (.fresh (.new (.new initial state)) : TablesOverLogs Node State Fut)
      (.fresh (.new (.new initial state))) (fun _ => []) fun _ => 0 where
  tracks := .fresh _
  knows := Servers.knows_new ownership Replicas.direct (Replicas.gives_of_determines table_determines)
    inv fresh silent
  authored := .new _

theorem Standing.run (standing : Standing codec (logRules outline ownership initial) system below heard
      counts) (seated : system.shared.Seated)
    (run : (tablesOverLogs Node component codec).machine.Run (Beside outline) system next)
    (few : next.shared.log.calls.length + 1 < 2 ^ 64) :
    ∃ below' heard' counts',
      Standing codec (logRules outline ownership initial) next below' heard' counts' ∧
      next.shared.Seated ∧ Advances (logRules outline ownership initial) system.shared next.shared heard
        heard' counts counts' := by
  obtain ⟨below', run', tracks⟩ := tracks_run standing.tracks run
  have few' : below'.shared.log.calls.length + 1 < 2 ^ 64 := tracks.shared ▸ few
  have seatedBelow : below.shared.Seated := standing.tracks.shared ▸ seated
  obtain ⟨heard', counts', knows, authored, seated', advances⟩ := Servers.Knows.apart_run ownership
    (Replicas.gives_of_determines table_determines) standing.knows standing.authored seatedBelow run' few'
  rw [standing.tracks.shared, tracks.shared] at advances
  exact ⟨below', heard', counts', ⟨tracks, knows, authored⟩, tracks.shared ▸ seated', advances⟩

/-- A read returns a value when it takes its snapshot. -/
theorem poll_read {Shared Op Fut : Type} {servers servers' : Servers Node Unit Shared Op Fut}
    {future : Future} (reads : ¬ op.IsWrite)
    (polled : poll codec servers index op future = some (servers', .finished (.ok value))) :
    op.answer codec (servers.stores op.node) = some (.ok value) := by
  cases future with
  | enter =>
      simp only [poll] at polled
      split at polled <;> cases polled
  | engine request current =>
      obtain ⟨⟨state, progress⟩, -, resumed⟩ := Option.bind_eq_some_iff.mp polled
      obtain ⟨later, went, same⟩ := Option.map_eq_some_iff.mp resumed
      cases same
      cases progress with
      | running => cases went
      | finished result =>
          rcases result with error | found
          · cases went
          · cases op with
            | write => exact absurd trivial reads
            | get | scan => cases found <;> cases went
  | snapshot =>
      obtain ⟨result, answers, same⟩ := Option.map_eq_some_iff.mp polled
      cases same
      exact answers

/-- Both ways of looking at one state see the same entries. -/
theorem Standing.appliedBy_unique
    (standing : Standing codec (logRules outline ownership initial) system below heard counts)
    (standing' : Standing codec (logRules outline ownership initial) system below' heard' counts')
    (few : system.shared.log.calls.length + 1 < 2 ^ 64) :
    appliedBy heard counts = appliedBy heard' counts' := by
  have replicated := standing.knows.storesAgree (standing.tracks.shared ▸ few)
  have replicated' := standing'.knows.storesAgree (standing'.tracks.shared ▸ few)
  rw [standing'.tracks.shared, ← standing.tracks.shared] at replicated'
  exact replicated.unique standing.knows replicated'

/-- A read that has returned has seen what its store held at some moment in between. -/
theorem Standing.snapshot
    (standing : Standing codec (logRules outline ownership initial) first below heard counts)
    (standing' : Standing codec (logRules outline ownership initial) last below' heard' counts')
    (seated : first.shared.Seated)
    (run : (tablesOverLogs Node component codec).machine.Run (Beside outline) first last)
    (few : last.shared.log.calls.length + 1 < 2 ^ 64)
    (running : ∀ op result, ¬ first.Returned index op result)
    (returned : last.Returned index op (.ok value)) (reads : ¬ op.IsWrite) :
    ∃ count data, counts op.node ≤ count ∧ count ≤ counts' op.node ∧
      (tableCommits codec).replay logPosBegin ((appliedBy heard' counts' op.node).take count) =
        some data ∧ op.answer codec { data := data } = some (.ok value) := by
  obtain ⟨before, future, shared, reached, pending, permitted, polled, rest⟩ :=
    Component.finished_of_run run running returned
  have onward := (Machine.Run.single permitted (Component.step_of_poll pending polled)).trans rest
  obtain ⟨middle, -, tracks⟩ := tracks_run standing.tracks reached
  have fewer := tracks.length_le_run onward
  obtain ⟨_, heard₁, counts₁, standing₁, seated₁, advances₁⟩ := standing.run seated reached (by omega)
  obtain ⟨_, heard₂, counts₂, standing₂, -, advances₂⟩ := standing₁.run seated₁ onward few
  have same := congrFun (standing'.appliedBy_unique standing₂ few) op.node
  have length := standing'.knows.appliedBy_length op.node
  rw [same, standing₂.knows.appliedBy_length] at length
  have taken : (appliedBy heard' counts' op.node).take (counts₁ op.node) =
      (heard₁ op.node).take (counts₁ op.node) := by
    rw [same, take_appliedBy (advances₂.advanced op.node)]
    exact advances₂.kept op.node
  refine ⟨counts₁ op.node, _, advances₁.advanced op.node, length ▸ advances₂.advanced op.node, ?_,
    poll_read reads polled⟩
  rw [taken, ← standing₁.tracks.shared]
  exact (standing₁.knows.stored op.node).holds

end Runs

end TableServers

end Relos
