import Relos.Async.Wrapping
import Relos.Engine.EngineSeats
import Relos.Engine.ServerAuthors
import Relos.Log.Durability
import Relos.Log.LogClients
import Relos.Log.Ownership

set_option autoImplicit false

/-! Servers whose engines each hold a virtual log, over one MetaStore and loglets that the
factory shares, next to other virtual logs that append, trim and seal. -/

namespace Relos

open Async Serial BaseEngine

variable {Node Memory Choice State Fut Event : Type} [DecidableEq Node]

section Rules

variable {component : LogletComponent State Fut Event} (outline : LogletOutline component)

abbrev seatOutline (Node : Type) [DecidableEq Node] (outline : LogletOutline component)
    (initial : String) :=
  VirtualLog.virtualLogOutline (Seat Node) outline .shared initial

/-- Each virtual log runs one call at a time, and is opened anew only in between. -/
def LogStepOk
    (log : System (Cluster (Seat Node) State) (Seat Node × LogletOp) (VirtualLog.Future Fut)
      LogletResult)
    (action : Action (Seat Node × LogletOp) (ClusterEvent (Seat Node) Event)) : Prop :=
  OneEach Seat.of VirtualLog.touches log action ∧
    match action with
    | .background (.loglet loglet event) => outline.EventOk (log.shared.heap loglet) event
    | .start _ | .poll _ | .background (.openLog _) | .background (.factory _) => True

instance [∀ state event, Decidable (outline.EventOk state event)]
    (log : System (Cluster (Seat Node) State) (Seat Node × LogletOp) (VirtualLog.Future Fut)
      LogletResult) :
    (action : Action (Seat Node × LogletOp) (ClusterEvent (Seat Node) Event)) →
      Decidable (LogStepOk outline log action)
  | .background (.loglet loglet event) => inferInstanceAs (Decidable
      (OneEach Seat.of VirtualLog.touches log (.background (.loglet loglet event)) ∧
        outline.EventOk (log.shared.heap loglet) event))
  | .start call => decidable_of_iff (OneEach Seat.of VirtualLog.touches log (.start call))
      (Iff.of_eq (and_true _)).symm
  | .poll _ => isTrue ⟨trivial, trivial⟩
  | .background (.openLog node) => decidable_of_iff
      (OneEach Seat.of VirtualLog.touches log (.background (.openLog node)))
      (Iff.of_eq (and_true _)).symm
  | .background (.factory _) => isTrue ⟨fun _ impossible => (by cases impossible), trivial⟩

variable (ownership : Ownership outline) (initial : String)

structure LogInv
    (log : System (Cluster (Seat Node) State) (Seat Node × LogletOp) (VirtualLog.Future Fut)
      LogletResult) : Prop where
  valid : (seatOutline Node outline initial).Valid log
  orderly : (VirtualLog.logClients (Seat Node) outline initial).Orderly log
  writes : ∀ index, VirtualLog.WritesOwn ownership index (log.calls[index]?.map Call.op) log.shared

variable {outline ownership initial}

theorem LogStepOk.permit
    {log : System (Cluster (Seat Node) State) (Seat Node × LogletOp) (VirtualLog.Future Fut)
      LogletResult}
    {action : Action (Seat Node × LogletOp) (ClusterEvent (Seat Node) Event)}
    (ok : LogStepOk outline log action) (inv : LogInv outline ownership initial log) :
    (seatOutline Node outline initial).permit log action := by
  cases action with
  | start call => exact fun _ => ownership.trims
  | poll index =>
      intro call future pending
      refine ⟨VirtualLog.coherent_of_shared inv.valid.inv (inv.valid.running pending).1
        (inv.orderly.busy index call future call.1 pending rfl), ?_⟩
      cases future <;> first | exact ownership.pollOk _ _ _ _ | trivial
  | background event =>
      cases event with
      | loglet loglet event => exact ok.2
      | openLog node => rfl
      | factory error => trivial

theorem LogInv.step
    {log next : System (Cluster (Seat Node) State) (Seat Node × LogletOp) (VirtualLog.Future Fut)
      LogletResult}
    {action : Action (Seat Node × LogletOp) (ClusterEvent (Seat Node) Event)}
    (inv : LogInv outline ownership initial log) (ok : LogStepOk outline log action)
    (moved : (virtualLogComponent .shared component).machine.step log action = some next) :
    LogInv outline ownership initial next where
  valid := inv.valid.step (ok.permit inv) moved
  orderly := inv.orderly.step inv.valid ok.1 (ok.permit inv)
    (VirtualLog.logClients_permit action) moved
  writes := inv.valid.facts (VirtualLog.WritesOwn ownership)
    (fun before after grows writes loglet =>
      ownership.stable (before.heap loglet) (after.heap loglet) (grows.heap loglet) (writes loglet))
    (fun op writes loglet => ownership.silent op.2 (writes loglet))
    (fun polled writes => writes.poll polled) (ok.permit inv) moved inv.writes

theorem LogInv.positive
    {log : System (Cluster (Seat Node) State) (Seat Node × LogletOp) (VirtualLog.Future Fut)
      LogletResult} {seat : Seat Node} {owner : Nat} {entry : Entry} {pos : Nat}
    (inv : LogInv outline ownership initial log)
    (placed : VirtualLog.PlacedAt outline initial log.shared seat owner entry pos) :
    logPosBegin ≤ pos := by
  obtain ⟨epoch, loglet, localPos, backs, placed, rfl⟩ := placed
  have first := inv.valid.inv.ordered.startAt_pos
    (Nat.le_trans backs.1 (inv.valid.inv.epoch_le seat))
  have inside := outline.placed_pos (inv.valid.inv.heap loglet) placed
  unfold localToGlobal
  simp only [logPosBegin] at first inside ⊢
  omega

variable (outline ownership initial) in
/-- What the servers rely on, over any loglets that own their positions. -/
def logRules : LogRules (seatedLog (virtualLogComponent .shared component) :
    ServedLog Node (Cluster (Seat Node) State) _ _ _) where
  permit := LogStepOk outline
  Inv := LogInv outline ownership initial
  Placed log owner entry pos :=
    ∃ seat, VirtualLog.PlacedAt outline initial log.shared seat owner entry pos
  step := by
    intro log next action inv ok moved
    refine ⟨inv.step ok moved, fun owner entry pos placed => ?_⟩
    exact Outline.fact_run
      (fun cluster => ∃ seat, VirtualLog.PlacedAt outline initial cluster seat owner entry pos)
      (fun before after grows => Exists.imp fun _ there => there.stable before after grows)
      inv.valid placed (.single (ok.permit inv) moved)
  positive inv placed := placed.elim fun _ placed => inv.positive placed
  unique := by
    rintro log owner owner' entry entry' pos inv ⟨seat, placed⟩ ⟨seat', placed'⟩
    exact placed.unique inv.valid.inv (fun impossible => by cases impossible) placed'
  author := by
    rintro log owner entry pos inv ⟨seat, epoch, loglet, localPos, -, placed, -⟩
    have own := ownership.placed (inv.valid.inv.heap loglet) (inv.writes owner loglet) placed
    unfold System.ops
    rw [List.getElem?_map]
    cases called : log.calls[owner]?.map Call.op with
    | none =>
        rw [called] at own
        cases own
    | some call =>
        rw [called] at own
        exact ⟨call, rfl, own⟩
  appended := by
    rintro log call ⟨seat, op⟩ entry pos inv returned asks
    cases asks
    obtain ⟨_, same, appended⟩ := (inv.valid.finished returned).1
    cases same
    exact ⟨seat, appended.placedAt inv.valid.inv⟩
  read := by
    rintro log call ⟨seat, op⟩ entry pos inv returned asks
    cases asks
    obtain ⟨_, same, placed⟩ := (inv.valid.finished returned).1
    cases same
    obtain ⟨owner, there⟩ := placed entry rfl
    exact ⟨owner, seat, there⟩

theorem LogInv.new {state : State} (inv : outline.Inv state)
    (fresh : ∀ index, outline.Fresh state index)
    (silent : ∀ index, ownership.Writes index .checkTail state) :
    LogInv outline ownership initial (.fresh (Cluster.new initial state) : System
      (Cluster (Seat Node) State) (Seat Node × LogletOp) (VirtualLog.Future Fut) LogletResult) where
  valid := .init (.new outline .shared initial state inv) fun index _ => fresh index
  orderly := .fresh fun _ => rfl
  writes index _ := silent index

end Rules

namespace Servers

variable {component : LogletComponent State Fut Event} {outline : LogletOutline component}
  {ownership : Ownership outline} {initial : String} {applicator : Applicator Memory Choice}
  {enter : Node → Memory → EngineOp → Result EngineOp}
  {Holds : List Entry → StoreData → Prop} {Value : List Entry → Entry → ReturnValue → Prop}

abbrev OverLogs (Node Memory State Fut : Type) :=
  System (Servers Node Memory (Cluster (Seat Node) State) (Seat Node × LogletOp)
    (VirtualLog.Future Fut)) (Node × EngineOp) Future EngineResult

/-- No client uses the virtual log of an engine. -/
def LogsApart (outline : LogletOutline component) (system : OverLogs Node Memory State Fut) :
    Action (Node × EngineOp) (ServerEvent Node Memory Choice (Seat Node × LogletOp)
      (ClusterEvent (Seat Node) Event)) → Prop
  | .background (.log action) => StartedByClients action ∧ LogStepOk outline system.shared.log action
  | .start _ | .poll _ | .background (.turn _ _) | .background (.stop _)
  | .background (.new _ _) => True

instance [∀ state event, Decidable (outline.EventOk state event)]
    (system : OverLogs Node Memory State Fut) :
    (action : Action (Node × EngineOp) (ServerEvent Node Memory Choice (Seat Node × LogletOp)
      (ClusterEvent (Seat Node) Event))) → Decidable (LogsApart outline system action)
  | .background (.log action) => inferInstanceAs (Decidable
      (StartedByClients action ∧ LogStepOk outline system.shared.log action))
  | .start _ | .poll _ | .background (.turn _ _) | .background (.stop _)
  | .background (.new _ _) => isTrue trivial

/-- Clients use virtual logs of their own, and leave it to the engines to append. -/
def ClientsApart (outline : LogletOutline component)
    (servers : Servers Node Memory (Cluster (Seat Node) State) (Seat Node × LogletOp)
      (VirtualLog.Future Fut)) :
    ServerEvent Node Memory Choice (Seat Node × LogletOp) (ClusterEvent (Seat Node) Event) → Prop
  | .log action => (StartedByClients action ∧ LogStepOk outline servers.log action) ∧
      EnginesAppend (seatedLog (virtualLogComponent .shared component))
        (.log action : ServerEvent Node Memory Choice _ _)
  | .turn _ _ | .stop _ | .new _ _ => True

instance [∀ state event, Decidable (outline.EventOk state event)]
    (servers : Servers Node Memory (Cluster (Seat Node) State) (Seat Node × LogletOp)
      (VirtualLog.Future Fut)) :
    (event : ServerEvent Node Memory Choice (Seat Node × LogletOp) (ClusterEvent (Seat Node) Event)) →
      Decidable (ClientsApart outline servers event)
  | .log action => inferInstanceAs (Decidable
      ((StartedByClients action ∧ LogStepOk outline servers.log action) ∧
        EnginesAppend (seatedLog (virtualLogComponent .shared component))
          (.log action : ServerEvent Node Memory Choice _ _)))
  | .turn _ _ | .stop _ | .new _ _ => isTrue trivial

variable (ownership initial) in
/-- The log call of an apply loop is always one that its virtual log may start. -/
theorem LogsApart.permit {system : OverLogs Node Memory State Fut} (seated : system.shared.Seated)
    {action : Action (Node × EngineOp) (ServerEvent Node Memory Choice (Seat Node × LogletOp)
      (ClusterEvent (Seat Node) Event))} (apart : LogsApart outline system action) :
    Servers.permit (logRules outline ownership initial) system action := by
  cases action with
  | start call => trivial
  | poll index => trivial
  | background event =>
      cases event with
      | log action => exact apart.2
      | turn node choice =>
          intro engine resultTx op running asking nothing
          refine ⟨fun who same => ?_, trivial⟩
          cases same
          exact seated.idle running nothing
      | stop node => trivial
      | new node memory => trivial

variable (ownership initial) in
/-- Runs next to other virtual logs are runs that the rules account for. -/
theorem permitted_overLogs {system next : OverLogs Node Memory State Fut} (seated : system.shared.Seated)
    (run : (serverComponent (seatedLog (virtualLogComponent .shared component)) enter
      applicator).machine.Run (LogsApart outline) system next) :
    (serverComponent (seatedLog (virtualLogComponent .shared component)) enter applicator).machine.Run
      (Servers.permit (logRules outline ownership initial)) system next ∧ next.shared.Seated :=
  run.strengthen (fun state => state.shared.Seated) seated fun state action last seated apart moved =>
    ⟨LogsApart.permit ownership initial seated apart,
      seated.step (fun logAction same => by cases same; exact apart.1) moved⟩

theorem ClientsApart.apart {system : OverLogs Node Memory State Fut}
    {action : Action (Node × EngineOp) (ServerEvent Node Memory Choice (Seat Node × LogletOp)
      (ClusterEvent (Seat Node) Event))}
    (within : Within (fun _ => True) (ClientsApart outline) system action) :
    LogsApart outline system action := by
  cases action with
  | start | poll => trivial
  | background event =>
      cases event with
      | log logAction => exact within.1
      | turn | stop | new => trivial

theorem ClientsApart.engines
    {servers : Servers Node Memory (Cluster (Seat Node) State) (Seat Node × LogletOp)
      (VirtualLog.Future Fut)}
    {event : ServerEvent Node Memory Choice (Seat Node × LogletOp) (ClusterEvent (Seat Node) Event)}
    (apart : ClientsApart outline servers event) :
    EnginesAppend (seatedLog (virtualLogComponent .shared component)) event := by
  cases event with
  | log action => exact apart.2
  | turn | stop | new => trivial

variable (ownership) in
/-- Runs in which clients leave appending to the engines, with what is known of them. -/
theorem Knows.apart_run (gives : applicator.Gives Holds Value)
    {system next : OverLogs Node Memory State Fut} {heard : Node → List Entry} {counts : Node → Nat}
    (knows : Knows enter Holds Value (logRules outline ownership initial) system heard counts)
    (authored : Authored enter (seatedLog (virtualLogComponent .shared component)) system)
    (seated : system.shared.Seated)
    (run : (serverComponent (seatedLog (virtualLogComponent .shared component)) enter
      applicator).machine.Run (Within (fun _ => True) (ClientsApart outline)) system next)
    (few : next.shared.log.calls.length + 1 < 2 ^ 64) :
    ∃ heard' counts', Knows enter Holds Value (logRules outline ownership initial) next heard' counts' ∧
      Authored enter (seatedLog (virtualLogComponent .shared component)) next ∧ next.shared.Seated ∧
      Advances (logRules outline ownership initial) system.shared next.shared heard heard' counts
        counts' := by
  obtain ⟨permitted, seated'⟩ : (serverComponent (seatedLog (virtualLogComponent .shared component)) enter
      applicator).machine.Run (fun state action => permit (logRules outline ownership initial) state
        action ∧ Within (fun _ => True) (ClientsApart outline) state action) system next ∧
      next.shared.Seated :=
    run.strengthen (fun state => state.shared.Seated) seated fun state action last seated within moved =>
      ⟨⟨LogsApart.permit ownership initial seated (ClientsApart.apart within), within⟩,
        seated.step (fun logAction same => by cases same; exact within.1.1) moved⟩
  obtain ⟨heard', counts', knows', advances⟩ :=
    Knows.run gives (fun _ _ permitted => permitted.1) knows permitted few
  have authored' := knows.authored_run gives (fun _ _ permitted => permitted.1)
    (fun _ _ permitted => ClientsApart.engines permitted.2) authored permitted few
  exact ⟨heard', counts', knows', authored', seated', advances⟩

variable (ownership enter) in
theorem knows_new (gives : applicator.Gives Holds Value) {state : State} (inv : outline.Inv state)
    (fresh : ∀ index, outline.Fresh state index)
    (silent : ∀ index, ownership.Writes index .checkTail state) :
    Knows enter Holds Value (logRules outline ownership initial)
      (.fresh (.new (.new initial state)) : OverLogs Node Memory State Fut) (fun _ => []) fun _ => 0 :=
  .new gives (LogInv.new inv fresh silent)

variable (ownership) in
theorem knows_overLogs (gives : applicator.Gives Holds Value) {state : State}
    (inv : outline.Inv state) (fresh : ∀ index, outline.Fresh state index)
    (silent : ∀ index, ownership.Writes index .checkTail state)
    {system : OverLogs Node Memory State Fut}
    (run : (serverComponent (seatedLog (virtualLogComponent .shared component)) enter
      applicator).machine.Run (LogsApart outline) (.fresh (.new (.new initial state))) system)
    (few : system.shared.log.calls.length + 1 < 2 ^ 64) :
    ∃ heard counts, Knows enter Holds Value (logRules outline ownership initial) system heard
      counts := by
  obtain ⟨permitted, -⟩ := permitted_overLogs ownership initial (Seated.new _) run
  obtain ⟨heard, counts, knows, -⟩ := Knows.run gives (fun _ _ permitted => permitted)
    (knows_new ownership enter gives inv fresh silent) permitted few
  exact ⟨heard, counts, knows⟩

/-! ### Memory loglets -/

abbrev memoryLog (Node : Type) [DecidableEq Node] := (seatedLog (virtualLogComponent .shared memoryComponent) :
  ServedLog Node (Cluster (Seat Node) TrackedLoglet) _ _ _)

abbrev memoryServers (enter : Node → Memory → EngineOp → Result EngineOp)
    (applicator : Applicator Memory Choice) :=
  serverComponent (memoryLog Node) enter applicator

variable {machine : Replay.StateMachine Entry StoreData ReturnValue}

theorem knows_memory (gives : applicator.Gives Holds Value)
    {system : OverLogs Node Memory TrackedLoglet Unit}
    (run : (memoryServers enter applicator).machine.Run (LogsApart memoryOwnedOutline)
      (.fresh (.new (.new initial .new))) system)
    (few : system.shared.log.calls.length + 1 < 2 ^ 64) :
    ∃ heard counts, Knows enter Holds Value (logRules memoryOwnedOutline memoryOwnership initial)
      system heard counts :=
  knows_overLogs memoryOwnership gives (TrackedLoglet.Inv.new True) (fun _ => trivial)
    (fun index => TrackedLoglet.writes_new index .checkTail) run few

/-- Whatever clients append, trim and seal next to the engines, and whichever engines stop and
start, the store of every server is a replay of one log, whose entries were read at their
positions. -/
theorem virtualLog_stores_agree (deterministic : applicator.Determines machine)
    {system : OverLogs Node Memory TrackedLoglet Unit}
    (run : (memoryServers enter applicator).machine.Run (LogsApart memoryOwnedOutline)
      (.fresh (.new (.new initial .new))) system)
    (few : system.shared.log.calls.length + 1 < 2 ^ 64) :
    ∃ applied, Replicated (memoryLog Node) machine system.shared applied := by
  obtain ⟨heard, counts, knows⟩ := knows_memory (Replicas.gives_of_determines deterministic) run few
  exact ⟨_, knows.storesAgree few⟩

/-- A propose that returns has appended its entry once, at a position of its own, and every
store that has come past the position has given the entry the value that was returned. -/
theorem virtualLog_propose_returns (deterministic : applicator.Determines machine)
    {system : OverLogs Node Memory TrackedLoglet Unit}
    (run : (memoryServers Replicas.direct applicator).machine.Run (LogsApart memoryOwnedOutline)
      (.fresh (.new (.new initial .new))) system)
    (few : system.shared.log.calls.length + 1 < 2 ^ 64) :
    ∃ applied, Replicated (memoryLog Node) machine system.shared applied ∧
      Answered (memoryLog Node) applicator machine system applied := by
  obtain ⟨heard, counts, knows⟩ := knows_memory (Replicas.gives_of_determines deterministic) run few
  exact ⟨_, knows.storesAgree few, knows.answered⟩

instance (tracked : TrackedLoglet) (event : Empty) : Decidable (memoryOwnedOutline.EventOk tracked event) :=
  isTrue trivial

abbrev TwoServersAction (Call Choice Event : Type) := Action Call
  (ServerEvent Bool Unit Choice (Seat Bool × LogletOp) (ClusterEvent (Seat Bool) Event))

variable {Call : Type}

def serverTurns (choice : Choice) (node : Bool) (count : Nat) :
    List (TwoServersAction Call Choice Event) :=
  List.replicate count (.background (.turn node choice))

def logPolls (index count : Nat) : List (TwoServersAction Call Choice Event) :=
  List.replicate count (.background (.log (.poll index)))

def bothStarted : List (TwoServersAction Call Choice Event) :=
  [.background (.new true ()), .background (.new false ())]

def proposed (index : Nat) (node : Bool) (entry : Entry) :
    List (TwoServersAction (Bool × EngineOp) Choice Event) :=
  [.start (node, .propose entry), .poll index, .poll index]

/-- A client, with a virtual log of its own, asks for a seal. -/
def clientSeals : List (TwoServersAction Call Choice Event) :=
  [.background (.log (.start (.client 0, .seal)))]

/-- The loop of the node makes its log call, which is the given one and takes so many polls,
and goes on as often as it can without another one. -/
def throughCall (choice : Choice) (node : Bool) (index polls turns : Nat) :
    List (TwoServersAction Call Choice Event) :=
  serverTurns choice node 1 ++ logPolls index polls ++ serverTurns choice node turns

/-- A propose on one server, a seal by a client, a restart, a propose on the other server that
has to reconfigure, and a sync on the first one. -/
def sealedBetweenProposes : List (TwoServersAction (Bool × EngineOp) (Option RelosError) Empty) :=
  bothStarted ++ proposed 0 true (.new [1]) ++
    serverTurns none true 1 ++ throughCall none true 0 3 1 ++ throughCall none true 1 3 5 ++ [.poll 0] ++
    clientSeals ++ logPolls 2 3 ++ [.background (.stop true), .background (.new true ())] ++
    proposed 1 false (.new [2]) ++
    serverTurns none false 1 ++ throughCall none false 3 16 1 ++ throughCall none false 4 3 4 ++
    throughCall none false 5 3 5 ++ [.poll 1, .start (true, .sync), .poll 2, .poll 2] ++
    serverTurns none true 1 ++ throughCall none true 6 3 2 ++ [.poll 2]

theorem run_sealedBetweenProposes : ∃ system : OverLogs Bool Unit TrackedLoglet Unit,
    (memoryServers Replicas.direct payloads).machine.Run (LogsApart memoryOwnedOutline)
      (.fresh (.new (.new "memory-0" .new))) system ∧
    system.calls = [⟨(true, .propose (.new [1])), .finished (.ok (.returned (.data [1])))⟩,
      ⟨(false, .propose (.new [2])), .finished (.ok (.returned (.data [2])))⟩,
      ⟨(true, .sync), .finished (.ok (.pos 2))⟩] ∧
    system.shared.log.calls.length = 7 := by
  obtain ⟨system, run, seen⟩ := Machine.exists_run_of_execute
    (memoryServers Replicas.direct payloads).machine (LogsApart memoryOwnedOutline)
    (.fresh (.new (.new "memory-0" .new))) sealedBetweenProposes
    (fun system => (system.calls, system.shared.log.calls.length))
    ([⟨(true, .propose (.new [1])), .finished (.ok (.returned (.data [1])))⟩,
      ⟨(false, .propose (.new [2])), .finished (.ok (.returned (.data [2])))⟩,
      ⟨(true, .sync), .finished (.ok (.pos 2))⟩], 7) (by decide +kernel)
  obtain ⟨calls, length⟩ := Prod.mk.inj seen
  exact ⟨system, run, calls, length⟩

theorem virtualLog_stores_agree_sealed : ∃ system : OverLogs Bool Unit TrackedLoglet Unit,
    system.Returned 1 (false, .propose (.new [2])) (.ok (.returned (.data [2]))) ∧
    system.Returned 2 (true, .sync) (.ok (.pos 2)) ∧
    ∃ applied, Replicated (memoryLog Bool) Replicas.payloadCommits system.shared applied := by
  obtain ⟨system, run, calls, length⟩ := run_sealedBetweenProposes
  exact ⟨system, congrArg (fun calls => calls[1]?) calls, congrArg (fun calls => calls[2]?) calls,
    virtualLog_stores_agree Replicas.payloads_determines run (by rw [length]; decide)⟩

theorem virtualLog_propose_returns_sealed : ∃ system : OverLogs Bool Unit TrackedLoglet Unit,
    system.Returned 1 (false, .propose (.new [2])) (.ok (.returned (.data [2]))) ∧
    ∃ applied, Replicated (memoryLog Bool) Replicas.payloadCommits system.shared applied ∧
      Answered (memoryLog Bool) payloads Replicas.payloadCommits system applied := by
  obtain ⟨system, run, calls, length⟩ := run_sealedBetweenProposes
  exact ⟨system, congrArg (fun calls => calls[1]?) calls,
    virtualLog_propose_returns Replicas.payloads_determines run (by rw [length]; decide)⟩

/-! ### Replicated loglets -/

section Native

variable {n : Nat}

abbrev nativeLog (Node : Type) [DecidableEq Node] (n : Nat) :=
  (seatedLog (virtualLogComponent .shared (nativeComponent n)) :
    ServedLog Node (Cluster (Seat Node) (NativeLoglet n)) _ _ _)

abbrev nativeServers (n : Nat) (enter : Node → Memory → EngineOp → Result EngineOp)
    (applicator : Applicator Memory Choice) :=
  serverComponent (nativeLog Node n) enter applicator

/-- Servers, virtual logs, sequencers and log servers, with all their messages in flight: as
long as the log servers stay alive, the stores are replays of one log, and every propose that
returns was told the value of its own entry. -/
theorem nativeLog_propose_returns (deterministic : applicator.Determines machine)
    {system : OverLogs Node Memory (NativeLoglet n) NativeLoglet.Future}
    (run : (nativeServers n Replicas.direct applicator).machine.Run
      (LogsApart (nativeOwnedOutline n)) (.fresh (.new (.new initial (.new n)))) system)
    (few : system.shared.log.calls.length + 1 < 2 ^ 64) :
    ∃ applied, Replicated (nativeLog Node n) machine system.shared applied ∧
      Answered (nativeLog Node n) applicator machine system applied := by
  obtain ⟨heard, counts, knows⟩ := knows_overLogs (nativeOwnership n)
    (Replicas.gives_of_determines deterministic) ⟨.new True n, .new n⟩ (NativeLogs.settled_new .any)
    (fun index => NativeLoglet.writes_new index .checkTail) run few
  exact ⟨_, knows.storesAgree few, knows.answered⟩

instance (state : NativeLoglet n) :
    (event : NativeLoglet.Event n) → Decidable ((nativeOwnedOutline n).EventOk state event)
  | .serve _ => isTrue trivial
  | .stop _ => isFalse id

def serveLog (loglet : LogletRef) (tasks : List (Task n)) :
    List (TwoServersAction Call Choice (NativeLoglet.Event n)) :=
  tasks.map fun task => .background (.log (.background (.loglet loglet (.serve task))))

/-- From the first request of `append` or `seal` to its last reply. -/
def throughQuorum (index : Nat) (loglet : LogletRef) :
    List (TwoServersAction Call Choice (NativeLoglet.Event n)) :=
  logPolls index 1 ++ serveLog loglet [.sequencer] ++ logPolls index (n + 2) ++
    serveLog loglet ((List.finRange n).map .logServer) ++ logPolls index (n + 1)

def throughRead (choice : Choice) (node : Bool) (index : Nat) (loglet : LogletRef) (turns : Nat) :
    List (TwoServersAction Call Choice (NativeLoglet.Event 3)) :=
  serverTurns choice node 1 ++ logPolls index 3 ++
    serveLog loglet (((List.finRange 3).take 1).map .logServer) ++ logPolls index 1 ++
    serverTurns choice node turns

/-- From the request at the first server to its reply. -/
def appendsFirst (choice : Choice) : List (TwoServersAction Call Choice (NativeLoglet.Event 3)) :=
  serverTurns choice true 2 ++ logPolls 0 3 ++ throughQuorum 0 ⟨"native-0", 0⟩ ++ serverTurns choice true 1 ++
    throughRead choice true 1 ⟨"native-0", 0⟩ 5

/-- A client seals the loglet. -/
def sealsFirst : List (TwoServersAction Call Choice (NativeLoglet.Event 3)) :=
  clientSeals ++ logPolls 2 2 ++ throughQuorum 2 ⟨"native-0", 0⟩

/-- The other server meets the seal, reconfigures, appends and reads both loglets. -/
def appendsSecond (choice : Choice) : List (TwoServersAction Call Choice (NativeLoglet.Event 3)) :=
  let loglet : LogletRef := ⟨"native-0", 0⟩
  let newLoglet : LogletRef := ⟨"loglet-1", 0⟩
  serverTurns choice false 2 ++ logPolls 3 4 ++ serveLog loglet [.sequencer] ++ logPolls 3 3 ++
    throughQuorum 3 loglet ++ logPolls 3 10 ++ throughQuorum 3 newLoglet ++
    serverTurns choice false 1 ++ throughRead choice false 4 loglet 4 ++ throughRead choice false 5 newLoglet 5

/-- A propose on one server, a seal by a client, and a propose on the other server. -/
def sealedQuorums (choice : Choice) (first second : Entry) :
    List (TwoServersAction (Bool × EngineOp) Choice (NativeLoglet.Event 3)) :=
  bothStarted ++ proposed 0 true first ++ appendsFirst choice ++ [.poll 0] ++ sealsFirst ++
    proposed 1 false second ++ appendsSecond choice ++ [.poll 1]

theorem nativeLog_propose_returns_sealed :
    ∃ system : OverLogs Bool Unit (NativeLoglet 3) NativeLoglet.Future,
      system.Returned 0 (true, .propose (.new [1])) (.ok (.returned (.data [1]))) ∧
      system.Returned 1 (false, .propose (.new [2])) (.ok (.returned (.data [2]))) ∧
      ∃ applied, Replicated (nativeLog Bool 3) Replicas.payloadCommits system.shared applied ∧
        Answered (nativeLog Bool 3) payloads Replicas.payloadCommits system applied := by
  obtain ⟨system, run, seen⟩ := Machine.exists_run_of_execute
    (nativeServers 3 Replicas.direct payloads).machine (LogsApart (nativeOwnedOutline 3))
    (.fresh (.new (.new "native-0" (.new 3)))) (sealedQuorums none (.new [1]) (.new [2]))
    (fun system => (system.calls, system.shared.log.calls.length))
    ([⟨(true, .propose (.new [1])), .finished (.ok (.returned (.data [1])))⟩,
      ⟨(false, .propose (.new [2])), .finished (.ok (.returned (.data [2])))⟩], 6)
    (by decide +kernel)
  obtain ⟨calls, length⟩ := Prod.mk.inj seen
  exact ⟨system, congrArg (fun calls => calls[0]?) calls, congrArg (fun calls => calls[1]?) calls,
    nativeLog_propose_returns Replicas.payloads_determines run (by rw [length]; decide)⟩

end Native

end Servers

end Relos
