import Relos.Async.Clients
import Relos.Engine.ServerReplication

set_option autoImplicit false

/-! Servers whose engines each have a log of their own, next to other clients of the logs. An
engine's log runs at most the one call that its apply loop awaits. -/

namespace Relos

open Async BaseEngine

/-- Who calls: the engine that was created at this count on a node, or a client. -/
inductive Seat (Node : Type) where
  | engine (node : Node) (created : Nat)
  | client (who : Nat)
deriving DecidableEq

variable {Node Memory Choice Shared Fut Event : Type}

/-- Every call is made from a seat. -/
def seatedLog (component : Component Shared (Seat Node × LogletOp) Fut LogletResult Event) :
    ServedLog Node Shared (Seat Node × LogletOp) Fut Event where
  component := component
  ask node created op := (.engine node created, op)
  asks := Prod.snd
  asks_ask _ _ _ := rfl

def Seat.of (call : Seat Node × LogletOp) : Option (Seat Node) := some call.1

def Seat.IsClient : Seat Node → Prop
  | .engine _ _ => False
  | .client _ => True

instance (seat : Seat Node) : Decidable seat.IsClient :=
  match seat with
  | .engine _ _ => isFalse id
  | .client _ => isTrue trivial

namespace Servers

/-- Only clients start calls of the log next to the engines. -/
def StartedByClients : Action (Seat Node × LogletOp) Event → Prop
  | .start call => call.1.IsClient
  | .poll _ | .background _ => True

instance : (action : Action (Seat Node × LogletOp) Event) → Decidable (StartedByClients action)
  | .start call => inferInstanceAs (Decidable call.1.IsClient)
  | .poll _ => isTrue trivial
  | .background _ => isTrue trivial

/-- What the apply loops know of the calls of their own logs. -/
structure Seated (servers : Servers Node Memory Shared (Seat Node × LogletOp) Fut) : Prop where
  created : ∀ index node count op future,
    servers.log.Pending index (.engine node count, op) future → count ≤ servers.created node
  awaited : ∀ index node op future engine,
    servers.log.Pending index (.engine node (servers.created node), op) future →
    servers.engines node = some engine → servers.awaited node = some index
  asking : ∀ node index, servers.awaited node = some index →
    ∃ engine, servers.engines node = some engine ∧ engine.logCall ≠ none

variable {servers next : Servers Node Memory Shared (Seat Node × LogletOp) Fut}
  {component : Component Shared (Seat Node × LogletOp) Fut LogletResult Event}

theorem Seated.new (shared : Shared) :
    (Servers.new shared : Servers Node Memory Shared (Seat Node × LogletOp) Fut).Seated where
  created _ _ _ _ _ impossible := by cases impossible
  awaited _ _ _ _ _ impossible := by cases impossible
  asking _ _ impossible := by cases impossible

/-- A loop that awaits nothing has no call running. -/
theorem Seated.idle (seated : servers.Seated) {node : Node} {engine : BaseEngine Memory}
    (running : servers.engines node = some engine) (nothing : servers.awaited node = none) :
    servers.log.Idle Seat.of (.engine node (servers.created node)) := by
  intro index call future pending same
  obtain ⟨seat, op⟩ := call
  cases same
  have waits := seated.awaited index node op future engine pending running
  cases nothing.symm.trans waits

/-- A loop whose call has returned has no call running. -/
theorem Seated.idle_of_returned (seated : servers.Seated) {node : Node}
    {engine : BaseEngine Memory} (running : servers.engines node = some engine) {call : Nat}
    (waits : servers.awaited node = some call) {asked : Seat Node × LogletOp} {result : LogletResult}
    (returned : servers.log.Returned call asked result) {index : Nat} {op : LogletOp} {future : Fut} :
    ¬ servers.log.Pending index (.engine node (servers.created node), op) future := by
  intro pending
  have same := Option.some.inj (waits.symm.trans
    (seated.awaited index node op future engine pending running))
  subst same
  cases Option.some.inj (returned.symm.trans pending)

/-- The calls of the log and the loops that await them stay. -/
theorem Seated.congr (seated : servers.Seated) (log : next.log = servers.log)
    (created : next.created = servers.created) (awaited : next.awaited = servers.awaited)
    (engines : ∀ node engine, next.engines node = some engine →
      ∃ engine', servers.engines node = some engine' ∧ engine'.logCall = engine.logCall)
    (still : ∀ node engine, servers.engines node = some engine →
      ∃ engine', next.engines node = some engine' ∧ engine'.logCall = engine.logCall) :
    next.Seated where
  created := by
    rw [log, created]
    exact seated.created
  awaited index node op future engine pending running := by
    rw [log, created] at pending
    rw [awaited]
    obtain ⟨engine', running', -⟩ := engines node engine running
    exact seated.awaited index node op future engine' pending running'
  asking node index waits := by
    rw [awaited] at waits
    obtain ⟨engine, running, asking⟩ := seated.asking node index waits
    obtain ⟨engine', running', same⟩ := still node engine running
    exact ⟨engine', running', same ▸ asking⟩

theorem Seated.log (seated : servers.Seated)
    {log : System Shared (Seat Node × LogletOp) Fut LogletResult}
    {action : Action (Seat Node × LogletOp) Event} (byClients : StartedByClients action)
    (moved : component.machine.step servers.log action = some log) :
    { servers with log := log : Servers Node Memory Shared _ Fut }.Seated := by
  -- No step of the log gives an engine's log a new call.
  have before : ∀ index node count op future,
      log.Pending index (.engine node count, op) future →
      ∃ earlier, servers.log.Pending index (.engine node count, op) earlier := by
    intro index node count op future pending
    cases action with
    | start call =>
        rw [Component.step_start moved] at pending
        rcases pending_start pending with earlier | ⟨-, rfl, -⟩
        · exact ⟨future, earlier⟩
        · exact byClients.elim
    | poll polled =>
        obtain ⟨_, earlier, _, _, was, _, rfl⟩ := Component.step_poll moved
        rcases pending_poll pending with ⟨rfl, rfl, -⟩ | ⟨-, same⟩
        · exact ⟨earlier, was⟩
        · exact ⟨future, same⟩
    | background event =>
        obtain ⟨_, _, rfl⟩ := Component.step_background moved
        exact ⟨future, pending⟩
  refine ⟨fun index node count op future pending => ?_,
    fun index node op future engine pending running => ?_, seated.asking⟩
  · obtain ⟨earlier, was⟩ := before _ _ _ _ _ pending
    exact seated.created _ _ _ _ _ was
  · obtain ⟨earlier, was⟩ := before _ _ _ _ _ pending
    exact seated.awaited _ _ _ _ engine was running

variable [DecidableEq Node]

/-- A loop goes on that has no call of its own running. -/
theorem Seated.turned (seated : servers.Seated) {node : Node} {turn : LocalTurn Memory}
    (idle : ∀ index op future,
      ¬ servers.log.Pending index (.engine node (servers.created node), op) future) :
    (servers.turned node turn).Seated where
  created := seated.created
  awaited index other op future engine pending running := by
    by_cases here : other = node
    · subst here
      exact absurd pending (idle index op future)
    · unfold Servers.turned at running ⊢
      dsimp only at running ⊢
      rw [Function.update_of_ne here] at running ⊢
      exact seated.awaited index other op future engine pending running
  asking other index waits := by
    unfold Servers.turned at waits ⊢
    dsimp only at waits ⊢
    by_cases here : other = node
    · rw [here, Function.update_self] at waits
      cases waits
    · rw [Function.update_of_ne here] at waits ⊢
      exact seated.asking other index waits

theorem Seated.asks (seated : servers.Seated) {node : Node} {engine : BaseEngine Memory}
    {resultTx : Nat} {op : LogletOp} (running : servers.engines node = some engine)
    (asking : engine.logCall = some (resultTx, op)) (nothing : servers.awaited node = none) :
    (servers.asking (seatedLog component) node resultTx op).Seated where
  created index other count asked future pending := by
    rcases pending_start pending with earlier | ⟨-, same, -⟩
    · exact seated.created index other count asked future earlier
    · cases same
      exact Nat.le_refl _
  awaited index other asked future engine' pending running' := by
    unfold Servers.asking
    dsimp only
    rcases pending_start pending with earlier | ⟨last, same, -⟩
    · by_cases here : other = node
      · subst here
        exact absurd rfl (seated.idle running nothing index _ future earlier)
      · rw [Function.update_of_ne here]
        exact seated.awaited index other asked future engine' earlier running'
    · cases same
      rw [Function.update_self, last]
  asking other index waits := by
    unfold Servers.asking at waits
    dsimp only at waits
    by_cases here : other = node
    · subst here
      exact ⟨engine, running, by rw [asking]; exact Option.some_ne_none _⟩
    · rw [Function.update_of_ne here] at waits
      exact seated.asking other index waits

theorem Seated.stopped (seated : servers.Seated) (node : Node) (engine : BaseEngine Memory) :
    (servers.stopped node engine).Seated where
  created := seated.created
  awaited index other op future engine' pending running := by
    unfold Servers.stopped setEngine at running ⊢
    dsimp only at running ⊢
    by_cases here : other = node
    · rw [here, Function.update_self] at running
      cases running
    · rw [Function.update_of_ne here] at running ⊢
      exact seated.awaited index other op future engine' pending running
  asking other index waits := by
    unfold Servers.stopped setEngine at waits ⊢
    dsimp only at waits ⊢
    by_cases here : other = node
    · rw [here, Function.update_self] at waits
      cases waits
    · rw [Function.update_of_ne here] at waits ⊢
      exact seated.asking other index waits

/-- The new engine has a log that was never called. -/
theorem Seated.opened (seated : servers.Seated) {node : Node} (engine : BaseEngine Memory)
    (stopped : servers.engines node = none) : (servers.opened node engine).Seated where
  created index other count op future pending := by
    have bound := seated.created index other count op future pending
    unfold Servers.opened
    dsimp only
    by_cases here : other = node
    · subst here
      rw [Function.update_self]
      exact Nat.le_succ_of_le bound
    · rw [Function.update_of_ne here]
      exact bound
  awaited index other op future engine' pending running := by
    unfold Servers.opened setEngine at pending running ⊢
    dsimp only at pending running ⊢
    by_cases here : other = node
    · subst here
      rw [Function.update_self] at pending
      exact absurd (seated.created _ _ _ _ _ pending) (Nat.not_succ_le_self _)
    · rw [Function.update_of_ne here] at pending running
      exact seated.awaited index other op future engine' pending running
  asking other index waits := by
    obtain ⟨engine', running, asking⟩ := seated.asking other index waits
    refine ⟨engine', ?_, asking⟩
    have different : other ≠ node := by
      rintro rfl
      cases stopped.symm.trans running
    exact (Function.update_of_ne different ..).trans running

variable {enter : Node → Memory → EngineOp → Result EngineOp} {applicator : Applicator Memory Choice}
  {system : System (Servers Node Memory Shared (Seat Node × LogletOp) Fut) (Node × EngineOp) Future
    EngineResult}

theorem Seated.poll (seated : servers.Seated) {index : Nat} {call : Node × EngineOp} {future : Future}
    {progress : Progress Future EngineResult}
    (polled : Servers.poll enter servers index call future = some (next, progress)) : next.Seated := by
  cases future with
  | enter =>
      simp only [Servers.poll] at polled
      split at polled
      · split at polled <;> cases polled <;> exact seated
      · cases polled
        exact seated
  | send op =>
      simp only [Servers.poll] at polled
      split at polled
      · rename_i engine running
        cases polled
        -- A queued request changes no log call.
        have queued : ∀ node engine', (servers.setEngine call.1
            (some { engine with requests := engine.requests ++ [⟨op, index⟩] })).engines node =
              some engine' → ∃ before, servers.engines node = some before ∧
                before.logCall = engine'.logCall := by
          intro node engine' found
          unfold setEngine at found
          dsimp only at found
          by_cases here : node = call.1
          · rw [here, Function.update_self] at found
            cases found
            exact ⟨engine, here ▸ running, rfl⟩
          · rw [Function.update_of_ne here] at found
            exact ⟨engine', found, rfl⟩
        refine seated.congr rfl rfl rfl queued fun node engine' found => ?_
        unfold setEngine
        dsimp only
        by_cases here : node = call.1
        · subst here
          cases running.symm.trans found
          exact ⟨_, Function.update_self .., rfl⟩
        · exact ⟨engine', (Function.update_of_ne here ..).trans found, rfl⟩
      · cases polled
        exact seated
  | receive =>
      obtain ⟨_, _, same⟩ := Option.map_eq_some_iff.mp polled
      cases same
      exact seated

/-- The calls of the engines' logs stay in order while clients only use logs of their own. -/
theorem Seated.step (seated : system.shared.Seated)
    {after : System (Servers Node Memory Shared (Seat Node × LogletOp) Fut) (Node × EngineOp) Future
      EngineResult}
    {action : Action (Node × EngineOp)
      (ServerEvent Node Memory Choice (Seat Node × LogletOp) Event)}
    (byClients : ∀ logAction, action = .background (.log logAction) → StartedByClients logAction)
    (moved : (serverComponent (seatedLog component) enter applicator).machine.step system action =
      some after) : after.shared.Seated := by
  cases action with
  | start call =>
      rw [Component.step_start moved]
      exact seated
  | poll index =>
      obtain ⟨call, future, shared, progress, _, polled, rfl⟩ := Component.step_poll moved
      exact seated.poll polled
  | background event =>
      obtain ⟨shared, ran, rfl⟩ := Component.step_background moved
      cases event with
      | log logAction =>
          obtain ⟨log, stepped, rfl⟩ := Option.map_eq_some_iff.mp ran
          exact seated.log (byClients logAction rfl) stepped
      | turn node choice =>
          obtain ⟨engine, running, ⟨resting, turn, _, rfl⟩ | ⟨resultTx, op, asking, cases⟩⟩ :=
            turn_cases ran
          · have nothing : system.shared.awaited node = none := by
              refine Option.eq_none_iff_forall_ne_some.mpr fun index waits => ?_
              obtain ⟨engine', running', asks⟩ := seated.asking node index waits
              cases running.symm.trans running'
              exact asks resting
            exact seated.turned fun index op future pending =>
              seated.idle running nothing index _ future pending rfl
          · rcases cases with ⟨idle, rfl⟩ | ⟨call, asked, result, turn, waits, returned, _, rfl⟩
            · exact seated.asks running asking idle
            · exact seated.turned fun index op future =>
                seated.idle_of_returned running waits returned
      | stop node =>
          simp only [serverComponent, background] at ran
          split at ran
          · cases ran
            exact seated.stopped node _
          · cases ran
      | new node memory =>
          simp only [serverComponent, background] at ran
          split at ran
          · cases ran
          · rename_i idle
            split at ran <;> cases ran
            · exact seated.opened _ idle
            · exact seated

end Servers

end Relos
