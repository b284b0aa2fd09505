import Relos.Engine.ServerReplication

set_option autoImplicit false

/-! Where the entries of the stores come from while nobody but the engines appends: each was
proposed by a request, and behind everything that stores held when the request arrived. -/

namespace Relos

open Async Serial BaseEngine

variable {Node Memory Choice Shared Op Fut Event : Type}

namespace Servers

variable {enter : Node → Memory → EngineOp → Result EngineOp}
  {Holds : List Entry → StoreData → Prop} {Value : List Entry → Entry → ReturnValue → Prop}
  {served : ServedLog Node Shared Op Fut Event} {rules : LogRules served}
  {applicator : Applicator Memory Choice} {heard heard' : Node → List Entry} {counts counts' : Node → Nat}
  {system next : System (Servers Node Memory Shared Op Fut) (Node × EngineOp) Future EngineResult}

/-- Every append in the log was made for a request that asks for its entry. -/
def Authored (enter : Node → Memory → EngineOp → Result EngineOp)
    (served : ServedLog Node Shared Op Fut Event)
    (system : System (Servers Node Memory Shared Op Fut) (Node × EngineOp) Future EngineResult) : Prop :=
  ∀ (call : Nat) op entry, system.shared.log.ops[call]? = some op → served.asks op = .append entry →
    ∃ index node, system.shared.purpose call = some index ∧
      Asked enter system.calls node index (.propose entry)

/-- Nobody else appends. -/
def EnginesAppend (served : ServedLog Node Shared Op Fut Event) :
    ServerEvent Node Memory Choice Op Event → Prop
  | .log (.start op) => ¬ (served.asks op).IsAppend
  | .log (.poll _) | .log (.background _) | .turn _ _ | .stop _ | .new _ _ => True

instance (served : ServedLog Node Shared Op Fut Event) :
    (event : ServerEvent Node Memory Choice Op Event) → Decidable (EnginesAppend served event)
  | .log (.start op) => inferInstanceAs (Decidable (¬ (served.asks op).IsAppend))
  | .log (.poll _) | .log (.background _) | .turn _ _ | .stop _ | .new _ _ => isTrue trivial

/-- The request had the entry appended that the log holds at this slot. -/
def Authors (rules : LogRules served) (servers : Servers Node Memory Shared Op Fut) (index : Nat)
    (entry : Entry) (slot : Nat) : Prop :=
  ∃ call, rules.Placed servers.log call entry (slot + 1) ∧ servers.purpose call = some index

theorem Authors.unique {servers : Servers Node Memory Shared Op Fut} {index index' slot : Nat}
    {entry entry' : Entry} (inv : rules.Inv servers.log) (authors : Authors rules servers index entry slot)
    (authors' : Authors rules servers index' entry' slot) : index = index' ∧ entry = entry' := by
  obtain ⟨call, placed, made⟩ := authors
  obtain ⟨call', placed', made'⟩ := authors'
  obtain ⟨rfl, same⟩ := rules.unique inv placed placed'
  exact ⟨Option.some.inj (made.symm.trans made'), same⟩

theorem Landed.authors {servers : Servers Node Memory Shared Op Fut} {index slot : Nat} {entry : Entry}
    (inv : rules.Inv servers.log) (landed : Landed served servers index entry (slot + 1)) :
    Authors rules servers index entry slot := by
  obtain ⟨call, op, made, asks, returned⟩ := landed
  exact ⟨call, rules.appended inv returned asks, made⟩

theorem Authored.new (shared : Shared) :
    Authored enter served (.fresh (.new shared) : System (Servers Node Memory Shared Op Fut)
      (Node × EngineOp) Future EngineResult) := fun _ _ _ impossible => by cases impossible

/-- Whatever a store has applied was proposed by a request. -/
theorem Knows.author (knows : Knows enter Holds Value rules system heard counts)
    (authored : Authored enter served system) {node : Node} {slot : Nat} {entry : Entry}
    (found : (appliedBy heard counts node)[slot]? = some entry) :
    ∃ index asker, Authors rules system.shared index entry slot ∧
      Asked enter system.calls asker index (.propose entry) := by
  obtain ⟨call, op, asks, returned⟩ := knows.appliedBy_read found
  obtain ⟨owner, placed⟩ := rules.read knows.log returned asks
  obtain ⟨op', called, asks'⟩ := rules.author knows.log placed
  obtain ⟨index, asker, made, asked⟩ := authored owner op' entry called asks'
  exact ⟨index, asker, ⟨owner, placed, made⟩, asked⟩

/-- What is appended for a request that arrives later lies behind all that stores hold now. -/
theorem Knows.behind (knows : Knows enter Holds Value rules system heard counts)
    (knows' : Knows enter Holds Value rules next heard' counts')
    (advances : Advances rules system.shared next.shared heard heard' counts counts') {index slot : Nat}
    {entry : Entry} (arrived : system.calls.length ≤ index)
    (landed : Landed served next.shared index entry (slot + 1)) (node : Node) : counts node ≤ slot := by
  obtain ⟨call, op, appends, asks, returned⟩ := landed.appendsFor
  -- The log call was not made yet, since nobody had asked for it.
  have late : system.shared.log.calls.length ≤ call := by
    by_contra early
    have inside := Nat.not_le.mp early
    have made := (advances.purposes call inside).symm.trans appends.1
    obtain ⟨_, op', found, isAppend⟩ := appends
    have held : call < system.shared.log.ops.length := by
      rw [ops_length]
      exact inside
    have before := List.getElem?_eq_getElem held
    cases found.symm.trans (getElem?_of_longer advances.log.ops before)
    obtain ⟨_, _, asked, -⟩ := knows.sent call index ⟨made, _, before, isAppend⟩
    exact absurd (List.getElem?_eq_some_iff.mp asked).1 (Nat.not_lt.mpr arrived)
  by_contra inside
  have applied := (knows.stored node).applied.inside
  obtain ⟨_, _, reads, read⟩ := knows.read node slot _ (List.getElem?_eq_getElem (by omega))
  obtain ⟨owner, placed⟩ := rules.read knows.log read reads
  have own := rules.appended knows'.log returned asks
  have earlier := rules.started knows.log placed
  have same := (rules.unique knows'.log (advances.placed _ _ _ placed) own).1
  omega

/-- The entries that stores hold are determined by the log. -/
theorem Replicated.unique {machine : Replay.StateMachine Entry StoreData ReturnValue}
    {applied applied' : Node → List Entry} (knows : Knows enter Holds Value rules system heard counts)
    (replicated : Replicated served machine system.shared applied)
    (replicated' : Replicated served machine system.shared applied') : applied = applied' := by
  funext node
  have lengths := (replicated.cursor node).symm.trans (replicated'.cursor node)
  have length := Nat.succ.inj (Except.ok.inj lengths)
  refine List.ext_getElem length fun slot inside inside' => ?_
  exact knows.read_unique (replicated.read node slot _ (List.getElem?_eq_getElem inside))
    (replicated'.read node slot _ (List.getElem?_eq_getElem inside'))

variable [DecidableEq Node]

theorem sent_of_poll {servers servers' : Servers Node Memory Shared Op Fut} {index : Nat}
    {call : Node × EngineOp} {future : Future} {progress : Progress Future EngineResult}
    (polled : Servers.poll enter servers index call future = some (servers', progress))
    (sent : Sent (.running future)) : Sent progress := by
  cases future with
  | enter => exact sent.elim
  | send => exact sent.elim
  | receive =>
      obtain ⟨_, _, same⟩ := Option.map_eq_some_iff.mp polled
      cases same
      trivial

theorem follows_step {action : Action (Node × EngineOp) (ServerEvent Node Memory Choice Op Event)}
    (moved : (serverComponent served enter applicator).machine.step system action = some next) :
    Follows system.calls next.calls := by
  cases action with
  | start call =>
      rw [Component.step_start moved]
      exact follows_start _
  | poll index =>
      obtain ⟨call, future, shared, progress, pending, polled, rfl⟩ := Component.step_poll moved
      exact follows_poll pending (sent_of_poll polled)
  | background event =>
      obtain ⟨shared, -, rfl⟩ := Component.step_background moved
      exact follows_refl _

theorem Authored.step {action : Action (Node × EngineOp) (ServerEvent Node Memory Choice Op Event)}
    (authored : Authored enter served system) (knows : Knows enter Holds Value rules system heard counts)
    (engines : ∀ event, action = .background event → EnginesAppend served event)
    (moved : (serverComponent served enter applicator).machine.step system action = some next)
    (advances : Advances rules system.shared next.shared heard heard' counts counts') :
    Authored enter served next := by
  have follows := follows_step moved
  intro call op entry called asks
  -- An append that the log had before keeps its request.
  have before : system.shared.log.ops[call]? = some op → ∃ index node,
      next.shared.purpose call = some index ∧ Asked enter next.calls node index (.propose entry) := by
    intro held
    obtain ⟨index, node, made, asked⟩ := authored call op entry held asks
    exact ⟨index, node, advances.purpose _ _ made, asked.follow follows⟩
  rcases step_log moved with same | ⟨logAction, rfl, stepped⟩ |
    ⟨node, choice, engine, resultTx, op', rfl, running, asking, idle, same⟩
  · exact before (same ▸ called)
  · rcases Component.ops_step stepped with ⟨started, rfl, grown⟩ | same
    · rw [grown] at called
      rcases getElem?_of_concat called with held | ⟨-, rfl⟩
      · exact before held
      · have silent : ¬ (served.asks op).IsAppend := engines _ rfl
        rw [asks] at silent
        exact absurd trivial silent
    · exact before (same ▸ called)
  · rw [same, asking_ops] at called
    rcases getElem?_of_concat called with held | ⟨last, rfl⟩
    · exact before held
    · rw [served.asks_ask] at asks
      subst asks
      obtain ⟨phase, serving, calls⟩ := serving_of_logCall asking
      obtain ⟨request, asked, tells⟩ := (knows.engines node engine running).serving _ _ serving
      refine ⟨resultTx, node, ?_, ?_⟩
      · rw [same, last, ops_length]
        exact Function.update_self ..
      · cases phase with
        | append entry' =>
            cases calls
            obtain ⟨rfl, -⟩ := tells
            exact asked.follow follows
        | checkTail => cases calls
        | play handler =>
            unfold Phase.logCall at calls
            dsimp only at calls
            split at calls <;> cases calls
        | read | staged | committed => cases calls

/-- Along runs in which nobody else appends. -/
theorem Knows.authored_run (gives : applicator.Gives Holds Value)
    {permits : System (Servers Node Memory Shared Op Fut) (Node × EngineOp) Future EngineResult →
      Action (Node × EngineOp) (ServerEvent Node Memory Choice Op Event) → Prop}
    (allowed : ∀ system action, permits system action → permit rules system action)
    (engines : ∀ system event, permits system (.background event) → EnginesAppend served event)
    (knows : Knows enter Holds Value rules system heard counts) (authored : Authored enter served system)
    (run : (serverComponent served enter applicator).machine.Run permits system next)
    (few : next.shared.log.calls.length + 1 < 2 ^ 64) : Authored enter served next := by
  have kept := run.invariant (fun state => state.shared.log.calls.length + 1 < 2 ^ 64 →
    Authored enter served state ∧ ∃ heard' counts', Knows enter Holds Value rules state heard' counts')
    (fun _ => ⟨authored, heard, counts, knows⟩) fun state action last known permitted moved fits => by
      have before := length_le_step moved
      obtain ⟨authored, heard₁, counts₁, knows₁⟩ := known (by omega)
      obtain ⟨heard₂, counts₂, knows₂, advances⟩ :=
        knows₁.step gives (by omega) (allowed _ _ permitted) moved
      exact ⟨authored.step knows₁ (fun event same => engines state event (same ▸ permitted)) moved
        advances, heard₂, counts₂, knows₂⟩
  exact (kept few).1

end Servers

end Relos
