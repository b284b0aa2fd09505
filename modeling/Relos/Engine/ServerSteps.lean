import Relos.Engine.ServerInvariant

set_option autoImplicit false

/-! Every step of the servers keeps what they know of their log. -/

namespace Relos

open Async Serial BaseEngine

variable {Node Memory Choice Shared Op Fut Event : Type}

namespace Servers

open Replicas (PassesDown)

variable {enter : Node → Memory → EngineOp → Result EngineOp}
  {Holds : List Entry → StoreData → Prop} {Value : List Entry → Entry → ReturnValue → Prop}
  {served : ServedLog Node Shared Op Fut Event} {rules : LogRules served}
  {applicator : Applicator Memory Choice}
  {heard : Node → List Entry} {counts : Node → Nat}
  {system next : System (Servers Node Memory Shared Op Fut) (Node × EngineOp) Future EngineResult}
  {calls : History Node} {index : Nat} {call : Node × EngineOp}
  {shared : Servers Node Memory Shared Op Fut}

/-- No log call was made for the request. -/
abbrev Unsent (served : ServedLog Node Shared Op Fut Event)
    (servers : Servers Node Memory Shared Op Fut) (index : Nat) : Prop :=
  ∀ call, ¬ AppendsFor served servers call index

/-- What a loop that nobody touched still knows. -/
theorem Knows.loop (knows : Knows enter Holds Value rules system heard counts)
    (shared : Servers Node Memory Shared Op Fut) (follows : Follows system.calls calls)
    (keeps : ServedLog.Keeps system.shared.log shared.log)
    (purpose : shared.purpose = system.shared.purpose) {node : Node} {engine : BaseEngine Memory}
    (running : system.shared.engines node = some engine) :
    LoopTells Holds Value (Asked enter calls node) (Landed served shared) (Unsent served shared)
      (heard node) (counts node) (system.shared.awaited node) engine := by
  have learns : Learns system.shared shared heard heard counts counts :=
    ⟨keeps, fun _ _ made => purpose ▸ made, fun _ => Nat.le_refl _, fun _ => rfl⟩
  have tells := knows.engines node engine running
  have unsent : ∀ index, Unsent served system.shared index → Unsent served shared index :=
    fun index absent call appends => absent call (appends.earlier knows.started keeps purpose)
  exact tells.imp (fun _ _ asked => asked.follow follows) (fun _ _ _ landed => landed.learn learns)
    (fun _ _ => unsent _) fun index entry serving idle =>
      unsent index (tells.appends index entry serving idle)

/-- Steps that make no log call and turn no loop. -/
theorem Knows.move (knows : Knows enter Holds Value rules system heard counts)
    (follows : Follows system.calls calls) (inv : rules.Inv shared.log)
    (keeps : ServedLog.Keeps system.shared.log shared.log)
    (purpose : shared.purpose = system.shared.purpose)
    (stores : shared.stores = system.shared.stores)
    (engines : ∀ node engine, shared.engines node = some engine →
      LoopTells Holds Value (Asked enter calls node) (Landed served shared) (Unsent served shared)
        (heard node) (counts node) (shared.awaited node) engine)
    (awaits : ∀ node call, shared.awaited node = some call →
      Awaits rules shared node (counts node) call)
    (replies : ∀ index rv, shared.replies index = some (.ok (.returned rv)) →
      system.shared.replies index = some (.ok (.returned rv)))
    (outcomes : ∀ (index : Nat) (call : Node × EngineOp) (progress : Progress Future EngineResult),
      calls[index]? = some ⟨call, progress⟩ →
      progress.Holds (RunningOk enter call) fun result => ∀ rv, result = .ok (.returned rv) →
        OwnValue enter Value served system.shared heard counts index call rv) :
    Knows enter Holds Value rules ⟨shared, calls⟩ heard counts := by
  have learns : Learns system.shared shared heard heard counts counts :=
    ⟨keeps, fun _ _ made => purpose ▸ made, fun _ => Nat.le_refl _, fun _ => rfl⟩
  have earlier : ∀ {call index}, AppendsFor served shared call index →
      AppendsFor served system.shared call index :=
    fun appends => appends.earlier knows.started keeps purpose
  refine ⟨inv, fun node slot entry found => (knows.read node slot entry found).keep keeps, ?_,
    engines, awaits, fun call index made => ?_, fun call call' index left right => ?_,
    fun call index appends => ?_, fun index rv replied => ?_, fun index call progress found => ?_⟩
  · dsimp only
    rw [stores]
    exact knows.stored
  · dsimp only at made
    rw [purpose] at made
    exact Nat.lt_of_lt_of_le (knows.started call index made) keeps.length_le
  · exact knows.once call call' index (earlier left) (earlier right)
  · obtain ⟨op, progress, found, sent⟩ := knows.sent call index (earlier appends)
    obtain ⟨progress', found', still⟩ := follows _ _ _ found
    exact ⟨op, progress', found', still sent⟩
  · obtain ⟨call, progress, found, own⟩ := knows.replies index rv (replies index rv replied)
    obtain ⟨progress', found', -⟩ := follows _ _ _ found
    exact ⟨call, progress', found', own.learn learns⟩
  · exact (outcomes index call progress found).imp (fun _ running => running)
      fun _ finished rv same => (finished rv same).learn learns

/-- Steps of which neither the log nor an engine notices anything. -/
theorem Knows.repoll (knows : Knows enter Holds Value rules system heard counts)
    (follows : Follows system.calls calls)
    (outcomes : ∀ (index : Nat) (call : Node × EngineOp) (progress : Progress Future EngineResult),
      calls[index]? = some ⟨call, progress⟩ →
      progress.Holds (RunningOk enter call) fun result => ∀ rv, result = .ok (.returned rv) →
        OwnValue enter Value served system.shared heard counts index call rv) :
    Knows enter Holds Value rules ⟨system.shared, calls⟩ heard counts :=
  knows.move follows knows.log (.refl _) rfl rfl
    (fun _ _ running => knows.loop _ follows (.refl _) rfl running) knows.awaits
    (fun _ _ replied => replied) outcomes

theorem Knows.start (knows : Knows enter Holds Value rules system heard counts) :
    Knows enter Holds Value rules
      { system with calls := system.calls ++ [⟨call, .running .enter⟩] } heard counts := by
  refine knows.repoll (follows_start _) fun other call' progress found => ?_
  rcases getElem?_of_concat found with earlier | ⟨-, same⟩
  · exact knows.calls other call' progress earlier
  · cases same
    trivial

/-- The outcomes of the other calls stay. -/
theorem Knows.outcomes {progress : Progress Future EngineResult}
    (knows : Knows enter Holds Value rules system heard counts)
    (outcome : progress.Holds (RunningOk enter call) fun result => ∀ rv,
      result = .ok (.returned rv) →
        OwnValue enter Value served system.shared heard counts index call rv)
    (other : Nat) (call' : Node × EngineOp) (progress' : Progress Future EngineResult)
    (found : (system.calls.set index ⟨call, progress⟩)[other]? = some ⟨call', progress'⟩) :
    progress'.Holds (RunningOk enter call') fun result => ∀ rv, result = .ok (.returned rv) →
      OwnValue enter Value served system.shared heard counts other call' rv := by
  rcases getElem?_poll found with ⟨rfl, same⟩ | ⟨-, earlier⟩
  · cases same
    exact outcome
  · exact knows.calls other call' progress' earlier

/-- A call that has not been sent yet is nowhere. -/
theorem Knows.unsent {future : Future}
    (knows : Knows enter Holds Value rules system heard counts)
    (pending : system.Pending index call future) (waits : ¬ Sent (.running future)) :
    Unsent served system.shared index ∧
      ∀ node request, ¬ Asked enter system.calls node index request := by
  constructor
  · intro other appends
    obtain ⟨_, _, found, sent⟩ := knows.sent other index appends
    cases Option.some.inj (found.symm.trans pending)
    exact waits sent
  · rintro node request ⟨op, progress, found, sent, -⟩
    cases Option.some.inj (found.symm.trans pending)
    exact waits sent

/-- The log takes a step of its own. -/
theorem Knows.logStep (knows : Knows enter Holds Value rules system heard counts)
    {action : Action Op Event} {log : System Shared Op Fut LogletResult}
    (permitted : rules.permit system.shared.log action)
    (moved : served.component.machine.step system.shared.log action = some log) :
    Knows enter Holds Value rules
      { system with shared := { system.shared with log := log } } heard counts := by
  obtain ⟨inv, placed⟩ := rules.step knows.log permitted moved
  have keeps := ServedLog.Keeps.of_step moved
  have learns : Learns system.shared { system.shared with log := log } heard heard counts counts :=
    ⟨keeps, fun _ _ => id, fun _ => Nat.le_refl _, fun _ => rfl⟩
  exact knows.move (follows_refl _) inv keeps rfl rfl
    (fun node engine running =>
      knows.loop { system.shared with log := log } (follows_refl _) keeps rfl running)
    (fun node call waiting => (knows.awaits node call waiting).learn learns placed
      fun engine running => ⟨engine.requests, running⟩)
    (fun _ _ replied => replied) knows.calls

variable [DecidableEq Node]

theorem Knows.send {request : EngineOp} {engine : BaseEngine Memory}
    (knows : Knows enter Holds Value rules system heard counts)
    (pending : system.Pending index call (.send request))
    (passes : PassesDown enter call.1 call.2 request)
    (running : system.shared.engines call.1 = some engine) :
    Knows enter Holds Value rules
      ⟨system.shared.setEngine call.1
          (some { engine with requests := engine.requests ++ [⟨request, index⟩] }),
        system.calls.set index ⟨call, .running .receive⟩⟩ heard counts := by
  obtain ⟨absent, unasked⟩ := knows.unsent pending id
  have follows : Follows system.calls
      (system.calls.set index ⟨call, .running .receive⟩) := follows_poll pending fun _ => trivial
  have learns : Learns system.shared (system.shared.setEngine call.1
      (some { engine with requests := engine.requests ++ [⟨request, index⟩] }))
      heard heard counts counts :=
    ⟨.refl _, fun _ _ => id, fun _ => Nat.le_refl _, fun _ => rfl⟩
  refine knows.move follows knows.log (.refl _) rfl rfl (fun other engine' running' => ?_)
    (fun node waiting held => ?_) (fun _ _ replied => replied) (knows.outcomes trivial)
  · unfold setEngine at running'
    dsimp only at running'
    by_cases here : other = call.1
    · subst here
      rw [Function.update_self] at running'
      cases running'
      have tells := knows.engines call.1 engine running
      have fresh : index ∉ engine.unanswered := by
        intro member
        obtain ⟨request', asked⟩ := tells.asked_of_mem member
        exact unasked call.1 request' asked
      refine (knows.loop _ follows (.refl _) rfl running).enqueue fresh ?_ absent
      have inside := (List.getElem?_eq_some_iff.mp pending).1
      exact ⟨call.2, _, List.getElem?_set_self inside, trivial, passes⟩
    · rw [Function.update_of_ne here] at running'
      exact knows.loop _ follows (.refl _) rfl running'
  · refine (knows.awaits node waiting held).learn learns (fun _ _ _ => id) fun engine' running' => ?_
    unfold setEngine
    dsimp only
    by_cases here : node = call.1
    · subst here
      rw [running] at running'
      cases running'
      exact ⟨_, Function.update_self ..⟩
    · rw [Function.update_of_ne here]
      exact ⟨engine'.requests, running'⟩

theorem Knows.poll {future : Future} {progress : Progress Future EngineResult}
    (knows : Knows enter Holds Value rules system heard counts)
    (pending : system.Pending index call future)
    (polled : Servers.poll enter system.shared index call future = some (shared, progress)) :
    Knows enter Holds Value rules ⟨shared, system.calls.set index ⟨call, progress⟩⟩ heard counts := by
  have failed : ∀ error rv, (.error error : EngineResult) = .ok (.returned rv) →
      OwnValue enter Value served system.shared heard counts index call rv :=
    fun _ _ impossible => by cases impossible
  unfold Servers.poll at polled
  cases future with
  | enter =>
      dsimp only at polled
      split at polled
      · split at polled
        · rename_i engine running request passes
          cases polled
          exact knows.repoll (follows_poll pending id) (knows.outcomes ⟨_, passes⟩)
        · cases polled
          exact knows.repoll (follows_poll pending fun _ => trivial) (knows.outcomes (failed _))
      · cases polled
        exact knows.repoll (follows_poll pending fun _ => trivial) (knows.outcomes (failed _))
  | send request =>
      have passes : PassesDown enter call.1 call.2 request := knows.calls _ _ _ pending
      dsimp only at polled
      split at polled
      · rename_i engine running
        cases polled
        exact knows.send pending passes running
      · cases polled
        exact knows.repoll (follows_poll pending fun _ => trivial) (knows.outcomes (failed _))
  | receive =>
      obtain ⟨result, replied, same⟩ := Option.map_eq_some_iff.mp polled
      cases same
      refine knows.repoll (follows_poll pending fun _ => trivial) (knows.outcomes fun rv told => ?_)
      rw [told] at replied
      obtain ⟨call', progress', found, own⟩ := knows.replies index rv replied
      cases Option.some.inj (found.symm.trans pending)
      exact own

/-- An engine stops: what it was asked is answered by no value. -/
theorem Knows.stop (node : Node) (engine : BaseEngine Memory)
    (knows : Knows enter Holds Value rules system heard counts) :
    Knows enter Holds Value rules { system with shared := system.shared.stopped node engine }
      heard counts := by
  have learns : Learns system.shared (system.shared.stopped node engine) heard heard counts counts :=
    ⟨.refl _, fun _ _ => id, fun _ => Nat.le_refl _, fun _ => rfl⟩
  refine knows.move (follows_refl _) knows.log (.refl _) rfl rfl (fun other engine' running => ?_)
    (fun other call waiting => ?_) (fun index rv replied => ?_) knows.calls
  · unfold stopped setEngine at running ⊢
    dsimp only at running ⊢
    by_cases here : other = node
    · subst here
      rw [Function.update_self] at running
      cases running
    · rw [Function.update_of_ne here] at running ⊢
      exact knows.engines other engine' running
  · unfold stopped at waiting
    dsimp only at waiting
    by_cases here : other = node
    · subst here
      rw [Function.update_self] at waiting
      cases waiting
    · rw [Function.update_of_ne here] at waiting
      refine (knows.awaits other call waiting).learn learns (fun _ _ _ => id)
        fun engine' running => ⟨engine'.requests, ?_⟩
      unfold stopped setEngine
      dsimp only
      rw [Function.update_of_ne here]
      exact running
  · unfold stopped at replied
    dsimp only at replied
    split at replied
    · cases replied
    · exact replied

/-- An engine is created on the store of its node. -/
theorem Knows.open {node : Node} {memory : Memory} {engine : BaseEngine Memory}
    (knows : Knows enter Holds Value rules system heard counts)
    (few : system.shared.log.calls.length + 1 < 2 ^ 64) (idle : system.shared.engines node = none)
    (created : BaseEngine.new (system.shared.stores node) memory = .ok engine) :
    Knows enter Holds Value rules { system with shared := system.shared.opened node engine }
      heard counts := by
  have learns : Learns system.shared (system.shared.opened node engine) heard heard counts counts :=
    ⟨.refl _, fun _ _ => id, fun _ => Nat.le_refl _, fun _ => rfl⟩
  have nobody : ∀ call, system.shared.awaited node ≠ some call := by
    intro call waiting
    obtain ⟨_, _, _, _, running, _⟩ := (knows.awaits node call waiting).asking
    cases idle.symm.trans running
  refine knows.move (follows_refl _) knows.log (.refl _) rfl rfl (fun other engine' running => ?_)
    (fun other call waiting => ?_) (fun _ _ replied => replied) knows.calls
  · unfold opened setEngine at running ⊢
    dsimp only at running ⊢
    by_cases here : other = node
    · subst here
      rw [Function.update_self] at running
      cases running
      have inside := (knows.stored other).applied.inside
      have bound := ServedLog.length_le_of_read (knows.read other)
      have cursor := (knows.stored other).persistedCursor (by omega)
      unfold BaseEngine.new at created
      rw [cursor] at created
      cases created
      refine ⟨List.nodup_nil, fun _ impossible => absurd impossible List.not_mem_nil, fun _ => rfl,
        fun _ _ impossible => ?_, fun _ _ impossible => ?_⟩ <;> cases impossible
    · rw [Function.update_of_ne here] at running
      exact knows.engines other engine' running
  · have here : other ≠ node := by
      rintro rfl
      exact nobody call waiting
    refine (knows.awaits other call waiting).learn learns (fun _ _ _ => id)
      fun engine' running => ⟨engine'.requests, ?_⟩
    unfold opened setEngine
    dsimp only
    rw [Function.update_of_ne here]
    exact running

/-! ### Turns -/

theorem learns_turned {node : Node} {turn : LocalTurn Memory} {list : List Entry} {count : Nat}
    (advanced : counts node ≤ count) (kept : list.take (counts node) = (heard node).take (counts node)) :
    Learns shared (shared.turned node turn) heard (Function.update heard node list) counts
      (Function.update counts node count) := by
  refine ⟨.refl _, fun _ _ => id, fun other => ?_, fun other => ?_⟩
  · by_cases here : other = node
    · subst here
      rw [Function.update_self]
      exact advanced
    · rw [Function.update_of_ne here]
  · by_cases here : other = node
    · subst here
      rw [Function.update_self]
      exact kept
    · rw [Function.update_of_ne here]

theorem advances_turned {node : Node} {turn : LocalTurn Memory} {list : List Entry} {count : Nat}
    (advanced : counts node ≤ count) (kept : list.take (counts node) = (heard node).take (counts node)) :
    Advances rules shared (shared.turned node turn) heard (Function.update heard node list) counts
      (Function.update counts node count) :=
  ⟨learns_turned advanced kept, fun _ _ _ => id, fun _ _ => rfl⟩

theorem Knows.turned {node : Node} {turn : LocalTurn Memory} {list : List Entry} {count : Nat}
    (knows : Knows enter Holds Value rules system heard counts)
    (turned : LocallyTurned Holds Value (Asked enter system.calls node)
      (Landed served system.shared) (Unsent served system.shared) list (counts node) turn count)
    (kept : list.take (counts node) = (heard node).take (counts node))
    (read : ∀ (slot : Nat) entry, list[slot]? = some entry →
      served.Read system.shared.log (slot + 1) entry) :
    Knows enter Holds Value rules { system with shared := system.shared.turned node turn }
      (Function.update heard node list) (Function.update counts node count) := by
  have learns : Learns system.shared (system.shared.turned node turn) heard
      (Function.update heard node list) counts (Function.update counts node count) :=
    learns_turned turned.advanced kept
  refine ⟨knows.log, fun other slot entry found => ?_, fun other => ?_, fun other engine running => ?_,
    fun other call waiting => ?_, knows.started, knows.once, knows.sent, fun index rv replied => ?_,
    fun index call progress found => ?_⟩
  · by_cases here : other = node
    · subst here
      rw [Function.update_self] at found
      exact read slot entry found
    · rw [Function.update_of_ne here] at found
      exact knows.read other slot entry found
  · dsimp only [Servers.turned]
    by_cases here : other = node
    · subst here
      rw [Function.update_self, Function.update_self, Function.update_self]
      exact turned.stored
    · rw [Function.update_of_ne here, Function.update_of_ne here, Function.update_of_ne here]
      exact knows.stored other
  · dsimp only [Servers.turned] at running ⊢
    by_cases here : other = node
    · subst here
      rw [Function.update_self] at running ⊢
      rw [Function.update_self, Function.update_self]
      cases running
      exact turned.tells
    · rw [Function.update_of_ne here] at running ⊢
      rw [Function.update_of_ne here, Function.update_of_ne here]
      exact knows.engines other engine running
  · dsimp only [Servers.turned] at waiting
    by_cases here : other = node
    · subst here
      rw [Function.update_self] at waiting
      cases waiting
    · rw [Function.update_of_ne here] at waiting ⊢
      refine (knows.awaits other call waiting).learn learns (fun _ _ _ => id)
        fun engine running => ⟨engine.requests, ?_⟩
      dsimp only [Servers.turned]
      rw [Function.update_of_ne here]
      exact running
  · rcases Replicas.reply_cases system.shared.replies turn.reply index with
      ⟨result, sent, held⟩ | ⟨-, held⟩
    · cases held.symm.trans replied
      obtain ⟨entry, ⟨op, progress, found, -, passes⟩, told⟩ := turned.replied index rv sent
      refine ⟨_, progress, found, entry, passes, ?_⟩
      rw [Function.update_self, Function.update_self]
      exact told
    · obtain ⟨call, progress, found, own⟩ := knows.replies index rv (held.symm.trans replied)
      exact ⟨call, progress, found, own.learn learns⟩
  · exact (knows.calls index call progress found).imp (fun _ running => running)
      fun _ finished rv same => (finished rv same).learn learns

/-- The log has answered the call that the loop waits for. -/
theorem Knows.resumed {node : Node} {engine : BaseEngine Memory} {turn : LocalTurn Memory}
    {waiting resultTx : Nat} {op : LogletOp} {asked : Op} {result : LogletResult}
    (knows : Knows enter Holds Value rules system heard counts)
    (running : system.shared.engines node = some engine)
    (asking : engine.logCall = some (resultTx, op))
    (awaited : system.shared.awaited node = some waiting)
    (returned : system.shared.log.Returned waiting asked result)
    (moved : engine.resume (system.shared.stores node) result = some turn) :
    ∃ heard' counts', Knows enter Holds Value rules
      { system with shared := system.shared.turned node turn } heard' counts' ∧
      Advances rules system.shared (system.shared.turned node turn) heard heard' counts counts' := by
  have awaits := knows.awaits node waiting awaited
  obtain ⟨engine', resultTx', op', asked', running', asking', purpose, found, asks⟩ := awaits.asking
  cases running.symm.trans running'
  cases asking.symm.trans asking'
  have called := returned.called
  cases found.symm.trans called
  obtain ⟨list, rehears, turned⟩ := resume_tells (knows.stored node)
    (knows.engines node engine running) asking (fun entry pos same landed => by
      subst same
      subst landed
      have placed := rules.appended knows.log returned asks
      have positive := rules.positive knows.log placed
      simp only [logPosBegin] at positive
      refine ⟨pos - 1, by omega, ⟨waiting, asked, purpose, asks, returned⟩, ?_⟩
      refine Nat.le_of_not_lt fun before => ?_
      obtain ⟨owner, other, there, older⟩ :=
        awaits.older asked found (by rw [asks]; trivial) (pos - 1) before
      rw [Nat.sub_add_cancel positive] at there
      have same := (rules.unique knows.log there placed).1
      omega) moved
  refine ⟨_, _, knows.turned turned rehears.kept fun slot entry held => ?_,
    advances_turned turned.advanced rehears.kept⟩
  rcases rehears.added slot entry held with before | ⟨rfl, reads, same⟩
  · exact knows.read node slot entry before
  · rw [reads] at asks
    rw [same] at returned
    exact ⟨waiting, asked, asks, returned⟩

theorem asking_ops (servers : Servers Node Memory Shared Op Fut) (node : Node) (resultTx : Nat)
    (op : LogletOp) : (servers.asking served node resultTx op).log.ops =
      servers.log.ops ++ [served.ask node (servers.created node) op] :=
  List.map_append

omit [DecidableEq Node] in
theorem ops_length (log : System Shared Op Fut LogletResult) :
    log.ops.length = log.calls.length := List.length_map _

/-- The only append that is new is the one that was asked for. -/
theorem appendsFor_asking {servers : Servers Node Memory Shared Op Fut} {node : Node}
    {resultTx other : Nat} {op : LogletOp}
    (appends : AppendsFor served (servers.asking served node resultTx op) other index) :
    AppendsFor served servers other index ∨
      other = servers.log.calls.length ∧ index = resultTx ∧ op.IsAppend := by
  obtain ⟨made, asked, found, isAppend⟩ := appends
  rw [asking_ops] at found
  unfold asking at made
  dsimp only at made
  rcases getElem?_of_concat found with before | ⟨last, rfl⟩
  · have inside := (List.getElem?_eq_some_iff.mp before).1
    rw [ops_length] at inside
    rw [Function.update_of_ne (Nat.ne_of_lt inside)] at made
    exact Or.inl ⟨made, asked, before, isAppend⟩
  · rw [ops_length] at last
    rw [last, Function.update_self] at made
    rw [served.asks_ask] at isAppend
    exact Or.inr ⟨last, (Option.some.inj made).symm, isAppend⟩

theorem learns_asking {servers : Servers Node Memory Shared Op Fut}
    (started : ∀ call index, servers.purpose call = some index → call < servers.log.calls.length)
    (node : Node) (resultTx : Nat) (op : LogletOp) :
    Learns servers (servers.asking served node resultTx op) heard heard counts counts where
  log := .of_step (asking_log served servers node resultTx op)
  purpose other index made := by
    unfold asking
    dsimp only
    rw [Function.update_of_ne (Nat.ne_of_lt (started other index made))]
    exact made
  advanced _ := Nat.le_refl _
  kept _ := rfl

theorem advances_asking {servers : Servers Node Memory Shared Op Fut}
    (started : ∀ call index, servers.purpose call = some index → call < servers.log.calls.length)
    (node : Node) (resultTx : Nat) (op : LogletOp) (placed : ∀ owner entry pos,
      rules.Placed servers.log owner entry pos →
      rules.Placed (servers.asking served node resultTx op).log owner entry pos) :
    Advances rules servers (servers.asking served node resultTx op) heard heard counts counts :=
  ⟨learns_asking started node resultTx op, placed,
    fun _ inside => Function.update_of_ne (Nat.ne_of_lt inside) ..⟩

/-- A loop makes its log call. -/
theorem Knows.asking {node : Node} {engine : BaseEngine Memory} {resultTx : Nat} {op : LogletOp}
    (knows : Knows enter Holds Value rules system heard counts)
    (running : system.shared.engines node = some engine)
    (asking : engine.logCall = some (resultTx, op)) (idle : system.shared.awaited node = none)
    (permitted : rules.permit system.shared.log
      (.start (served.ask node (system.shared.created node) op))) :
    Knows enter Holds Value rules
      { system with shared := system.shared.asking served node resultTx op } heard counts := by
  obtain ⟨inv, placed⟩ := rules.step knows.log permitted (asking_log served _ node resultTx op)
  have learns : Learns system.shared (system.shared.asking served node resultTx op) heard heard
      counts counts := learns_asking knows.started node resultTx op
  obtain ⟨phase, serving, called⟩ := serving_of_logCall asking
  have own := knows.engines node engine running
  obtain ⟨request, asked, tells⟩ := own.serving resultTx phase serving
  have fresh : op.IsAppend → Unsent served system.shared resultTx := by
    intro isAppend
    cases phase with
    | append entry => exact own.appends resultTx entry serving idle
    | checkTail =>
        cases called
        exact isAppend.elim
    | play handler =>
        simp only [Phase.logCall] at called
        split at called <;> cases called
        exact isAppend.elim
    | read | staged | committed => cases called
  have awaited : ∀ other, other ≠ node →
      (system.shared.asking served node resultTx op).awaited other = system.shared.awaited other :=
    fun other different => Function.update_of_ne different ..
  refine ⟨inv, fun other slot entry found => (knows.read other slot entry found).keep learns.log,
    knows.stored, fun other engine' running' => ?_, fun other call waiting => ?_,
    fun call index made => ?_, fun call call' index left right => ?_, fun call index appends => ?_,
    fun index rv replied => ?_, fun index call progress found => ?_⟩
  · have others := knows.engines other engine' running'
    -- Nobody else's request is the one that is appended now.
    have unsent : ∀ index, Unsent served system.shared index →
        (∃ request', Asked enter system.calls other index request' ∧
          (other = node → index ≠ resultTx)) →
        Unsent served (system.shared.asking served node resultTx op) index := by
      rintro index absent ⟨request', asked', apart⟩ call appends
      rcases appendsFor_asking appends with earlier | ⟨-, rfl, -⟩
      · exact absent call earlier
      · exact apart (asked'.node_eq asked) rfl
    refine others.imp (fun _ _ => id) (fun _ _ _ landed => landed.learn learns)
      (fun waiting queued absent => ?_) fun index entry serving' nobody => ?_
    · refine unsent _ absent ⟨_, (others.requests waiting queued).1, ?_⟩
      rintro rfl same
      cases running.symm.trans running'
      have nodup := own.nodup
      rw [unanswered_serving serving] at nodup
      exact (List.nodup_cons.mp nodup).1 (same ▸ List.mem_map_of_mem queued)
    · have different : other ≠ node := by
        rintro rfl
        have waits : (system.shared.asking served other resultTx op).awaited other =
          some system.shared.log.calls.length := Function.update_self ..
        cases waits.symm.trans nobody
      rw [awaited other different] at nobody
      obtain ⟨request', asked', -⟩ := others.serving index _ serving'
      exact unsent index (others.appends index entry serving' nobody)
        ⟨request', asked', fun same => absurd same different⟩
  · by_cases here : other = node
    · subst here
      have waits : (system.shared.asking served other resultTx op).awaited other =
        some system.shared.log.calls.length := Function.update_self ..
      cases waits.symm.trans waiting
      refine ⟨⟨engine, resultTx, op, served.ask other (system.shared.created other) op, running,
        asking, Function.update_self .., ?_, served.asks_ask other (system.shared.created other) op⟩,
        fun op' _ _ slot before => ?_⟩
      · dsimp only
        rw [asking_ops, ← ops_length]
        exact List.getElem?_concat_length
      · have inside := (knows.stored other).applied.inside
        obtain ⟨call, made, asks, returned⟩ := knows.read other slot _
          (List.getElem?_eq_getElem (Nat.lt_of_lt_of_le before inside))
        obtain ⟨owner, there⟩ := rules.read knows.log returned asks
        exact ⟨owner, _, placed _ _ _ there, rules.started knows.log there⟩
    · dsimp only at waiting
      rw [awaited other here] at waiting
      exact (knows.awaits other call waiting).learn learns placed
        fun engine' running' => ⟨engine'.requests, running'⟩
  · unfold Servers.asking at made ⊢
    dsimp only at made ⊢
    rw [List.length_append, List.length_singleton]
    by_cases last : call = system.shared.log.calls.length
    · omega
    · rw [Function.update_of_ne last] at made
      exact Nat.lt_succ_of_lt (knows.started call index made)
  · rcases appendsFor_asking left with before | ⟨rfl, rfl, isAppend⟩
    · rcases appendsFor_asking right with before' | ⟨rfl, rfl, isAppend⟩
      · exact knows.once call call' index before before'
      · exact absurd before (fresh isAppend call)
    · rcases appendsFor_asking right with before' | ⟨rfl, -, -⟩
      · exact absurd before' (fresh isAppend call')
      · rfl
  · rcases appendsFor_asking appends with before | ⟨-, rfl, -⟩
    · exact knows.sent call index before
    · obtain ⟨own, progress, found, sent, -⟩ := asked
      exact ⟨_, progress, found, sent⟩
  · obtain ⟨call, progress, found, own⟩ := knows.replies index rv replied
    exact ⟨call, progress, found, own.learn learns⟩
  · exact (knows.calls index call progress found).imp (fun _ running => running)
      fun _ finished rv same => (finished rv same).learn learns

/-! ### Runs -/

/-- The steps that the rules of the log account for. -/
def permit (rules : LogRules served)
    (system : System (Servers Node Memory Shared Op Fut) (Node × EngineOp) Future EngineResult) :
    Action (Node × EngineOp) (ServerEvent Node Memory Choice Op Event) → Prop
  | .background (.log action) => rules.permit system.shared.log action
  | .background (.turn node _) => ∀ engine resultTx op, system.shared.engines node = some engine →
      engine.logCall = some (resultTx, op) → system.shared.awaited node = none →
      rules.permit system.shared.log (.start (served.ask node (system.shared.created node) op))
  | _ => True

theorem Knows.step (gives : applicator.Gives Holds Value)
    (knows : Knows enter Holds Value rules system heard counts)
    (few : system.shared.log.calls.length + 1 < 2 ^ 64)
    {action : Action (Node × EngineOp) (ServerEvent Node Memory Choice Op Event)}
    (permitted : permit rules system action)
    (moved : (serverComponent served enter applicator).machine.step system action = some next) :
    ∃ heard' counts', Knows enter Holds Value rules next heard' counts' ∧
      Advances rules system.shared next.shared heard heard' counts counts' := by
  cases action with
  | start call =>
      rw [Component.step_start moved]
      exact ⟨heard, counts, knows.start, .still rfl rfl⟩
  | poll index =>
      obtain ⟨call, future, shared, progress, pending, polled, rfl⟩ := Component.step_poll moved
      obtain ⟨log, purpose⟩ := poll_log polled
      exact ⟨heard, counts, knows.poll pending polled, .still log purpose⟩
  | background event =>
      obtain ⟨shared, ran, rfl⟩ := Component.step_background moved
      cases event with
      | log action =>
          obtain ⟨log, stepped, rfl⟩ := Option.map_eq_some_iff.mp ran
          exact ⟨heard, counts, knows.logStep permitted stepped,
            ⟨.of_step stepped, fun _ _ => id, fun _ => Nat.le_refl _, fun _ => rfl⟩,
            (rules.step knows.log permitted stepped).2, fun _ _ => rfl⟩
      | turn node choice =>
          obtain ⟨engine, running, ⟨resting, turn, turned, rfl⟩ | ⟨resultTx, op, asking, cases⟩⟩ :=
            turn_cases ran
          · obtain ⟨count, turned⟩ := localTurn_tells gives (knows.stored node)
              (knows.engines node engine running) resting turned
            exact ⟨_, _, knows.turned turned rfl (knows.read node),
              advances_turned turned.advanced rfl⟩
          · rcases cases with ⟨idle, rfl⟩ | ⟨call, asked, result, turn, waits, returned, resumed, rfl⟩
            · have starts := permitted engine resultTx op running asking idle
              exact ⟨heard, counts, knows.asking running asking idle starts,
                advances_asking knows.started node resultTx op (rules.step knows.log starts
                  (asking_log served system.shared node resultTx op)).2⟩
            · exact knows.resumed running asking waits returned resumed
      | stop node =>
          simp only [serverComponent, background] at ran
          split at ran
          · cases ran
            exact ⟨heard, counts, knows.stop node _, .still rfl rfl⟩
          · cases ran
      | new node memory =>
          simp only [serverComponent, background] at ran
          split at ran
          · cases ran
          · rename_i idle
            split at ran
            · rename_i created
              cases ran
              exact ⟨heard, counts, knows.open few idle created, .still rfl rfl⟩
            · cases ran
              exact ⟨heard, counts, knows, .still rfl rfl⟩

theorem length_le_step
    {action : Action (Node × EngineOp) (ServerEvent Node Memory Choice Op Event)}
    (moved : (serverComponent served enter applicator).machine.step system action = some next) :
    system.shared.log.calls.length ≤ next.shared.log.calls.length := by
  rcases step_log moved with same | ⟨action, -, stepped⟩ | ⟨node, _, _, resultTx, op, _, _, _, _, same⟩
  · rw [same]
  · exact (ServedLog.Keeps.of_step stepped).length_le
  · rw [same]
    exact (ServedLog.Keeps.of_step (asking_log served _ node resultTx op)).length_le

theorem length_le_run
    {permits : System (Servers Node Memory Shared Op Fut) (Node × EngineOp) Future EngineResult →
      Action (Node × EngineOp) (ServerEvent Node Memory Choice Op Event) → Prop}
    (run : (serverComponent served enter applicator).machine.Run permits system next) :
    system.shared.log.calls.length ≤ next.shared.log.calls.length :=
  run.invariant (fun state => system.shared.log.calls.length ≤ state.shared.log.calls.length)
    (Nat.le_refl _) fun _ _ _ before _ moved => Nat.le_trans before (length_le_step moved)

/-- As long as the calls of the log can be counted in 64 bits. -/
theorem Knows.run (gives : applicator.Gives Holds Value)
    {permits : System (Servers Node Memory Shared Op Fut) (Node × EngineOp) Future EngineResult →
      Action (Node × EngineOp) (ServerEvent Node Memory Choice Op Event) → Prop}
    (allowed : ∀ system action, permits system action → permit rules system action)
    (knows : Knows enter Holds Value rules system heard counts)
    (run : (serverComponent served enter applicator).machine.Run permits system next)
    (few : next.shared.log.calls.length + 1 < 2 ^ 64) :
    ∃ heard' counts', Knows enter Holds Value rules next heard' counts' ∧
      Advances rules system.shared next.shared heard heard' counts counts' := by
  have kept := run.invariant (fun state => state.shared.log.calls.length + 1 < 2 ^ 64 →
    ∃ heard' counts', Knows enter Holds Value rules state heard' counts' ∧
      Advances rules system.shared state.shared heard heard' counts counts')
    (fun _ => ⟨heard, counts, knows, .still rfl rfl⟩)
    (fun state action last known permitted moved fits => by
      have before := length_le_step moved
      obtain ⟨heard₁, counts₁, knows₁, advances₁⟩ := known (by omega)
      obtain ⟨heard₂, counts₂, knows₂, advances₂⟩ :=
        knows₁.step gives (by omega) (allowed _ _ permitted) moved
      exact ⟨heard₂, counts₂, knows₂, advances₁.trans advances₂⟩)
  exact kept few

end Servers

end Relos
