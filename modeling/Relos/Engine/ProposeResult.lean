import Relos.Engine.LoopReplies
import Relos.Engine.Replication
import Relos.Async.Outline

set_option autoImplicit false

/-! What `propose` returns, over replicas that share a log and stop and start, next to
anyone else who appends to the log. -/

namespace Relos

open Async Replay Serial BaseEngine

variable {Node Memory Choice : Type}

namespace Replicas

abbrev History (Node : Type) := List (Call (ReplicaOp Node) Future EngineResult)

/-- The engines above the base engine may pass this request down for the operation. -/
def PassesDown (enter : Node → Memory → EngineOp → Result EngineOp) (node : Node)
    (op request : EngineOp) : Prop :=
  ∃ memory, enter node memory op = .ok request

/-- The request of the call may have reached the log. -/
def Sent : Progress Future EngineResult → Prop
  | .running .receive | .finished _ => True
  | .running .enter | .running (.send _) | .running .append => False

def Asked (enter : Node → Memory → EngineOp → Result EngineOp) (calls : History Node) (node : Node)
    (index : Nat) (request : EngineOp) : Prop :=
  ∃ op progress, calls[index]? = some ⟨.engine node op, progress⟩ ∧ Sent progress ∧
    PassesDown enter node op request

/-- What a call may append. -/
def Appends (enter : Node → Memory → EngineOp → Result EngineOp) :
    ReplicaOp Node → Entry → Prop
  | .engine node op, entry => PassesDown enter node op (.propose entry)
  | .append own, entry => entry = own

/-- The call was told the value of its own entry. -/
def OwnValue (enter : Node → Memory → EngineOp → Result EngineOp)
    (Value : List Entry → Entry → ReturnValue → Prop) (log : TrackedLoglet) (counts : Node → Nat)
    (index : Nat) (call : ReplicaOp Node) (rv : ReturnValue) : Prop :=
  ∃ node op entry, call = .engine node op ∧ PassesDown enter node op (.propose entry) ∧
    Told Value log (counts node) index entry rv

def RunningOk (enter : Node → Memory → EngineOp → Result EngineOp) (call : ReplicaOp Node) :
    Future → Prop
  | .send request => ∃ node op, call = .engine node op ∧ PassesDown enter node op request
  | .enter | .receive | .append => True

structure Tracked (enter : Node → Memory → EngineOp → Result EngineOp)
    (Holds : List Entry → StoreData → Prop) (Value : List Entry → Entry → ReturnValue → Prop)
    (system : System (Replicas Node Memory) (ReplicaOp Node) Future EngineResult)
    (counts : Node → Nat) : Prop where
  isOpen : system.shared.log.Open
  stored : ∀ node,
    Stored Holds system.shared.log.entries (counts node) (system.shared.stores node).data
  engines : ∀ node engine, system.shared.engines node = some engine →
    LoopAnswers Holds Value (Asked enter system.calls node) system.shared.log (counts node) engine
  owned : ∀ (slot index : Nat) (entry : Entry),
    system.shared.log.written[slot]? = some (index, entry) → ∃ (call : ReplicaOp Node)
      (progress : Progress Future EngineResult), system.calls[index]? = some ⟨call, progress⟩ ∧
        Sent progress ∧ Appends enter call entry
  replies : ∀ index rv, system.shared.replies index = some (.ok (.returned rv)) →
    ∃ (call : ReplicaOp Node) (progress : Progress Future EngineResult),
      system.calls[index]? = some ⟨call, progress⟩ ∧
        OwnValue enter Value system.shared.log counts index call rv
  calls : ∀ (index : Nat) (call : ReplicaOp Node) (progress : Progress Future EngineResult),
    system.calls[index]? = some ⟨call, progress⟩ →
    progress.Holds (RunningOk enter call) fun result => ∀ rv, result = .ok (.returned rv) →
      OwnValue enter Value system.shared.log counts index call rv

/-- The calls stay, and what was sent stays sent. -/
def Follows (calls calls' : History Node) : Prop :=
  ∀ (index : Nat) (call : ReplicaOp Node) (progress : Progress Future EngineResult),
    calls[index]? = some ⟨call, progress⟩ →
    ∃ progress', calls'[index]? = some ⟨call, progress'⟩ ∧ (Sent progress → Sent progress')

/-- No store loses an entry, and neither does the log. -/
structure Grows (log log' : TrackedLoglet) (counts counts' : Node → Nat) : Prop where
  written : log.written <+: log'.written
  advanced : ∀ node, counts node ≤ counts' node

variable {enter : Node → Memory → EngineOp → Result EngineOp}
  {Holds : List Entry → StoreData → Prop} {Value : List Entry → Entry → ReturnValue → Prop}
  {applicator : Applicator Memory Choice} {log log' : TrackedLoglet} {counts counts' : Node → Nat}
  {system next : System (Replicas Node Memory) (ReplicaOp Node) Future EngineResult}
  {index : Nat} {call : ReplicaOp Node} {calls calls' : History Node} {rv : ReturnValue}

theorem OwnValue.grow (own : OwnValue enter Value log counts index call rv)
    (grows : Grows log log' counts counts') : OwnValue enter Value log' counts' index call rv := by
  obtain ⟨node, op, entry, same, passes, told⟩ := own
  exact ⟨node, op, entry, same, passes, told.extend grows.written (grows.advanced node)⟩

theorem Asked.follow {node : Node} {request : EngineOp}
    (asked : Asked enter calls node index request) (follows : Follows calls calls') :
    Asked enter calls' node index request := by
  obtain ⟨op, progress, found, sent, passes⟩ := asked
  obtain ⟨progress', found', still⟩ := follows _ _ _ found
  exact ⟨op, progress', found', still sent, passes⟩

theorem follows_start (added : Call (ReplicaOp Node) Future EngineResult) :
    Follows calls (calls ++ [added]) :=
  fun _ _ progress found =>
    ⟨progress, getElem?_of_longer (List.prefix_append _ _) found, id⟩

theorem follows_poll {future : Future} {progress : Progress Future EngineResult}
    (pending : system.Pending index call future) (sent : Sent (.running future) → Sent progress) :
    Follows system.calls (system.calls.set index ⟨call, progress⟩) := by
  intro other call' before found
  by_cases same : other = index
  · subst same
    cases Option.some.inj (found.symm.trans pending)
    exact ⟨progress, List.getElem?_set_self (List.getElem?_eq_some_iff.mp found).1, sent⟩
  · refine ⟨before, ?_, id⟩
    rw [List.getElem?_set_ne (fun equal => same equal.symm)]
    exact found

theorem Tracked.new (gives : applicator.Gives Holds Value) :
    Tracked enter Holds Value (.fresh (new Node Memory)) fun _ => 0 where
  isOpen := .new
  stored _ := .new gives
  engines _ _ impossible := by cases impossible
  owned _ _ _ impossible := by cases impossible
  replies _ _ impossible := by cases impossible
  calls _ _ _ impossible := by cases impossible

/-- The shared state stays, but for engines and replies that are all accounted for; the
calls move on. -/
theorem Tracked.move (tracked : Tracked enter Holds Value system counts)
    {shared : Replicas Node Memory} (follows : Follows system.calls calls)
    (log : shared.log = system.shared.log) (stores : shared.stores = system.shared.stores)
    (engines : ∀ node engine, shared.engines node = some engine →
      LoopAnswers Holds Value (Asked enter calls node) system.shared.log (counts node) engine)
    (replies : ∀ index rv, shared.replies index = some (.ok (.returned rv)) →
      system.shared.replies index = some (.ok (.returned rv)))
    (outcomes : ∀ (index : Nat) (call : ReplicaOp Node) (progress : Progress Future EngineResult),
      calls[index]? = some ⟨call, progress⟩ →
      progress.Holds (RunningOk enter call) fun result => ∀ rv, result = .ok (.returned rv) →
        OwnValue enter Value system.shared.log counts index call rv) :
    Tracked enter Holds Value ⟨shared, calls⟩ counts where
  isOpen := by
    rw [log]
    exact tracked.isOpen
  stored := by
    rw [log, stores]
    exact tracked.stored
  engines := by
    rw [log]
    exact engines
  owned slot index entry placed := by
    rw [log] at placed
    obtain ⟨call, progress, found, sent, appends⟩ := tracked.owned slot index entry placed
    obtain ⟨progress', found', still⟩ := follows _ _ _ found
    exact ⟨call, progress', found', still sent, appends⟩
  replies index rv replied := by
    rw [log]
    obtain ⟨call, progress, found, own⟩ := tracked.replies index rv (replies index rv replied)
    obtain ⟨progress', found', -⟩ := follows _ _ _ found
    exact ⟨call, progress', found', own⟩
  calls := by
    rw [log]
    exact outcomes

theorem Tracked.kept (tracked : Tracked enter Holds Value system counts)
    (follows : Follows system.calls calls) (node : Node) (engine : BaseEngine Memory)
    (running : system.shared.engines node = some engine) :
    LoopAnswers Holds Value (Asked enter calls node) system.shared.log (counts node) engine :=
  (tracked.engines node engine running).imp fun _ _ asked => asked.follow follows

theorem Tracked.start (tracked : Tracked enter Holds Value system counts) :
    Tracked enter Holds Value
      { system with calls := system.calls ++ [⟨call, .running (begin call)⟩] } counts := by
  have follows : Follows system.calls (system.calls ++ [⟨call, .running (begin call)⟩]) :=
    follows_start _
  refine tracked.move follows rfl rfl (tracked.kept follows) (fun _ _ replied => replied) ?_
  intro other call' progress found
  rcases getElem?_of_concat found with earlier | ⟨-, same⟩
  · exact tracked.calls other call' progress earlier
  · cases same
    cases call <;> trivial

section Polls

variable {future : Future} {progress : Progress Future EngineResult}

/-- The outcomes of the other calls stay. -/
theorem Tracked.outcomes (tracked : Tracked enter Holds Value system counts)
    (outcome : progress.Holds (RunningOk enter call) fun result => ∀ rv,
      result = .ok (.returned rv) → OwnValue enter Value system.shared.log counts index call rv)
    (other : Nat) (call' : ReplicaOp Node) (progress' : Progress Future EngineResult)
    (found : (system.calls.set index ⟨call, progress⟩)[other]? = some ⟨call', progress'⟩) :
    progress'.Holds (RunningOk enter call') fun result => ∀ rv, result = .ok (.returned rv) →
      OwnValue enter Value system.shared.log counts other call' rv := by
  rcases getElem?_poll found with ⟨rfl, same⟩ | ⟨-, earlier⟩
  · cases same
    exact outcome
  · exact tracked.calls other call' progress' earlier

/-- A poll that changes nothing but its call. -/
theorem Tracked.repoll (tracked : Tracked enter Holds Value system counts)
    (pending : system.Pending index call future) (sent : Sent (.running future) → Sent progress)
    (outcome : progress.Holds (RunningOk enter call) fun result => ∀ rv,
      result = .ok (.returned rv) → OwnValue enter Value system.shared.log counts index call rv) :
    Tracked enter Holds Value
      ⟨system.shared, system.calls.set index ⟨call, progress⟩⟩ counts := by
  have follows := follows_poll pending sent
  exact tracked.move follows rfl rfl (tracked.kept follows) (fun _ _ replied => replied)
    (tracked.outcomes outcome)

/-- A call that has not been sent yet is nowhere. -/
theorem Tracked.unsent (tracked : Tracked enter Holds Value system counts)
    (pending : system.Pending index call future) (unsent : ¬ Sent (.running future)) :
    index ∉ system.shared.log.owners ∧ ∀ node request,
      ¬ Asked enter system.calls node index request := by
  constructor
  · intro member
    obtain ⟨⟨owner, entry⟩, placed, rfl⟩ := List.mem_map.mp member
    obtain ⟨slot, inside, placed⟩ := List.getElem_of_mem placed
    obtain ⟨_, _, found, sent, -⟩ := tracked.owned slot owner entry
      (List.getElem?_eq_some_iff.mpr ⟨inside, placed⟩)
    cases Option.some.inj (found.symm.trans pending)
    exact unsent sent
  · rintro node request ⟨op, progress, found, sent, -⟩
    cases Option.some.inj (found.symm.trans pending)
    exact unsent sent

theorem Tracked.send [DecidableEq Node] (tracked : Tracked enter Holds Value system counts)
    {node : Node} {op request : EngineOp} {engine : BaseEngine Memory}
    (pending : system.Pending index (.engine node op) (.send request))
    (passes : PassesDown enter node op request)
    (running : system.shared.engines node = some engine) :
    Tracked enter Holds Value
      ⟨system.shared.setEngine node
          (some { engine with requests := engine.requests ++ [⟨request, index⟩] }),
        system.calls.set index ⟨.engine node op, .running .receive⟩⟩ counts := by
  obtain ⟨absent, unasked⟩ := tracked.unsent pending id
  have follows : Follows system.calls
      (system.calls.set index ⟨.engine node op, .running .receive⟩) :=
    follows_poll pending fun _ => trivial
  refine tracked.move follows rfl rfl (fun other engine' running' => ?_)
    (fun _ _ replied => replied) (tracked.outcomes trivial)
  unfold setEngine at running'
  dsimp only at running'
  by_cases here : other = node
  · subst here
    rw [Function.update_self] at running'
    cases running'
    have fresh : index ∉ engine.unanswered := by
      intro member
      obtain ⟨request', asked⟩ := (tracked.engines other engine running).asked_of_mem member
      exact unasked other request' asked
    refine (tracked.kept follows other engine running).enqueue fresh ?_ absent
    have inside := (List.getElem?_eq_some_iff.mp pending).1
    exact ⟨op, _, List.getElem?_set_self inside, trivial, passes⟩
  · rw [Function.update_of_ne here] at running'
    exact tracked.kept follows other engine' running'

/-- An append by a call that is not asked of any loop. -/
theorem Tracked.append (tracked : Tracked enter Holds Value system counts) {entry : Entry}
    (pending : system.Pending index (.append entry) .append)
    (room : system.shared.log.loglet.entries.length < vecCapacity) :
    Tracked enter Holds Value
      ⟨{ system.shared with log := (system.shared.log.call index (.append entry)).1 },
        system.calls.set index ⟨.append entry,
          .finished ((system.shared.log.loglet.append entry).2.map .pos)⟩⟩ counts := by
  obtain ⟨absent, unasked⟩ := tracked.unsent pending id
  obtain ⟨isOpen, written, pos⟩ := tracked.isOpen.append entry room absent
  rw [pos]
  have follows : Follows system.calls (system.calls.set index ⟨.append entry,
      .finished (.ok (.pos (system.shared.log.written.length + 1)))⟩) :=
    follows_poll pending fun _ => trivial
  have starts : system.shared.log.written <+:
      (system.shared.log.call index (.append entry)).1.written := written ▸ List.prefix_append _ _
  have grows : Grows system.shared.log (system.shared.log.call index (.append entry)).1 counts
      counts := ⟨starts, fun _ => Nat.le_refl _⟩
  refine ⟨isOpen, fun node => (tracked.stored node).extend (starts.map Prod.snd), ?_, ?_, ?_, ?_⟩
  · intro node engine running
    refine ((tracked.engines node engine running).extend starts ?_).imp
      fun _ _ asked => asked.follow follows
    intro other request asked unwritten
    unfold TrackedLoglet.owners
    rw [written, List.map_append]
    intro member
    rcases List.mem_append.mp member with earlier | last
    · exact unwritten earlier
    · cases List.mem_singleton.mp last
      exact unasked node request asked
  · intro slot owner found placed
    dsimp only at placed
    rw [written] at placed
    rcases getElem?_of_concat placed with earlier | ⟨-, same⟩
    · obtain ⟨call, progress, present, sent, appends⟩ := tracked.owned slot owner found earlier
      obtain ⟨progress', present', still⟩ := follows _ _ _ present
      exact ⟨call, progress', present', still sent, appends⟩
    · cases same
      have inside := (List.getElem?_eq_some_iff.mp pending).1
      exact ⟨.append entry, _, List.getElem?_set_self inside, trivial, rfl⟩
  · intro other rv replied
    obtain ⟨call, progress, found, own⟩ := tracked.replies other rv replied
    obtain ⟨progress', found', -⟩ := follows _ _ _ found
    exact ⟨call, progress', found', own.grow grows⟩
  · intro other call progress found
    rcases getElem?_poll found with ⟨rfl, same⟩ | ⟨-, earlier⟩
    · cases same
      intro rv impossible
      cases impossible
    · exact (tracked.calls other call progress earlier).imp (fun _ running => running)
        fun _ finished rv same => (finished rv same).grow grows

end Polls

/-! ### Steps -/

variable [DecidableEq Node]

theorem Tracked.poll (tracked : Tracked enter Holds Value system counts) {future : Future}
    {shared : Replicas Node Memory} {progress : Progress Future EngineResult}
    (pending : system.Pending index call future)
    (polled : Replicas.poll enter system.shared index call future = some (shared, progress)) :
    Tracked enter Holds Value ⟨shared, system.calls.set index ⟨call, progress⟩⟩ counts := by
  have failed : ∀ error rv, (.error error : EngineResult) = .ok (.returned rv) →
      OwnValue enter Value system.shared.log counts index call rv :=
    fun _ _ impossible => by cases impossible
  unfold Replicas.poll at polled
  cases future with
  | enter =>
      cases call with
      | append entry => cases polled
      | engine node op =>
          dsimp only at polled
          split at polled
          · split at polled
            · rename_i engine running request passes
              cases polled
              exact tracked.repoll pending id ⟨node, op, rfl, _, passes⟩
            · cases polled
              exact tracked.repoll pending (fun _ => trivial) (failed _)
          · cases polled
            exact tracked.repoll pending (fun _ => trivial) (failed _)
  | send request =>
      cases call with
      | append entry => cases polled
      | engine node op =>
          obtain ⟨_, _, same, passes⟩ := tracked.calls _ _ _ pending
          cases same
          dsimp only at polled
          split at polled
          · rename_i engine running
            cases polled
            exact tracked.send pending passes running
          · cases polled
            exact tracked.repoll pending (fun _ => trivial) (failed _)
  | receive =>
      obtain ⟨result, replied, same⟩ := Option.map_eq_some_iff.mp polled
      cases same
      refine tracked.repoll pending (fun _ => trivial) fun rv told => ?_
      rw [told] at replied
      obtain ⟨call', progress', found, own⟩ := tracked.replies index rv replied
      cases Option.some.inj (found.symm.trans pending)
      exact own
  | append =>
      cases call with
      | engine node op => cases polled
      | append entry =>
          dsimp only at polled
          split at polled
          · rename_i room
            cases polled
            exact tracked.append pending room
          · cases polled

theorem Tracked.turn (gives : applicator.Gives Holds Value)
    (tracked : Tracked enter Holds Value system counts) {node : Node} {choice : Choice}
    {engine : BaseEngine Memory} {turn : Turn Memory}
    (running : system.shared.engines node = some engine)
    (moved : engine.turn applicator choice system.shared.log (system.shared.stores node) =
      some turn) :
    ∃ counts', Tracked enter Holds Value
      { system with shared :=
          { log := turn.log
            stores := Function.update system.shared.stores node turn.store
            engines := Function.update system.shared.engines node (some turn.engine)
            replies := reply system.shared.replies turn.reply } } counts' ∧
      Grows system.shared.log turn.log counts counts' := by
  obtain ⟨count', turned⟩ := turn_answers gives tracked.isOpen (tracked.stored node)
    (tracked.engines node engine running) moved
  have starts : system.shared.log.written <+: turn.log.written := by
    rcases turned.grown with same | ⟨_, _, _, _, same⟩
    · exact same ▸ List.prefix_refl _
    · exact same ▸ List.prefix_append _ _
  have grows : Grows system.shared.log turn.log counts (Function.update counts node count') := by
    refine ⟨starts, fun other => ?_⟩
    by_cases here : other = node
    · subst here
      rw [Function.update_self]
      exact turned.advanced
    · rw [Function.update_of_ne here]
  refine ⟨Function.update counts node count', ⟨turned.isOpen, ?_, ?_, ?_, ?_, ?_⟩, grows⟩
  · intro other
    dsimp only
    by_cases here : other = node
    · subst here
      rw [Function.update_self, Function.update_self]
      exact turned.stored
    · rw [Function.update_of_ne here, Function.update_of_ne here]
      exact (tracked.stored other).extend (starts.map Prod.snd)
  · intro other engine' running'
    dsimp only at running' ⊢
    by_cases here : other = node
    · subst here
      rw [Function.update_self] at running' ⊢
      cases running'
      exact turned.answers
    · rw [Function.update_of_ne here] at running' ⊢
      refine (tracked.engines other engine' running').extend starts ?_
      rintro waiting request ⟨op, progress, found, -⟩ absent
      rcases turned.grown with same | ⟨owner, entry, asked, -, same⟩
      · unfold TrackedLoglet.owners
        rw [same]
        exact absent
      · -- What this loop appended is a request of its own replica.
        unfold TrackedLoglet.owners
        rw [same, List.map_append]
        intro member
        rcases List.mem_append.mp member with earlier | last
        · exact absent earlier
        · cases List.mem_singleton.mp last
          obtain ⟨_, _, found', -⟩ := asked
          cases Option.some.inj (found.symm.trans found')
          exact here rfl
  · intro slot owner entry placed
    dsimp only at placed
    rcases turned.grown with same | ⟨asker, added, asked, -, same⟩
    · rw [same] at placed
      exact tracked.owned slot owner entry placed
    · rw [same] at placed
      rcases getElem?_of_concat placed with earlier | ⟨-, equal⟩
      · exact tracked.owned slot owner entry earlier
      · cases equal
        obtain ⟨op, progress, found, sent, passes⟩ := asked
        exact ⟨_, progress, found, sent, passes⟩
  · intro other rv replied
    rcases reply_cases system.shared.replies turn.reply other with
      ⟨result, sent, held⟩ | ⟨-, held⟩
    · cases held.symm.trans replied
      obtain ⟨entry, ⟨op, progress, found, -, passes⟩, told⟩ := turned.replied other rv sent
      refine ⟨_, progress, found, node, op, entry, rfl, passes, ?_⟩
      rw [Function.update_self]
      exact told
    · obtain ⟨call, progress, found, own⟩ := tracked.replies other rv (held.symm.trans replied)
      exact ⟨call, progress, found, own.grow grows⟩
  · intro other call progress found
    exact (tracked.calls other call progress found).imp (fun _ running => running)
      fun _ finished rv same => (finished rv same).grow grows

/-- An engine stops: what it was asked is answered by no value. -/
theorem Tracked.stop (tracked : Tracked enter Holds Value system counts) {node : Node}
    {engine : BaseEngine Memory} :
    Tracked enter Holds Value
      { system with shared := { system.shared.setEngine node none with
          replies := fun index =>
            if index ∈ engine.unanswered then some dropped else system.shared.replies index } }
      counts := by
  refine tracked.move (fun _ _ progress found => ⟨progress, found, id⟩) rfl rfl ?_ ?_ tracked.calls
  · intro other engine' running
    unfold setEngine at running
    dsimp only at running
    by_cases here : other = node
    · subst here
      rw [Function.update_self] at running
      cases running
    · rw [Function.update_of_ne here] at running
      exact tracked.engines other engine' running
  · intro index rv replied
    dsimp only at replied
    split at replied
    · cases replied
    · exact replied

theorem Tracked.open (tracked : Tracked enter Holds Value system counts) {node : Node}
    {memory : Memory} {engine : BaseEngine Memory}
    (opened : BaseEngine.new (system.shared.stores node) memory = .ok engine) :
    Tracked enter Holds Value
      { system with shared := system.shared.setEngine node (some engine) } counts := by
  refine tracked.move (fun _ _ progress found => ⟨progress, found, id⟩) rfl rfl ?_
    (fun _ _ replied => replied) tracked.calls
  intro other engine' running
  unfold setEngine at running
  dsimp only at running
  by_cases here : other = node
  · subst here
    rw [Function.update_self] at running
    cases running
    have cursor := (tracked.stored other).applied.persistedCursor tracked.isOpen.capacity
    unfold BaseEngine.new at opened
    rw [cursor] at opened
    cases opened
    exact ⟨List.nodup_nil, fun _ impossible => absurd impossible List.not_mem_nil, fun _ => rfl,
      fun _ _ impossible => by cases impossible⟩
  · rw [Function.update_of_ne here] at running
    exact tracked.engines other engine' running

theorem Tracked.step (gives : applicator.Gives Holds Value)
    (tracked : Tracked enter Holds Value system counts)
    {action : Action (ReplicaOp Node) (ReplicaEvent Node Memory Choice)}
    (moved : (replicaComponent enter applicator).machine.step system action = some next) :
    ∃ counts', Tracked enter Holds Value next counts' := by
  cases action with
  | start op =>
      rw [Component.step_start moved]
      exact ⟨counts, tracked.start⟩
  | poll index =>
      obtain ⟨op, future, shared, progress, pending, polled, rfl⟩ := Component.step_poll moved
      exact ⟨counts, tracked.poll pending polled⟩
  | background event =>
      obtain ⟨shared, ran, rfl⟩ := Component.step_background moved
      cases event with
      | turn node choice =>
          simp only [replicaComponent, background] at ran
          split at ran
          · rename_i engine running
            obtain ⟨turn, turned, rfl⟩ := Option.map_eq_some_iff.mp ran
            obtain ⟨counts', tracked', -⟩ := tracked.turn gives running turned
            exact ⟨counts', tracked'⟩
          · cases ran
      | stop node =>
          simp only [replicaComponent, background] at ran
          split at ran
          · cases ran
            exact ⟨counts, tracked.stop⟩
          · cases ran
      | new node memory =>
          simp only [replicaComponent, background] at ran
          split at ran
          · cases ran
          · split at ran
            · rename_i opened
              cases ran
              exact ⟨counts, tracked.open opened⟩
            · cases ran
              exact ⟨counts, tracked⟩

theorem Tracked.run (gives : applicator.Gives Holds Value)
    (run : (replicaComponent enter applicator).machine.Run (fun _ _ => True)
      (.fresh (Replicas.new Node Memory)) system) :
    ∃ counts, Tracked enter Holds Value system counts :=
  run.invariant (fun state => ∃ counts, Tracked enter Holds Value state counts)
    ⟨_, .new gives⟩ fun _ _ _ kept _ moved => kept.elim fun _ tracked => tracked.step gives moved

end Replicas

/-! ### Deterministic applicators -/

/-- What is committed for an entry, and its value, are functions of the store, the entry
and its position. -/
structure Applicator.Determines (applicator : Applicator Memory Choice)
    (machine : StateMachine Entry StoreData ReturnValue) : Prop where
  empty : machine.initial = ∅
  step : ∀ {choice memory data entry pos memory' txn rv},
    applicator.apply choice memory { working := data } entry pos = (memory', .ok (txn, rv)) →
    machine.step data entry pos =
      some ((txn.put cursorKey (toLeBytes 8 (pos + 1))).working, rv)

/-- The applicator returned this value for the entry on the state after those before it. -/
def Applicator.Returns (applicator : Applicator Memory Choice)
    (machine : StateMachine Entry StoreData ReturnValue) (entries : List Entry) (entry : Entry)
    (rv : ReturnValue) : Prop :=
  ∃ data choice memory memory' txn, machine.replay logPosBegin entries = some data ∧
    applicator.apply choice memory { working := data } entry (entries.length + 1) =
      (memory', .ok (txn, rv))

namespace Replicas

/-- The call appended its entry once, at `pos`, the store has come past it, and the
value is the one of this entry. -/
structure ReturnsOwn (applicator : Applicator Memory Choice)
    (machine : StateMachine Entry StoreData ReturnValue) (replicas : Replicas Node Memory)
    (index : Nat) (node : Node) (entry : Entry) (value : ReturnValue) (pos : Nat) : Prop where
  once : ∀ found other, replicas.log.Placed index found other ↔ found = entry ∧ other = pos
  readable : replicas.log.loglet.read pos = .ok (some entry)
  committed : ∃ cursor, persistedCursor (replicas.stores node) = .ok cursor ∧ pos < cursor ∧
    machine.replay logPosBegin (replicas.log.entries.take (cursor - 1)) =
      some (replicas.stores node).data
  value : applicator.Returns machine (replicas.log.entries.take (pos - 1)) entry value

variable {machine : StateMachine Entry StoreData ReturnValue}
  {applicator : Applicator Memory Choice}

theorem gives_of_determines (deterministic : applicator.Determines machine) :
    applicator.Gives (fun entries data => machine.replay logPosBegin entries = some data)
      (applicator.Returns machine) where
  empty := by
    unfold StateMachine.replay
    rw [deterministic.empty]
    rfl
  step := by
    intro entries data choice memory entry memory' txn rv replayed ran
    refine ⟨?_, data, choice, memory, memory', txn, replayed, ran⟩
    rw [StateMachine.replay_concat, replayed, Option.bind_some, logPosBegin, Nat.add_comm 1,
      deterministic.step ran]
    rfl

/-- A propose that returns has appended its entry once and returns the value that this
entry was given on the state before it, whatever others append, whichever earlier
requests failed and however often the engines were restarted. -/
theorem propose_returns [DecidableEq Node] (deterministic : applicator.Determines machine)
    {system : System (Replicas Node Memory) (ReplicaOp Node) Future EngineResult}
    (run : (replicaComponent direct applicator).machine.Run (fun _ _ => True)
      (.fresh (Replicas.new Node Memory)) system)
    {index : Nat} {node : Node} {entry : Entry} {value : ReturnValue}
    (returned : system.Returned index (.engine node (.propose entry)) (.ok (.returned value))) :
    ∃ pos, system.shared.ReturnsOwn applicator machine index node entry value pos := by
  obtain ⟨counts, tracked⟩ := Tracked.run (gives_of_determines deterministic) run
  obtain ⟨_, _, own, same, ⟨_, passes⟩, slot, placed, behind, entry', found, value⟩ :=
    tracked.calls _ _ _ returned value rfl
  cases same
  cases passes
  have present : system.shared.log.entries[slot]? = some entry := by
    unfold TrackedLoglet.entries
    rw [List.getElem?_map, placed]
    rfl
  cases present.symm.trans found
  have persisted := (tracked.stored node).applied.persistedCursor tracked.isOpen.capacity
  have own : system.shared.log.Placed index entry (slot + 1) := ⟨Nat.le_add_left _ _, placed⟩
  refine ⟨slot + 1, ⟨fun found other => ⟨fun held => ?_, ?_⟩, ?_, ?_, value⟩⟩
  · obtain ⟨rfl, rfl⟩ := tracked.isOpen.placed_unique own held
    exact ⟨rfl, rfl⟩
  · rintro ⟨rfl, rfl⟩
    exact own
  · rw [tracked.isOpen.held, MemoryLoglet.holding_read, present]
  · exact ⟨_, persisted, Nat.succ_lt_succ behind, (tracked.stored node).holds⟩

def payloadCommits : StateMachine Entry StoreData ReturnValue where
  initial := ∅
  step data entry pos := some ((data.insert (utf8 ("entry:" ++ toString pos)) entry.payload).insert
    cursorKey (toLeBytes 8 (pos + 1)), .data entry.payload)

theorem payloads_determines : payloads.Determines payloadCommits where
  empty := rfl
  step := by
    intro choice memory data entry pos memory' txn rv ran
    unfold payloads at ran
    simp only at ran
    split at ran
    · cases ran
      rfl
    · cases ran

/-- A backlog by others, an apply that fails, a restart, and another append in the middle
of the propose. -/
def proposeOverBacklog : List PayloadAction :=
  ([.start (.append (.new [9])), .poll 0, .background (.new true ()),
    .start (.engine true (.propose (.new [1]))), .poll 1, .poll 1] : List PayloadAction) ++
    turns true 3 ++
    ([.background (.turn true (some (.store "full"))), .poll 1, .background (.stop true),
      .background (.new true ()), .start (.engine true (.propose (.new [2]))), .poll 2,
      .poll 2] : List PayloadAction) ++ turns true 6 ++
    ([.start (.append (.new [8])), .poll 3] : List PayloadAction) ++ turns true 9 ++
    ([.poll 2] : List PayloadAction)

theorem propose_returns_overBacklog :
    ∃ system : System (Replicas Bool Unit) (ReplicaOp Bool) Replicas.Future EngineResult,
      system.Returned 1 (.engine true (.propose (.new [1]))) (.error (.store "full")) ∧
      system.Returned 3 (.append (.new [8])) (.ok (.pos 4)) ∧
      ∃ pos,
        system.shared.ReturnsOwn payloads payloadCommits 2 true (.new [2]) (.data [2]) pos := by
  obtain ⟨system, run, seen⟩ := Machine.exists_run_of_execute
    (replicaComponent Replicas.direct payloads).machine (fun _ _ => True)
    (.fresh (Replicas.new Bool Unit)) proposeOverBacklog System.calls
    [⟨.append (.new [9]), .finished (.ok (.pos 1))⟩,
      ⟨.engine true (.propose (.new [1])), .finished (.error (.store "full"))⟩,
      ⟨.engine true (.propose (.new [2])), .finished (.ok (.returned (.data [2])))⟩,
      ⟨.append (.new [8]), .finished (.ok (.pos 4))⟩] (by decide +kernel)
  exact ⟨system, congrArg (fun calls => calls[1]?) seen, congrArg (fun calls => calls[3]?) seen,
    propose_returns payloads_determines run (congrArg (fun calls => calls[2]?) seen)⟩

end Replicas

end Relos
