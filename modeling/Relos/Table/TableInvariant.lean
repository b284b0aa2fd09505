import Relos.Table.ReplicaInvariant

set_option autoImplicit false

/-! The invariant of a replicated table. Whatever the log, a loop or a reply channel
holds is there for a call of the history that waits for it. -/

namespace Relos

open Async Serial BaseEngine DelosTable TableReplicas

namespace TableSystem

variable {Node : Type}

/-- The request of the call has been sent to its engine. -/
def Sent : Progress Future TableResult → Prop
  | .running (.engine _ .receive) | .running .snapshot | .finished _ => True
  | .running .enter | .running (.engine _ .enter) | .running (.engine _ (.send _))
  | .running (.engine _ .append) => False

/-- The call waits for an answer from the engine of this replica. -/
def Asked (calls : List (Call (TableOp Node) Future TableResult)) (node : Node) (index : Nat)
    (request : EngineOp) : Prop :=
  ∃ op, calls[index]? = some ⟨op, .running (.engine request .receive)⟩ ∧ op.node = node

def RunningOk (codec : TableCodec) (started : Nat → Nat) (tables : TableReplicas Node) (index : Nat)
    (op : TableOp Node) : Future → Prop
  | .enter => True
  | .engine request future => op.request codec = .ok request ∧ match future with
      | .enter | .receive => True
      | .send sent => sent = request
      | .append => False
  | .snapshot => ¬ op.IsWrite ∧ started index ≤ appliedCount (tables.replicas.stores op.node)

def FinishedOk (codec : TableCodec) (started : Nat → Nat) (commands : List TableCommand)
    (tables : TableReplicas Node) (index : Nat) (op : TableOp Node) (result : TableResult) : Prop :=
  match op with
  | .write _ command => ∃ slot entry rv, tables.replicas.log.written[slot]? = some (index, entry) ∧
      Encodes codec entry command ∧ Responded codec commands slot rv ∧
      result = TableOp.respond codec rv
  | .get _ _ _ | .scan _ _ => ∃ count, tables.observed index = some count ∧
      started index ≤ count ∧ count ≤ commands.length ∧
      op.answer codec (stored codec (commands.take count)) = some result

/-- A call that waits for its engine has its answer or is still to be served. -/
def Waiting (tables : TableReplicas Node) (calls : List (Call (TableOp Node) Future TableResult)) :
    Prop :=
  ∀ (index : Nat) (op : TableOp Node) (request : EngineOp),
    calls[index]? = some ⟨op, .running (.engine request .receive)⟩ →
    (∃ result, tables.replicas.replies index = some result) ∨
    ∃ engine, tables.replicas.engines op.node = some engine ∧ index ∈ engine.unanswered

/-- `started` is at most the length that the log had when a call was started. -/
structure Inv (codec : TableCodec) (started : Nat → Nat) (commands : List TableCommand)
    (system : TableSystem Node) : Prop where
  logged : Logged codec system.shared.replicas.log commands
  bound : ∀ index, started index ≤ commands.length
  stores : ∀ node, Holds codec commands (system.shared.replicas.stores node)
  engines : ∀ node, ∃ engine, system.shared.replicas.engines node = some engine ∧
    EngineServes codec started (Asked system.calls node) system.shared.replicas.log commands
      (system.shared.replicas.stores node) engine ∧
    ∀ index ∈ engine.unanswered, system.shared.replicas.replies index = none
  written : ∀ (slot index : Nat) (entry : Entry), system.written[slot]? = some (index, entry) →
    started index ≤ slot ∧ ∃ (op : TableOp Node) (progress : Progress Future TableResult),
      system.calls[index]? = some ⟨op, progress⟩ ∧ Sent progress ∧
      op.request codec = .ok (.propose entry)
  replies : ∀ index result, system.shared.replicas.replies index = some result →
    ∃ (op : TableOp Node) (progress : Progress Future TableResult) (request : EngineOp),
      system.calls[index]? = some ⟨op, progress⟩ ∧ Sent progress ∧
      op.request codec = .ok request ∧ Answers codec started system.shared.replicas.log commands
        (system.shared.replicas.stores op.node) index request result
  observed : ∀ index count, system.shared.observed index = some count →
    ∃ op result, system.Returned index op result
  waiting : Waiting system.shared system.calls
  keyed : ∀ (index : Nat) (node : Node) (command : TableCommand)
    (progress : Progress Future TableResult),
    system.calls[index]? = some ⟨.write node command, progress⟩ → command.Keyed
  calls : ∀ (index : Nat) (op : TableOp Node) (progress : Progress Future TableResult),
    system.calls[index]? = some ⟨op, progress⟩ →
    progress.Holds (RunningOk codec started system.shared index op)
      (FinishedOk codec started commands system.shared index op)

/-- What every step leaves in place. -/
structure Grows (commands commands' : List TableCommand) (tables next : TableReplicas Node) :
    Prop where
  written : tables.replicas.log.written <+: next.replicas.log.written
  more : commands <+: commands'
  stores : ∀ node,
    appliedCount (tables.replicas.stores node) ≤ appliedCount (next.replicas.stores node)
  observed : ∀ index count, tables.observed index = some count → next.observed index = some count

variable {codec : TableCodec} {started : Nat → Nat} {commands commands' : List TableCommand}
  {tables next : TableReplicas Node} {index : Nat} {op : TableOp Node}

theorem Grows.refl : Grows commands commands tables tables where
  written := List.prefix_refl _
  more := List.prefix_refl _
  stores _ := Nat.le_refl _
  observed _ _ seen := seen

theorem outcome_grows {progress : Progress Future TableResult}
    (grows : Grows commands commands' tables next)
    (holds : progress.Holds (RunningOk codec started tables index op)
      (FinishedOk codec started commands tables index op)) :
    progress.Holds (RunningOk codec started next index op)
      (FinishedOk codec started commands' next index op) := by
  refine holds.imp (fun future running => ?_) (fun result finished => ?_)
  · cases future with
    | enter | engine => exact running
    | snapshot => exact ⟨running.1, Nat.le_trans running.2 (grows.stores op.node)⟩
  · have read : (∃ count, tables.observed index = some count ∧ started index ≤ count ∧
        count ≤ commands.length ∧ op.answer codec (stored codec (commands.take count)) = some result) →
        ∃ count, next.observed index = some count ∧ started index ≤ count ∧
        count ≤ commands'.length ∧
          op.answer codec (stored codec (commands'.take count)) = some result := by
      rintro ⟨count, seen, later, inside, answered⟩
      refine ⟨count, grows.observed index count seen, later,
        Nat.le_trans inside grows.more.length_le, ?_⟩
      rw [take_of_longer grows.more inside]
      exact answered
    cases op with
    | write node command =>
        obtain ⟨slot, entry, rv, placed, encodes, responded, same⟩ := finished
        exact ⟨slot, entry, rv, getElem?_of_longer grows.written placed, encodes,
          responded.extend grows.more, same⟩
    | get | scan => exact read finished

theorem answers_grow {request : EngineOp} {result : EngineResult} {node : Node}
    (grows : Grows commands commands' tables next)
    (answers : Answers codec started tables.replicas.log commands (tables.replicas.stores node) index
      request result) :
    Answers codec started next.replicas.log commands' (next.replicas.stores node) index request
      result := by
  cases request with
  | propose entry =>
      obtain ⟨slot, rv, placed, responded, same⟩ := answers
      exact ⟨slot, rv, getElem?_of_longer grows.written placed, responded.extend grows.more, same⟩
  | sync =>
      obtain ⟨pos, later, same⟩ := answers
      exact ⟨pos, Nat.le_trans later (grows.stores node), same⟩

/-! ### Steps -/

variable {system : TableSystem Node}

theorem Inv.new (codec : TableCodec) : Inv codec (fun _ => 0) [] (new Node) where
  logged := .new codec
  bound _ := Nat.le_refl 0
  stores _ := .new codec
  engines _ := by
    refine ⟨{ cursor := 1, requests := [], serving := none, memory := () }, rfl,
      ⟨List.nodup_nil, ?_, fun _ => rfl, ?_⟩, fun _ impossible => ?_⟩
    · exact fun _ impossible => absurd impossible List.not_mem_nil
    · exact fun _ _ impossible => by cases impossible
    · exact absurd impossible List.not_mem_nil
  written _ _ _ impossible := by cases impossible
  replies _ _ impossible := by cases impossible
  observed _ _ impossible := by cases impossible
  waiting _ _ _ impossible := by cases impossible
  keyed _ _ _ _ impossible := by cases impossible
  calls _ _ _ impossible := by cases impossible

/-- The calls of the history stay, and none goes back. -/
def Follows (calls calls' : List (Call (TableOp Node) Future TableResult)) : Prop :=
  ∀ (index : Nat) (op : TableOp Node) (progress : Progress Future TableResult),
    calls[index]? = some ⟨op, progress⟩ →
    ∃ progress', calls'[index]? = some ⟨op, progress'⟩ ∧ (Sent progress → Sent progress') ∧
      ∀ result, progress = .finished result → progress' = progress

theorem follows_start (calls : List (Call (TableOp Node) Future TableResult))
    (added : Call (TableOp Node) Future TableResult) : Follows calls (calls ++ [added]) := by
  intro index op progress found
  exact ⟨progress, getElem?_of_longer (List.prefix_append _ _) found, id, fun _ _ => rfl⟩

theorem follows_poll {future : Future} {progress : Progress Future TableResult}
    (pending : system.Pending index op future) (sent : Sent (.running future) → Sent progress) :
    Follows system.calls (system.calls.set index ⟨op, progress⟩) := by
  intro other op' before found
  by_cases same : other = index
  · subst same
    have equal := Option.some.inj (found.symm.trans pending)
    cases equal
    refine ⟨progress, ?_, sent, fun _ impossible => by cases impossible⟩
    exact List.getElem?_set_self (List.getElem?_eq_some_iff.mp found).1
  · refine ⟨before, ?_, id, fun _ _ => rfl⟩
    rw [List.getElem?_set_ne (fun equal => same equal.symm)]
    exact found

/-- The log, the stores and the replies stay; the calls move on. -/
theorem Inv.move (inv : Inv codec started commands system)
    {calls : List (Call (TableOp Node) Future TableResult)} (follows : Follows system.calls calls)
    (log : tables.replicas.log = system.shared.replicas.log)
    (stores : tables.replicas.stores = system.shared.replicas.stores)
    (replies : tables.replicas.replies = system.shared.replicas.replies)
    (engines : ∀ node, ∃ engine, tables.replicas.engines node = some engine ∧
      EngineServes codec started (Asked calls node) system.shared.replicas.log commands
        (system.shared.replicas.stores node) engine ∧
      ∀ index ∈ engine.unanswered, system.shared.replicas.replies index = none)
    (observed : ∀ index count, tables.observed index = some count →
      ∃ op result, calls[index]? = some ⟨op, .finished result⟩)
    (waiting : Waiting tables calls)
    (outcomes : ∀ (index : Nat) (op : TableOp Node) (progress : Progress Future TableResult),
      calls[index]? = some ⟨op, progress⟩ →
      (∀ node command, op = .write node command → command.Keyed) ∧
      progress.Holds (RunningOk codec started tables index op)
        (FinishedOk codec started commands tables index op)) :
    Inv codec started commands ⟨tables, calls⟩ where
  logged := by
    rw [log]
    exact inv.logged
  bound := inv.bound
  stores := by
    rw [stores]
    exact inv.stores
  engines := by
    rw [log, stores, replies]
    exact engines
  written slot index entry placed := by
    unfold TableSystem.written at placed
    rw [log] at placed
    obtain ⟨later, op, progress, found, sent, requested⟩ := inv.written slot index entry placed
    obtain ⟨progress', found', sent', -⟩ := follows index op progress found
    exact ⟨later, op, progress', found', sent' sent, requested⟩
  replies index result replied := by
    rw [replies] at replied
    obtain ⟨op, progress, request, found, sent, requested, answers⟩ :=
      inv.replies index result replied
    obtain ⟨progress', found', sent', -⟩ := follows index op progress found
    rw [log, stores]
    exact ⟨op, progress', request, found', sent' sent, requested, answers⟩
  observed := observed
  waiting := waiting
  keyed index node command progress found := (outcomes _ _ _ found).1 node command rfl
  calls index op progress found := (outcomes _ _ _ found).2

theorem Inv.start (inv : Inv codec started commands system)
    (keyed : ∀ node command, op = .write node command → command.Keyed) :
    Inv codec started commands
      { system with calls := system.calls ++ [⟨op, .running .enter⟩] } := by
  have follows := follows_start system.calls ⟨op, .running .enter⟩
  refine inv.move follows rfl rfl rfl (fun node => ?_) (fun index count seen => ?_)
    (fun index other request found => ?_) (fun index other progress found => ?_)
  · obtain ⟨engine, running, serves, silent⟩ := inv.engines node
    refine ⟨engine, running, serves.imp (fun other _ request asks => ?_), silent⟩
    obtain ⟨asker, found, here⟩ := asks
    exact ⟨asker, getElem?_of_longer (List.prefix_append _ _) found, here⟩
  · obtain ⟨op, result, returned⟩ := inv.observed index count seen
    exact ⟨op, result, getElem?_of_longer (List.prefix_append _ _) returned⟩
  · rcases getElem?_of_concat found with earlier | ⟨-, impossible⟩
    · exact inv.waiting index other request earlier
    · cases impossible
  · rcases getElem?_of_concat found with earlier | ⟨rfl, same⟩
    · refine ⟨fun node command same => ?_, inv.calls index other progress earlier⟩
      subst same
      exact inv.keyed index node command progress earlier
    · cases same
      exact ⟨keyed, trivial⟩

section Polls

variable {future : Future} {progress : Progress Future TableResult}

/-- A call that no loop has to answer is polled. -/
theorem Inv.repoll (inv : Inv codec started commands system)
    (pending : system.Pending index op future)
    (quiet : ∀ node engine, system.shared.replicas.engines node = some engine →
      index ∉ engine.unanswered)
    (same : tables.replicas = system.shared.replicas)
    (kept : ∀ index count, system.shared.observed index = some count →
      tables.observed index = some count)
    (observed : ∀ other count, tables.observed other = some count →
      system.shared.observed other = some count ∨
        other = index ∧ ∃ result, progress = .finished result)
    (sent : Sent (.running future) → Sent progress)
    (received : ∀ request, progress ≠ .running (.engine request .receive))
    (outcome : progress.Holds (RunningOk codec started tables index op)
      (FinishedOk codec started commands tables index op)) :
    Inv codec started commands ⟨tables, system.calls.set index ⟨op, progress⟩⟩ := by
  have grows : Grows commands commands system.shared tables :=
    ⟨by rw [same], List.prefix_refl _, fun _ => by rw [same], kept⟩
  have inside := (List.getElem?_eq_some_iff.mp pending).1
  refine inv.move (follows_poll pending sent) (by rw [same]) (by rw [same]) (by rw [same])
    (fun node => ?_) (fun other count seen => ?_) (fun other op' request found => ?_)
    (fun other op' progress' found => ?_)
  · rw [same]
    obtain ⟨engine, running, serves, silent⟩ := inv.engines node
    refine ⟨engine, running, serves.imp (fun other member request asks => ?_), silent⟩
    obtain ⟨asker, found, here⟩ := asks
    refine ⟨asker, ?_, here⟩
    rw [List.getElem?_set_ne]
    · exact found
    · rintro rfl
      exact quiet node engine running member
  · rcases observed other count seen with before | ⟨rfl, result, rfl⟩
    · obtain ⟨op', result, returned⟩ := inv.observed other count before
      obtain ⟨progress', found, -, stays⟩ := follows_poll pending sent other op' _ returned
      rw [stays result rfl] at found
      exact ⟨op', result, found⟩
    · exact ⟨op, result, List.getElem?_set_self inside⟩
  · rcases getElem?_poll found with ⟨-, equal⟩ | ⟨-, earlier⟩
    · cases equal
      exact absurd rfl (received request)
    · rw [same]
      exact inv.waiting other op' request earlier
  · have keyed : ∀ (other : Nat) (op' : TableOp Node) (progress : Progress Future TableResult),
        system.calls[other]? = some ⟨op', progress⟩ →
        ∀ node command, op' = .write node command → command.Keyed := by
      intro other op' progress found node command written
      subst written
      exact inv.keyed other node command progress found
    rcases getElem?_poll found with ⟨rfl, equal⟩ | ⟨-, earlier⟩
    · cases equal
      exact ⟨keyed _ _ _ pending, outcome⟩
    · exact ⟨keyed _ _ _ earlier, outcome_grows grows (inv.calls _ _ _ earlier)⟩

theorem Inv.quiet (inv : Inv codec started commands system)
    (pending : system.Pending index op future)
    (unsent : ∀ request, future = .engine request .receive →
      ∃ result, system.shared.replicas.replies index = some result) (node : Node)
    (engine : BaseEngine Unit) (running : system.shared.replicas.engines node = some engine) :
    index ∉ engine.unanswered := by
  intro member
  obtain ⟨_, running', serves, silent⟩ := inv.engines node
  cases running.symm.trans running'
  obtain ⟨request, asker, found, -⟩ := serves.asked_of_mem member
  cases Option.some.inj (found.symm.trans pending)
  obtain ⟨result, replied⟩ := unsent request rfl
  rw [silent index member] at replied
  cases replied

/-- What has been sent leaves no trace before it is sent. -/
theorem Inv.unsent (inv : Inv codec started commands system)
    (pending : system.Pending index op future) (unsent : ¬ Sent (.running future)) :
    index ∉ system.written.map Prod.fst ∧ system.shared.replicas.replies index = none := by
  constructor
  · intro member
    obtain ⟨⟨owner, entry⟩, held, rfl⟩ := List.mem_map.mp member
    obtain ⟨slot, placed⟩ := List.getElem?_of_mem held
    obtain ⟨-, op', progress, found, sent, -⟩ := inv.written slot owner entry placed
    cases Option.some.inj (found.symm.trans pending)
    exact unsent sent
  · cases replied : system.shared.replicas.replies index with
    | none => rfl
    | some result =>
        obtain ⟨op', progress, request, found, sent, -⟩ := inv.replies index result replied
        cases Option.some.inj (found.symm.trans pending)
        exact absurd sent unsent

end Polls

section Poll

variable [DecidableEq Node] {request : EngineOp}

theorem Inv.send (inv : Inv codec started commands system)
    (pending : system.Pending index op (.engine request (.send request)))
    (requested : op.request codec = .ok request) {engine : BaseEngine Unit}
    (running : system.shared.replicas.engines op.node = some engine) :
    Inv codec started commands
      { shared :=
          { system.shared with
            replicas := system.shared.replicas.setEngine op.node
              (some { engine with requests := engine.requests ++ [⟨request, index⟩] }) }
        calls := system.calls.set index ⟨op, .running (.engine request .receive)⟩ } := by
  have inside := (List.getElem?_eq_some_iff.mp pending).1
  have quiet := inv.quiet pending (fun _ impossible => by cases impossible)
  obtain ⟨unwritten, silent'⟩ := inv.unsent pending id
  have follows : Follows system.calls
      (system.calls.set index ⟨op, .running (.engine request .receive)⟩) :=
    follows_poll pending fun impossible => impossible.elim
  -- The other calls that a loop has to answer are where they were.
  have still : ∀ node engine, system.shared.replicas.engines node = some engine →
      ∀ other ∈ engine.unanswered, ∀ asks, Asked system.calls node other asks →
      Asked (system.calls.set index ⟨op, .running (.engine request .receive)⟩) node other asks := by
    rintro node engine running other member asks ⟨asker, found, here⟩
    refine ⟨asker, ?_, here⟩
    rw [List.getElem?_set_ne]
    · exact found
    · rintro rfl
      exact quiet node engine running member
  refine inv.move follows rfl rfl rfl (fun node => ?_) (fun other count seen => ?_)
    (fun other op' asks found => ?_) (fun other op' progress found => ?_)
  · obtain ⟨before, running', serves, silent⟩ := inv.engines node
    have kept := serves.imp (still node before running')
    unfold Replicas.setEngine
    by_cases same : node = op.node
    · subst same
      cases running.symm.trans running'
      refine ⟨_, Function.update_self .., kept.enqueue (quiet _ _ running) ?_ unwritten, ?_⟩
      · exact ⟨op, List.getElem?_set_self inside, rfl⟩
      · intro other member
        rw [unanswered_enqueue] at member
        rcases List.mem_append.mp member with earlier | last
        · exact silent other earlier
        · rw [List.mem_singleton.mp last]
          exact silent'
    · exact ⟨before, (Function.update_of_ne same ..).trans running', kept, silent⟩
  · obtain ⟨op', result, returned⟩ := inv.observed other count seen
    obtain ⟨progress', found, -, stays⟩ := follows other op' _ returned
    rw [stays result rfl] at found
    exact ⟨op', result, found⟩
  · unfold Replicas.setEngine
    rcases getElem?_poll found with ⟨rfl, equal⟩ | ⟨-, earlier⟩
    · cases equal
      refine Or.inr ⟨_, Function.update_self .., ?_⟩
      rw [unanswered_enqueue]
      exact List.mem_append_right _ List.mem_cons_self
    · refine (inv.waiting other op' asks earlier).imp_right ?_
      rintro ⟨before, running', member⟩
      by_cases same : op'.node = op.node
      · rw [same] at running' ⊢
        cases running.symm.trans running'
        refine ⟨_, Function.update_self .., ?_⟩
        rw [unanswered_enqueue]
        exact List.mem_append_left _ member
      · exact ⟨before, (Function.update_of_ne same ..).trans running', member⟩
  · rcases getElem?_poll found with ⟨rfl, equal⟩ | ⟨-, earlier⟩
    · cases equal
      refine ⟨fun node command written => ?_, requested, trivial⟩
      subst written
      exact inv.keyed _ node command _ pending
    · refine ⟨fun node command written => ?_, inv.calls _ _ _ earlier⟩
      subst written
      exact inv.keyed _ node command _ earlier

omit [DecidableEq Node] in
theorem exists_request (lawful : codec.Lawful) (op : TableOp Node) :
    ∃ request, op.request codec = .ok request := by
  cases op with
  | write node command =>
      obtain ⟨payload, encoded, -⟩ := lawful.command command
      exact ⟨.propose (.new payload), congrArg (Except.map _) encoded⟩
  | get | scan => exact ⟨.sync, rfl⟩

omit [DecidableEq Node] in
/-- Only a write proposes, and it proposes its command. -/
theorem request_cases (requested : op.request codec = .ok request) :
    (∃ node command entry, op = .write node command ∧ request = .propose entry ∧
      Encodes codec entry command) ∨ (¬ op.IsWrite ∧ request = .sync) := by
  cases op with
  | write node command =>
      unfold TableOp.request at requested
      dsimp only at requested
      cases encoded : codec.command.serialize command with
      | error error =>
          rw [encoded] at requested
          cases requested
      | ok payload =>
          rw [encoded] at requested
          cases requested
          exact Or.inl ⟨node, command, _, rfl, rfl, payload, encoded, rfl⟩
  | get | scan =>
      cases requested
      exact Or.inr ⟨id, rfl⟩

omit [DecidableEq Node] in
/-- What a call makes of the answer of its engine. -/
theorem resume_answer {result : EngineResult} {progress : Progress Future TableResult}
    (requested : op.request codec = .ok request)
    (answers : Answers codec started tables.replicas.log commands (tables.replicas.stores op.node) index
      request result)
    (resumed : resume codec op request (.finished result) = some progress) :
    Sent progress ∧ (∀ request, progress ≠ .running (.engine request .receive)) ∧
      progress.Holds (RunningOk codec started tables index op)
        (FinishedOk codec started commands tables index op) := by
  rcases request_cases requested with ⟨node, command, entry, rfl, rfl, encodes⟩ | ⟨reads, rfl⟩
  · obtain ⟨slot, rv, placed, responded, rfl⟩ := answers
    cases resumed
    exact ⟨trivial, fun _ impossible => (by cases impossible), slot, entry, rv, placed, encodes,
      responded, rfl⟩
  · obtain ⟨pos, later, rfl⟩ := answers
    cases op with
    | write node command => exact absurd trivial reads
    | get | scan =>
        cases resumed
        exact ⟨trivial, fun _ impossible => (by cases impossible), reads, later⟩

/-- One poll of a call. -/
theorem Inv.poll (lawful : codec.Lawful) (inv : Inv codec started commands system)
    {future : Future} {progress : Progress Future TableResult}
    (pending : system.Pending index op future)
    (polled : TableReplicas.poll codec system.shared index op future = some (tables, progress)) :
    Inv codec started commands ⟨tables, system.calls.set index ⟨op, progress⟩⟩ ∧
      Grows commands commands system.shared tables := by
  have running : RunningOk codec started system.shared index op future :=
    inv.calls index op _ pending
  cases future with
  | enter =>
      obtain ⟨request, requested⟩ := exists_request lawful op
      unfold TableReplicas.poll at polled
      dsimp only at polled
      rw [requested] at polled
      cases polled
      refine ⟨inv.repoll pending (inv.quiet pending fun _ impossible => by cases impossible) rfl
        (fun _ _ seen => seen) (fun _ _ seen => Or.inl seen) (fun sent => sent.elim)
        (fun _ impossible => by cases impossible) ?_, .refl⟩
      exact ⟨requested, trivial⟩
  | engine request future =>
      obtain ⟨requested, sends⟩ := running
      obtain ⟨engine, found, -⟩ := inv.engines op.node
      unfold TableReplicas.poll at polled
      obtain ⟨⟨replicas, outcome⟩, advanced, resumed⟩ := Option.bind_eq_some_iff.mp polled
      obtain ⟨after, resumes, same⟩ := Option.map_eq_some_iff.mp resumed
      obtain ⟨rfl, rfl⟩ := Prod.mk.inj same
      cases future with
      | enter =>
          unfold Replicas.poll at advanced
          dsimp only at advanced
          rw [found] at advanced
          cases advanced
          cases resumes
          refine ⟨inv.repoll pending (inv.quiet pending fun _ impossible => by cases impossible) rfl
            (fun _ _ seen => seen) (fun _ _ seen => Or.inl seen) (fun sent => sent.elim)
        (fun _ impossible => by cases impossible) ?_, .refl⟩
          exact ⟨requested, rfl⟩
      | send sent =>
          subst sends
          unfold Replicas.poll at advanced
          dsimp only at advanced
          rw [found] at advanced
          cases advanced
          cases resumes
          exact ⟨inv.send pending requested found,
            ⟨List.prefix_refl _, List.prefix_refl _, fun _ => Nat.le_refl _, fun _ _ seen => seen⟩⟩
      | receive =>
          obtain ⟨result, replied, same⟩ := Option.map_eq_some_iff.mp advanced
          cases same
          obtain ⟨_, _, request', held, -, requested', answers⟩ := inv.replies index result replied
          cases Option.some.inj (held.symm.trans pending)
          cases requested.symm.trans requested'
          obtain ⟨sent, received, outcome⟩ := resume_answer requested answers resumes
          exact ⟨inv.repoll pending (inv.quiet pending fun _ _ => ⟨result, replied⟩) rfl
            (fun _ _ seen => seen) (fun _ _ seen => Or.inl seen) (fun _ => sent) received outcome,
            .refl⟩
      | append => exact sends.elim
  | snapshot =>
      obtain ⟨reads, later⟩ := running
      obtain ⟨result, answered, same⟩ := Option.map_eq_some_iff.mp polled
      obtain ⟨rfl, rfl⟩ := Prod.mk.inj same
      have holds := inv.stores op.node
      have kept : ∀ other count, system.shared.observed other = some count →
          (system.shared.observe index op.node).observed other = some count := by
        intro other count seen
        obtain ⟨op', result', returned⟩ := inv.observed other count seen
        refine (Function.update_of_ne ?_ ..).trans seen
        rintro rfl
        cases Option.some.inj (returned.symm.trans pending)
      refine ⟨inv.repoll pending (inv.quiet pending fun _ impossible => by cases impossible) rfl kept
        (fun other count seen => ?_) (fun _ => trivial) (fun _ impossible => by cases impossible) ?_,
        ⟨List.prefix_refl _, List.prefix_refl _, fun _ => Nat.le_refl _, kept⟩⟩
      · by_cases same : other = index
        · exact Or.inr ⟨same, result, rfl⟩
        · exact Or.inl ((Function.update_of_ne same ..).symm.trans seen)
      · have outcome : ∃ count, (system.shared.observe index op.node).observed index = some count ∧
            started index ≤ count ∧ count ≤ commands.length ∧
            op.answer codec (stored codec (commands.take count)) = some result := by
          refine ⟨_, Function.update_self .., later, holds.inside, ?_⟩
          rw [← holds.same]
          exact answered
        cases op with
        | write node command => exact absurd trivial reads
        | get | scan => exact outcome

/-- One turn of an apply loop. -/
theorem Inv.turn (lawful : codec.Lawful) (inv : Inv codec started commands system) {node : Node}
    {choice : Unit} (ran : TableReplicas.background codec system.shared (.turn node choice) =
      some tables) :
    ∃ commands', Inv codec started commands' { system with shared := tables } ∧
      Grows commands commands' system.shared tables := by
  obtain ⟨replicas, stepped, rfl⟩ := Option.map_eq_some_iff.mp ran
  obtain ⟨engine, running, serves, silent⟩ := inv.engines node
  unfold Replicas.background at stepped
  dsimp only at stepped
  rw [running] at stepped
  obtain ⟨turn, moved, rfl⟩ := Option.map_eq_some_iff.mp stepped
  have encodes : ∀ index entry, Asked system.calls node index (.propose entry) →
      ∃ command, command.Keyed ∧ Encodes codec entry command := by
    rintro index entry ⟨op, found, -⟩
    have running : RunningOk codec started system.shared index op
      (.engine (.propose entry) .receive) := inv.calls _ _ _ found
    rcases request_cases running.1 with ⟨_, command, _, rfl, same, encodes⟩ | ⟨-, impossible⟩
    · cases same
      exact ⟨command, inv.keyed _ _ _ _ found, encodes⟩
    · cases impossible
  obtain ⟨commands', turned⟩ :=
    turn_serves lawful inv.bound encodes inv.logged (inv.stores node) serves moved
  have written : system.written <+: turn.log.written := by
    rcases turned.grown with same | ⟨_, _, _, _, same⟩
    · rw [same]
      exact List.prefix_refl _
    · rw [same]
      exact List.prefix_append _ _
  have grows : Grows commands commands' system.shared
      { system.shared with
        replicas :=
          { log := turn.log
            stores := Function.update system.shared.replicas.stores node turn.store
            engines := Function.update system.shared.replicas.engines node (some turn.engine)
            replies := Replicas.reply system.shared.replicas.replies turn.reply } } := by
    refine ⟨written, turned.more, fun other => ?_, fun _ _ seen => seen⟩
    dsimp only
    by_cases same : other = node
    · subst same
      rw [Function.update_self]
      exact turned.later
    · rw [Function.update_of_ne same]
  -- The call that is answered is one that this loop was asked.
  have replied : ∀ index result, turn.reply = some (index, result) →
      engine.unanswered = index :: turn.engine.unanswered ∧
      ∃ request, Asked system.calls node index request ∧ Answers codec started turn.log commands'
        turn.store index request result := by
    intro index result sent
    have answered := turned.answered
    rw [sent] at answered
    exact answered
  refine ⟨commands', ⟨turned.logged, fun index => ?_, fun other => ?_, fun other => ?_, ?_, ?_,
    inv.observed, fun index op request found => ?_, inv.keyed, fun index op progress found => ?_⟩,
    grows⟩
  · exact Nat.le_trans (inv.bound index) turned.more.length_le
  · by_cases same : other = node
    · subst same
      simp only [Function.update_self]
      exact turned.holds
    · simp only [Function.update_of_ne same]
      exact (inv.stores other).extend turned.more
  · by_cases same : other = node
    · subst same
      simp only [Function.update_self]
      refine ⟨turn.engine, rfl, turned.serves, fun index member => ?_⟩
      rcases Replicas.reply_cases system.shared.replicas.replies turn.reply index with
        ⟨result, sent, -⟩ | ⟨others, kept⟩
      · obtain ⟨same, -⟩ := replied index result sent
        have nodup := serves.nodup
        rw [same] at nodup
        exact absurd member (List.nodup_cons.mp nodup).1
      · rw [kept]
        refine silent index ?_
        have answered := turned.answered
        cases sent : turn.reply with
        | none =>
            rw [sent] at answered
            rwa [← show turn.engine.unanswered = engine.unanswered from answered]
        | some answer =>
            obtain ⟨same, -⟩ := replied answer.1 answer.2 sent
            rw [same]
            exact List.mem_cons_of_mem _ member
    · simp only [Function.update_of_ne same]
      obtain ⟨engine', running', serves', silent'⟩ := inv.engines other
      -- A call is asked of one replica.
      have apart : ∀ index request request', Asked system.calls other index request →
          ¬ Asked system.calls node index request' := by
        rintro index request request' ⟨op, found, here⟩ ⟨op', found', there⟩
        cases Option.some.inj (found.symm.trans found')
        exact same (here.symm.trans there)
      refine ⟨engine', running', serves'.extend written turned.more (fun index request asks absent => ?_),
        fun index member => ?_⟩
      · rcases turned.grown with kept | ⟨index', entry, asks', -, grown⟩
        · rw [kept]
          exact absent
        · rw [grown, List.map_append]
          intro member
          rcases List.mem_append.mp member with earlier | last
          · exact absent earlier
          · cases List.mem_singleton.mp last
            exact apart _ _ _ asks asks'
      · rcases Replicas.reply_cases system.shared.replicas.replies turn.reply index with
          ⟨result, sent, -⟩ | ⟨-, kept⟩
        · obtain ⟨-, request, asks, -⟩ := replied index result sent
          obtain ⟨request', asks'⟩ := serves'.asked_of_mem member
          exact absurd asks (apart _ _ _ asks')
        · rw [kept]
          exact silent' index member
  · intro slot index entry placed
    rcases turned.grown with kept | ⟨index', entry', ⟨op, found, -⟩, -, grown⟩
    · refine inv.written slot index entry ?_
      unfold TableSystem.written
      rw [← kept]
      exact placed
    · unfold TableSystem.written at placed
      dsimp only at placed
      rw [grown] at placed
      rcases getElem?_of_concat placed with earlier | ⟨rfl, same⟩
      · exact inv.written slot index entry earlier
      · cases same
        have running : RunningOk codec started system.shared index op
          (.engine (.propose entry) .receive) := inv.calls _ _ _ found
        refine ⟨?_, op, _, found, trivial, running.1⟩
        rw [inv.logged.length]
        exact inv.bound index
  · intro index result sent
    rcases Replicas.reply_cases system.shared.replicas.replies turn.reply index with
      ⟨result', sent', same⟩ | ⟨-, kept⟩
    · cases (show some result' = some result from same.symm.trans sent)
      obtain ⟨-, request, ⟨op, found, rfl⟩, answers⟩ := replied index result sent'
      have running : RunningOk codec started system.shared index op (.engine request .receive) :=
        inv.calls _ _ _ found
      refine ⟨op, _, request, found, trivial, running.1, ?_⟩
      simp only [Function.update_self]
      exact answers
    · obtain ⟨op, progress, request, found, isSent, requested, answers⟩ :=
        inv.replies index result (kept.symm.trans sent)
      exact ⟨op, progress, request, found, isSent, requested, answers_grow grows answers⟩
  · rcases inv.waiting index op request found with ⟨result, sent⟩ | ⟨asked, running', member⟩
    · refine Or.inl ?_
      rcases Replicas.reply_cases system.shared.replicas.replies turn.reply index with
        ⟨result', -, same⟩ | ⟨-, kept⟩
      · exact ⟨result', same⟩
      · exact ⟨result, kept.trans sent⟩
    · by_cases same : op.node = node
      · subst same
        cases running.symm.trans running'
        have answered := turned.answered
        cases sent : turn.reply with
        | none =>
            rw [sent] at answered
            refine Or.inr ⟨turn.engine, Function.update_self .., ?_⟩
            rw [show turn.engine.unanswered = engine.unanswered from answered]
            exact member
        | some answer =>
            obtain ⟨mentioned, -⟩ := replied answer.1 answer.2 sent
            rw [mentioned] at member
            rcases List.mem_cons.mp member with rfl | rest
            · exact Or.inl ⟨answer.2, Function.update_self ..⟩
            · exact Or.inr ⟨turn.engine, Function.update_self .., rest⟩
      · exact Or.inr ⟨asked, (Function.update_of_ne same ..).trans running', member⟩
  · exact outcome_grows grows (inv.calls index op progress found)

end Poll

/-! ### Runs -/

theorem Grows.trans {commands'' : List TableCommand} {last : TableReplicas Node}
    (first : Grows commands commands' tables next) (second : Grows commands' commands'' next last) :
    Grows commands commands'' tables last where
  written := first.written.trans second.written
  more := first.more.trans second.more
  stores node := Nat.le_trans (first.stores node) (second.stores node)
  observed index count seen := second.observed index count (first.observed index count seen)

/-- What is known of the calls so far does not depend on the calls to come. -/
theorem Inv.restart {started' : Nat → Nat} (inv : Inv codec started commands system)
    (same : ∀ index, index < system.calls.length → started' index = started index)
    (bound : ∀ index, started' index ≤ commands.length) : Inv codec started' commands system := by
  have inside : ∀ {index : Nat} {call : Call (TableOp Node) Future TableResult},
      system.calls[index]? = some call → started' index = started index :=
    fun found => same _ (List.getElem?_eq_some_iff.mp found).1
  refine ⟨inv.logged, bound, inv.stores, fun node => ?_, ?_, ?_, inv.observed, inv.waiting, inv.keyed,
    ?_⟩
  · obtain ⟨engine, running, serves, silent⟩ := inv.engines node
    refine ⟨engine, running, serves.restart ?_, silent⟩
    rintro index request ⟨op, found, -⟩
    exact inside found
  · intro slot index entry placed
    obtain ⟨later, op, progress, found, rest⟩ := inv.written slot index entry placed
    exact ⟨by rw [inside found]; exact later, op, progress, found, rest⟩
  · intro index result sent
    obtain ⟨op, progress, request, found, isSent, requested, answers⟩ := inv.replies index result sent
    exact ⟨op, progress, request, found, isSent, requested, answers.restart (inside found)⟩
  · intro index op progress found
    have equal := inside found
    refine (inv.calls index op progress found).imp (fun future running => ?_) (fun result finished => ?_)
    · cases future with
      | enter | engine => exact running
      | snapshot => exact ⟨running.1, equal ▸ running.2⟩
    · cases op with
      | write => exact finished
      | get | scan =>
          obtain ⟨count, seen, later, rest⟩ := finished
          exact ⟨count, seen, equal ▸ later, rest⟩

section Runs

variable [DecidableEq Node] {earlier later : TableSystem Node}

theorem Inv.step (lawful : codec.Lawful) {system next : TableSystem Node} {action : TableAction Node}
    (inv : Inv codec started commands system) (permitted : system.Undisturbed action)
    (moved : (tableComponent codec).machine.step system action = some next) :
    ∃ commands', Inv codec started commands' next ∧
      Grows commands commands' system.shared next.shared := by
  cases action with
  | start op =>
      rw [Component.step_start moved]
      refine ⟨commands, inv.start fun node command written => ?_, .refl⟩
      subst written
      exact permitted
  | poll index =>
      obtain ⟨op, future, shared, progress, pending, polled, rfl⟩ := Component.step_poll moved
      exact ⟨commands, inv.poll lawful pending polled⟩
  | background event =>
      obtain ⟨shared, ran, rfl⟩ := Component.step_background moved
      cases event with
      | turn node choice => exact inv.turn lawful ran
      | stop node => exact permitted.elim
      | new node memory => exact permitted.elim

theorem Inv.run (lawful : codec.Lawful) (inv : Inv codec started commands earlier)
    (run : (tableComponent codec).machine.Run Undisturbed earlier later) :
    ∃ commands', Inv codec started commands' later ∧
      Grows commands commands' earlier.shared later.shared := by
  refine run.invariant (fun state => ∃ commands', Inv codec started commands' state ∧
    Grows commands commands' earlier.shared state.shared) ⟨commands, inv, .refl⟩ ?_
  rintro state action next ⟨middle, kept, grows⟩ permitted moved
  obtain ⟨commands', inv', grows'⟩ := kept.step lawful permitted moved
  exact ⟨commands', inv', grows.trans grows'⟩

end Runs

end TableSystem

end Relos
