import Relos.Table.ReplicatedTable

set_option autoImplicit false

/-! What the log, the store and the apply loop of a replica have in common while the
table is called. The store is always the one after a prefix of the log; the loop
knows the slot of the command it waits for and the tail it syncs to. -/

namespace Relos

open Async Serial BaseEngine DelosTable TableApplicator

namespace TableReplicas

/-! ### The commands of the log -/

theorem schemaInForce_keyed {commands : List TableCommand}
    (keyed : ∀ command ∈ commands, command.Keyed) {table : String} {schema : TableSchema}
    (found : schemaInForce commands table = some schema) : schema.KeyListed := by
  induction commands using List.reverseRecOn with
  | nil => cases found
  | append_singleton commands command ih =>
      have before := ih fun other member => keyed other (List.mem_append_left _ member)
      rw [schemaInForce_concat] at found
      cases command with
      | createTable created =>
          unfold TableCommand.schemaStep at found
          dsimp only at found
          split at found
          · cases found
            exact keyed _ (List.mem_append_right _ List.mem_cons_self)
          · exact before found
      | dropTable dropped =>
          unfold TableCommand.schemaStep at found
          dsimp only at found
          split at found
          · cases found
          · exact before found
      | put | delete => exact before found

/-- No put meets a schema without its primary key columns. -/
theorem allApply_of_keyed {commands : List TableCommand}
    (keyed : ∀ command ∈ commands, command.Keyed) : AllApply commands := by
  intro calls command starts
  cases command with
  | put table row =>
      intro schema found _
      refine schemaInForce_keyed (fun other member => keyed other ?_) found
      exact starts.subset (List.mem_append_left _ member)
  | createTable | dropTable | delete => trivial

variable {codec : TableCodec} {commands commands' : List TableCommand} {slot : Nat}
  {rv : ReturnValue} {store : MemoryStore}

/-- The command at this slot of the log has this response, and takes the store one
command further. -/
def Responded (codec : TableCodec) (commands : List TableCommand) (slot : Nat) (rv : ReturnValue) :
    Prop :=
  ∃ command, commands[slot]? = some command ∧
    applyOne codec (stored codec (commands.take slot)) (slot + 1) command =
      .ok (stored codec (commands.take (slot + 1)), rv)

theorem Responded.inside (responded : Responded codec commands slot rv) :
    slot < commands.length := by
  obtain ⟨command, found, -⟩ := responded
  exact (List.getElem?_eq_some_iff.mp found).1

theorem Responded.extend (responded : Responded codec commands slot rv)
    (more : commands <+: commands') : Responded codec commands' slot rv := by
  have inside := responded.inside
  obtain ⟨command, found, applied⟩ := responded
  refine ⟨command, getElem?_of_longer more found, ?_⟩
  rw [take_of_longer more (Nat.le_of_lt inside), take_of_longer more inside]
  exact applied

/-- Every command of the log is applied. -/
theorem exists_responded (lawful : codec.Lawful) (all : AllApply commands)
    (inside : slot < commands.length) : ∃ rv, Responded codec commands slot rv := by
  have taken : commands.take (slot + 1) = commands.take slot ++ [commands[slot]] :=
    List.take_succ_eq_append_getElem inside
  have length : (commands.take slot).length = slot := by
    rw [List.length_take]
    exact Nat.min_eq_left (Nat.le_of_lt inside)
  have starts : commands.take slot ++ [commands[slot]] <+: commands :=
    taken ▸ List.take_prefix (slot + 1) commands
  have before : AllApply (commands.take slot) :=
    fun calls other within => all calls other (within.trans (List.take_prefix slot commands))
  obtain ⟨⟨txn, rv⟩, ran⟩ :=
    (stored_outcome lawful before commands[slot]).applies_iff.mpr (all _ _ starts)
  refine ⟨rv, commands[slot], List.getElem?_eq_getElem inside, ?_⟩
  rw [taken, stored_concat, length, applyOne_eq lawful, ran]
  rfl

/-- The number of commands that a store holds is in the store. -/
theorem appliedCount_stored (lawful : codec.Lawful) (all : AllApply commands)
    (capacity : commands.length ≤ vecCapacity) :
    appliedCount (stored codec commands) = commands.length := by
  cases commands using List.reverseRecOn with
  | nil => rfl
  | append_singleton commands command =>
      obtain ⟨⟨txn, rv⟩, ran⟩ := (stored_outcome lawful all.before command).applies_iff.mpr all.last
      rw [List.length_append, List.length_singleton] at capacity ⊢
      simp only [vecCapacity] at capacity
      rw [stored_concat, applyOne_eq lawful, ran]
      unfold appliedCount persistedCursor MemoryStore.get
      dsimp only [Except.map, storeAfter, MemoryWriteTx.commit, MemoryWriteTx.put]
      rw [Std.ExtTreeMap.getElem?_insert_self]
      dsimp only
      rw [if_pos (length_toLeBytes 8 _), fromLeBytes_toLeBytes 8 _ (by omega)]
      rfl

/-- The payload of the entry is the command, encoded. -/
def Encodes (codec : TableCodec) (entry : Entry) (command : TableCommand) : Prop :=
  ∃ payload, codec.command.serialize command = .ok payload ∧ entry = .new payload

theorem Encodes.decoded {entry : Entry} {command : TableCommand} (lawful : codec.Lawful)
    (encodes : Encodes codec entry command) :
    codec.command.deserialize entry.payload = .ok command := by
  obtain ⟨payload, encoded, rfl⟩ := encodes
  obtain ⟨payload', encoded', decoded⟩ := lawful.command command
  cases encoded.symm.trans encoded'
  exact decoded

theorem Encodes.unique {entry : Entry} {command command' : TableCommand} (lawful : codec.Lawful)
    (encodes : Encodes codec entry command) (encodes' : Encodes codec entry command') :
    command = command' :=
  Except.ok.inj ((encodes.decoded lawful).symm.trans (encodes'.decoded lawful))

/-- The log holds these commands and nothing else, each entry from another call. -/
structure Logged (codec : TableCodec) (log : TrackedLoglet) (commands : List TableCommand) :
    Prop where
  held : log.loglet = .holding (log.written.map Prod.snd)
  length : log.written.length = commands.length
  capacity : commands.length ≤ vecCapacity
  encoded : ∀ {slot index : Nat} {entry : Entry}, log.written[slot]? = some (index, entry) →
    ∃ command, commands[slot]? = some command ∧ Encodes codec entry command
  keyed : ∀ command ∈ commands, command.Keyed
  once : (log.written.map Prod.fst).Nodup

/-- The store holds a prefix of the log. -/
structure Holds (codec : TableCodec) (commands : List TableCommand) (store : MemoryStore) :
    Prop where
  inside : appliedCount store ≤ commands.length
  same : store = stored codec (commands.take (appliedCount store))

theorem Logged.new (codec : TableCodec) : Logged codec .new [] where
  held := rfl
  length := rfl
  capacity := Nat.zero_le _
  encoded := fun found => by cases found
  keyed _ impossible := absurd impossible List.not_mem_nil
  once := List.nodup_nil

theorem Holds.new (codec : TableCodec) : Holds codec [] .new where
  inside := Nat.le_refl 0
  same := rfl

theorem Holds.extend (holds : Holds codec commands store) (more : commands <+: commands') :
    Holds codec commands' store where
  inside := Nat.le_trans holds.inside more.length_le
  same := by
    rw [take_of_longer more holds.inside]
    exact holds.same

/-! ### The apply loop of one replica -/

/-- What a handler knows of the request it serves. -/
def HandlerServes (codec : TableCodec) (started : Nat → Nat) (log : TrackedLoglet)
    (commands : List TableCommand) (index : Nat) (request : EngineOp) (cursor : Nat) :
    Handler → Prop
  | .propose targetPos rv => ∃ slot entry, request = .propose entry ∧ targetPos = slot + 1 ∧
      log.written[slot]? = some (index, entry) ∧
      (targetPos < cursor → Responded codec commands slot rv)
  | .sync tail => request = .sync ∧ started index < tail ∧ tail ≤ commands.length + 1

/-- Between a commit and the increment the store is ahead of the cursor. -/
def PhaseServes (codec : TableCodec) (started : Nat → Nat) (log : TrackedLoglet)
    (commands : List TableCommand) (store : MemoryStore) (index : Nat) (request : EngineOp)
    (cursor : Nat) : Phase → Prop
  | .append entry => request = .propose entry ∧ index ∉ log.written.map Prod.fst ∧
      cursor = appliedCount store + 1
  | .checkTail => request = .sync ∧ cursor = appliedCount store + 1
  | .play handler => HandlerServes codec started log commands index request cursor handler ∧
      cursor = appliedCount store + 1
  | .read handler entry => HandlerServes codec started log commands index request cursor handler ∧
      cursor = appliedCount store + 1 ∧
      (log.written.map Prod.snd)[appliedCount store]? = some entry
  | .staged handler txn rv => HandlerServes codec started log commands index request cursor handler ∧
      cursor = appliedCount store + 1 ∧ txn.commit = stored codec (commands.take cursor) ∧
      Responded codec commands (appliedCount store) rv
  | .committed handler rv => HandlerServes codec started log commands index request cursor handler ∧
      cursor = appliedCount store ∧ ∃ slot, cursor = slot + 1 ∧ Responded codec commands slot rv

/-- What is asked of the loop, and how far it has come. No request that waits to be
appended is in the log. -/
structure EngineServes (codec : TableCodec) (started : Nat → Nat) (asked : Nat → EngineOp → Prop)
    (log : TrackedLoglet) (commands : List TableCommand) (store : MemoryStore)
    (engine : BaseEngine Unit) : Prop where
  nodup : engine.unanswered.Nodup
  requests : ∀ request ∈ engine.requests, asked request.resultTx request.op ∧
    request.resultTx ∉ log.written.map Prod.fst
  idle : engine.serving = none → engine.cursor = appliedCount store + 1
  serving : ∀ index phase, engine.serving = some (index, phase) → ∃ request, asked index request ∧
    PhaseServes codec started log commands store index request engine.cursor phase

/-- What the loop may answer: the response to a command in the log, or a position once
the store has caught up with the start of the call. -/
def Answers (codec : TableCodec) (started : Nat → Nat) (log : TrackedLoglet)
    (commands : List TableCommand) (store : MemoryStore) (index : Nat) :
    EngineOp → EngineResult → Prop
  | .propose entry, result => ∃ slot rv, log.written[slot]? = some (index, entry) ∧
      Responded codec commands slot rv ∧ result = .ok (.returned rv)
  | .sync, result => ∃ pos, started index ≤ appliedCount store ∧ result = .ok (.pos pos)

/-- What one turn of the loop makes of it. -/
structure Turned (codec : TableCodec) (started : Nat → Nat) (asked : Nat → EngineOp → Prop)
    (log : TrackedLoglet) (store : MemoryStore) (engine : BaseEngine Unit)
    (commands commands' : List TableCommand) (turn : Turn Unit) : Prop where
  logged : Logged codec turn.log commands'
  holds : Holds codec commands' turn.store
  serves : EngineServes codec started asked turn.log commands' turn.store turn.engine
  later : appliedCount store ≤ appliedCount turn.store
  grown : turn.log.written = log.written ∨ ∃ index entry, asked index (.propose entry) ∧
    index ∉ log.written.map Prod.fst ∧ turn.log.written = log.written ++ [(index, entry)]
  more : commands <+: commands'
  answered : match turn.reply with
    | none => turn.engine.unanswered = engine.unanswered
    | some (index, result) => engine.unanswered = index :: turn.engine.unanswered ∧
        ∃ request, asked index request ∧
          Answers codec started turn.log commands' turn.store index request result

section Turn

variable {started : Nat → Nat} {asked : Nat → EngineOp → Prop} {log : TrackedLoglet}
  {engine : BaseEngine Unit} {index cursor : Nat} {request : EngineOp} {handler : Handler}

theorem Logged.entry (logged : Logged codec log commands) (inside : slot < commands.length) :
    ∃ index entry command, log.written[slot]? = some (index, entry) ∧
      commands[slot]? = some command ∧ Encodes codec entry command := by
  obtain ⟨⟨index, entry⟩, found⟩ : ∃ placed, log.written[slot]? = some placed :=
    ⟨_, List.getElem?_eq_getElem (by rw [logged.length]; exact inside)⟩
  obtain ⟨command, present, encodes⟩ := logged.encoded found
  exact ⟨index, entry, command, found, present, encodes⟩

theorem Logged.append (logged : Logged codec log commands) {entry : Entry} {command : TableCommand}
    (room : log.loglet.entries.length < vecCapacity) (unwritten : index ∉ log.written.map Prod.fst)
    (keyed : command.Keyed) (encodes : Encodes codec entry command) :
    Logged codec (log.call index (.append entry)).1 (commands ++ [command]) ∧
      (log.call index (.append entry)).1.written = log.written ++ [(index, entry)] := by
  have written : (log.call index (.append entry)).1.written = log.written ++ [(index, entry)] := by
    unfold TrackedLoglet.call MemoryLoglet.call
    dsimp only
    rw [logged.held, MemoryLoglet.holding_append]
    rfl
  refine ⟨⟨?_, ?_, ?_, ?_, ?_, ?_⟩, written⟩
  · rw [written, List.map_append]
    change (log.loglet.append entry).1 = _
    rw [logged.held, MemoryLoglet.holding_append]
    rfl
  · rw [written, List.length_append, List.length_append, logged.length]
    rfl
  · have held := logged.held
    rw [held] at room
    unfold MemoryLoglet.holding at room
    rw [List.length_map, List.length_map, logged.length] at room
    rw [List.length_append, List.length_singleton]
    exact room
  · intro slot owner found placed
    rw [written] at placed
    rcases getElem?_of_concat placed with earlier | ⟨rfl, same⟩
    · obtain ⟨command, present, encodes⟩ := logged.encoded earlier
      exact ⟨command, getElem?_of_longer (List.prefix_append _ _) present, encodes⟩
    · cases same
      refine ⟨command, ?_, encodes⟩
      rw [logged.length]
      exact List.getElem?_concat_length
  · intro other member
    rcases List.mem_append.mp member with earlier | last
    · exact logged.keyed other earlier
    · rw [List.mem_singleton.mp last]
      exact keyed
  · rw [written, List.map_append]
    refine List.nodup_append.mpr ⟨logged.once, List.nodup_singleton _, ?_⟩
    intro owner member other last same
    have here : owner = index := same.trans (List.mem_singleton.mp last)
    rw [← here] at unwritten
    exact unwritten member

/-- The next command of the log is applied, and its response is the right one. -/
theorem Holds.apply (lawful : codec.Lawful) (logged : Logged codec log commands)
    (holds : Holds codec commands store) {entry : Entry}
    (found : (log.written.map Prod.snd)[appliedCount store]? = some entry) :
    ∃ txn rv, TableApplicator.apply codec store.beginWriteTxn entry = .ok (txn, rv) ∧
      (txn.put cursorKey (toLeBytes 8 (appliedCount store + 2))).commit =
        stored codec (commands.take (appliedCount store + 1)) ∧
      Responded codec commands (appliedCount store) rv := by
  rw [List.getElem?_map] at found
  obtain ⟨⟨index, held⟩, placed, rfl⟩ := Option.map_eq_some_iff.mp found
  obtain ⟨command, present, payload, encoded, rfl⟩ := logged.encoded placed
  have inside := (List.getElem?_eq_some_iff.mp present).1
  obtain ⟨rv, responded⟩ := exists_responded lawful (allApply_of_keyed logged.keyed) inside
  obtain ⟨command', present', applied⟩ := responded
  have responded : Responded codec commands (appliedCount store) rv := ⟨command', present', applied⟩
  cases present.symm.trans present'
  rw [← holds.same] at applied
  unfold applyOne at applied
  rw [encoded] at applied
  dsimp only [Except.bind] at applied
  cases ran : TableApplicator.apply codec store.beginWriteTxn (.new payload) with
  | error error =>
      rw [ran] at applied
      cases applied
  | ok outcome =>
      obtain ⟨txn, rv'⟩ := outcome
      rw [ran] at applied
      obtain ⟨same, rfl⟩ := Prod.mk.inj (Except.ok.inj applied)
      exact ⟨txn, rv', rfl, same, responded⟩

theorem HandlerServes.extend {log' : TrackedLoglet}
    (serves : HandlerServes codec started log commands index request cursor handler)
    (written : log.written <+: log'.written) (more : commands <+: commands') :
    HandlerServes codec started log' commands' index request cursor handler := by
  cases handler with
  | propose targetPos rv =>
      obtain ⟨slot, entry, asks, target, placed, responded⟩ := serves
      exact ⟨slot, entry, asks, target, getElem?_of_longer written placed,
        fun past => (responded past).extend more⟩
  | sync tail =>
      obtain ⟨asks, later, bound⟩ := serves
      exact ⟨asks, later, Nat.le_trans bound (Nat.succ_le_succ more.length_le)⟩

/-- As long as the loop goes on, the log has an entry for it. -/
theorem HandlerServes.inside (logged : Logged codec log commands)
    (serves : HandlerServes codec started log commands index request (slot + 1) handler)
    (continues : handler.continues (slot + 1) = true) : slot < commands.length := by
  cases handler with
  | propose targetPos rv =>
      obtain ⟨target, entry, -, rfl, placed, -⟩ := serves
      have bound := (List.getElem?_eq_some_iff.mp placed).1
      rw [logged.length] at bound
      have goesOn : slot + 1 ≤ target + 1 := of_decide_eq_true continues
      omega
  | sync tail =>
      obtain ⟨-, -, bound⟩ := serves
      have goesOn : slot + 1 < tail := of_decide_eq_true continues
      omega

theorem HandlerServes.applied
    (serves : HandlerServes codec started log commands index request (slot + 1) handler)
    (responded : Responded codec commands slot rv) :
    HandlerServes codec started log commands index request (slot + 2)
      (handler.applied (slot + 1) rv) := by
  cases handler with
  | propose targetPos targetReturn =>
      obtain ⟨target, entry, asks, rfl, placed, known⟩ := serves
      refine ⟨target, entry, asks, rfl, placed, fun past => ?_⟩
      by_cases here : slot = target
      · subst here
        rw [if_pos rfl]
        exact responded
      · rw [if_neg (by omega)]
        exact known (by omega)
  | sync tail => exact serves

theorem HandlerServes.answers
    (serves : HandlerServes codec started log commands index request (appliedCount store + 1) handler)
    (done : handler.continues (appliedCount store + 1) = false) :
    Answers codec started log commands store index request handler.result := by
  cases handler with
  | propose targetPos rv =>
      obtain ⟨slot, entry, rfl, rfl, placed, responded⟩ := serves
      have past : ¬ appliedCount store + 1 ≤ slot + 1 := of_decide_eq_false done
      exact ⟨slot, rv, placed, responded (by omega), rfl⟩
  | sync tail =>
      obtain ⟨rfl, later, -⟩ := serves
      have past : ¬ appliedCount store + 1 < tail := of_decide_eq_false done
      exact ⟨tail, by omega, rfl⟩

/-- The loop stays with the request it serves. -/
theorem EngineServes.goOn {log' : TrackedLoglet} {store' : MemoryStore} {phase phase' : Phase}
    {cursor' : Nat} {memory : Unit}
    (serves : EngineServes codec started asked log commands store engine)
    (serving : engine.serving = some (index, phase)) (asks : asked index request)
    (unwritten : ∀ other ∈ engine.requests, other.resultTx ∉ log.written.map Prod.fst →
      other.resultTx ∉ log'.written.map Prod.fst)
    (next : PhaseServes codec started log' commands' store' index request cursor' phase') :
    EngineServes codec started asked log' commands' store'
      { engine with cursor := cursor', serving := some (index, phase'), memory := memory } where
  nodup := by
    have nodup := serves.nodup
    rw [unanswered_serving serving] at nodup
    exact nodup
  requests other member := by
    obtain ⟨asks, absent⟩ := serves.requests other member
    exact ⟨asks, unwritten other member absent⟩
  idle impossible := by cases impossible
  serving other phase same := by
    cases same
    exact ⟨request, asks, next⟩

theorem Turned.goOn {phase phase' : Phase} {cursor' : Nat} {memory : Unit}
    (logged : Logged codec log commands) (holds : Holds codec commands store)
    (serves : EngineServes codec started asked log commands store engine)
    (serving : engine.serving = some (index, phase)) (asks : asked index request)
    (next : PhaseServes codec started log commands store index request cursor' phase') :
    Turned codec started asked log store engine commands commands
      { log := log
        store := store
        engine := { engine with cursor := cursor', serving := some (index, phase'), memory := memory }
        reply := none } where
  logged := logged
  holds := holds
  serves := serves.goOn serving asks (fun _ _ absent => absent) next
  later := Nat.le_refl _
  grown := Or.inl rfl
  more := List.prefix_refl _
  answered := (unanswered_serving serving).symm

theorem Turned.answer {phase : Phase} {result : EngineResult}
    (logged : Logged codec log commands) (holds : Holds codec commands store)
    (serves : EngineServes codec started asked log commands store engine)
    (serving : engine.serving = some (index, phase)) (asks : asked index request)
    (cursor : engine.cursor = appliedCount store + 1)
    (answers : Answers codec started log commands store index request result) :
    Turned codec started asked log store engine commands commands
      { log := log
        store := store
        engine := { engine with serving := none }
        reply := some (index, result) } where
  logged := logged
  holds := holds
  serves := by
    have nodup := serves.nodup
    rw [unanswered_serving serving] at nodup
    exact ⟨(List.nodup_cons.mp nodup).2, serves.requests, fun _ => cursor,
      fun _ _ impossible => by cases impossible⟩
  later := Nat.le_refl _
  grown := Or.inl rfl
  more := List.prefix_refl _
  answered := ⟨unanswered_serving serving, request, asks, answers⟩

/-- One turn of an apply loop keeps the store at a prefix of the log, and answers only
with the response to the command asked for or in sync. -/
theorem turn_serves (lawful : codec.Lawful)
    (bound : ∀ index, started index ≤ commands.length)
    (encodes : ∀ index entry, asked index (.propose entry) →
      ∃ command, command.Keyed ∧ Encodes codec entry command)
    (logged : Logged codec log commands) (holds : Holds codec commands store)
    (serves : EngineServes codec started asked log commands store engine) {choice : Unit}
    {turn : Turn Unit} (moved : engine.turn (tableApplicator codec) choice log store = some turn) :
    ∃ commands', Turned codec started asked log store engine commands commands' turn := by
  unfold BaseEngine.turn at moved
  split at moved
  · rename_i idle
    split at moved
    · cases moved
    · rename_i request requests queued
      cases moved
      have cursor := serves.idle idle
      obtain ⟨asks, absent⟩ := serves.requests request (queued ▸ List.mem_cons_self)
      have same : engine.unanswered =
          request.resultTx :: requests.map ApplyRequest.resultTx := by
        rw [unanswered_idle idle, queued, List.map_cons]
      refine ⟨commands, logged, holds, ⟨?_, fun other member => ?_, fun impossible => ?_,
        fun other phase begun => ?_⟩, Nat.le_refl _, Or.inl rfl, List.prefix_refl _, same.symm⟩
      · have nodup := serves.nodup
        rw [same] at nodup
        exact nodup
      · exact serves.requests other (queued ▸ List.mem_cons_of_mem _ member)
      · cases impossible
      · cases begun
        refine ⟨request.op, asks, ?_⟩
        cases op : request.op with
        | propose entry => exact ⟨rfl, absent, cursor⟩
        | sync => exact ⟨rfl, cursor⟩
  · rename_i index entry serving
    obtain ⟨request, asks, rfl, absent, cursor⟩ := serves.serving _ _ serving
    split at moved
    · rename_i room
      obtain ⟨command, keyed, encoded⟩ := encodes index entry asks
      obtain ⟨logged', written⟩ := logged.append room absent keyed encoded
      have targetPos : (log.loglet.append entry).2 = .ok (commands.length + 1) := by
        rw [logged.held, MemoryLoglet.holding_append, List.length_map, logged.length]
      rw [targetPos] at moved
      cases moved
      refine ⟨commands ++ [command], logged', holds.extend (List.prefix_append _ _), ?_,
        Nat.le_refl _, Or.inr ⟨index, entry, asks, absent, written⟩, List.prefix_append _ _,
        (unanswered_serving serving).symm⟩
      refine serves.goOn serving asks (fun other member unwritten => ?_)
        ⟨⟨commands.length, entry, rfl, rfl, ?_, fun past => ?_⟩, cursor⟩
      · rw [written, List.map_append]
        exact absent_concat_serving serving serves.nodup member unwritten
      · rw [written, ← logged.length]
        exact List.getElem?_concat_length
      · have inside := holds.inside
        omega
    · cases moved
  · rename_i index serving
    obtain ⟨request, asks, rfl, cursor⟩ := serves.serving _ _ serving
    have tail : log.loglet.checkTail = .ok (commands.length + 1) := by
      unfold MemoryLoglet.checkTail
      rw [logged.held, MemoryLoglet.holding_tail, List.length_map, logged.length]
    rw [tail] at moved
    cases moved
    have behind := bound index
    exact ⟨commands, .goOn logged holds serves serving asks
      ⟨⟨rfl, by omega, Nat.le_refl _⟩, cursor⟩⟩
  · rename_i index handler serving
    obtain ⟨request, asks, handles, cursor⟩ := serves.serving _ _ serving
    split at moved
    · rename_i continues
      rw [cursor] at handles continues
      obtain ⟨owner, entry, command, placed, -, -⟩ := logged.entry (handles.inside logged continues)
      have found : (log.written.map Prod.snd)[appliedCount store]? = some entry := by
        rw [List.getElem?_map, placed]
        rfl
      rw [logged.held, cursor, MemoryLoglet.holding_read, found] at moved
      cases moved
      rw [← cursor] at handles
      exact ⟨commands, .goOn logged holds serves serving asks ⟨handles, cursor, found⟩⟩
    · rename_i done
      cases moved
      rw [cursor] at handles done
      exact ⟨commands, .answer logged holds serves serving asks cursor
        (handles.answers (Bool.eq_false_iff.mpr done))⟩
  · rename_i index handler entry serving
    obtain ⟨request, asks, handles, cursor, found⟩ := serves.serving _ _ serving
    obtain ⟨txn, rv, ran, committed, responded⟩ := holds.apply lawful logged found
    unfold tableApplicator at moved
    dsimp only at moved
    rw [ran] at moved
    cases moved
    refine ⟨commands, .goOn logged holds serves serving asks ⟨handles, cursor, ?_, responded⟩⟩
    rw [cursor]
    exact committed
  · rename_i index handler txn rv serving
    obtain ⟨request, asks, handles, cursor, committed, responded⟩ := serves.serving _ _ serving
    cases moved
    have inside := responded.inside
    have applied : appliedCount txn.commit = engine.cursor := by
      rw [committed, appliedCount_stored lawful, List.length_take]
      · omega
      · exact allApply_of_keyed fun other member => logged.keyed other (List.mem_of_mem_take member)
      · rw [List.length_take]
        exact Nat.le_trans (Nat.min_le_right _ _) logged.capacity
    refine ⟨commands, logged, ⟨?_, ?_⟩, serves.goOn serving asks (fun _ _ absent => absent)
      ⟨handles, applied.symm, _, cursor, responded⟩, ?_, Or.inl rfl, List.prefix_refl _,
      (unanswered_serving serving).symm⟩
    · rw [applied]
      omega
    · rw [applied]
      exact committed
    · rw [applied]
      omega
  · rename_i index handler rv serving
    obtain ⟨request, asks, handles, cursor, slot, past, responded⟩ := serves.serving _ _ serving
    cases moved
    rw [past] at handles
    refine ⟨commands, .goOn logged holds serves serving asks ⟨?_, by rw [← cursor]⟩⟩
    rw [past]
    exact handles.applied responded

theorem EngineServes.asked_of_mem
    (serves : EngineServes codec started asked log commands store engine)
    (member : index ∈ engine.unanswered) : ∃ request, asked index request := by
  cases serving : engine.serving with
  | none =>
      rw [unanswered_idle serving] at member
      obtain ⟨request, waits, rfl⟩ := List.mem_map.mp member
      exact ⟨_, (serves.requests request waits).1⟩
  | some current =>
      rw [unanswered_serving serving] at member
      rcases List.mem_cons.mp member with rfl | queued
      · obtain ⟨request, asks, -⟩ := serves.serving _ _ serving
        exact ⟨request, asks⟩
      · obtain ⟨request, waits, rfl⟩ := List.mem_map.mp queued
        exact ⟨_, (serves.requests request waits).1⟩

/-- Only what is asked of the loop matters to it. -/
theorem EngineServes.imp {asked' : Nat → EngineOp → Prop}
    (serves : EngineServes codec started asked log commands store engine)
    (still : ∀ index ∈ engine.unanswered, ∀ request, asked index request → asked' index request) :
    EngineServes codec started asked' log commands store engine where
  nodup := serves.nodup
  requests request queued := by
    obtain ⟨asks, absent⟩ := serves.requests request queued
    refine ⟨still _ ?_ _ asks, absent⟩
    exact List.mem_append_right _ (List.mem_map_of_mem queued)
  idle := serves.idle
  serving index phase current := by
    obtain ⟨request, asks, holds⟩ := serves.serving index phase current
    refine ⟨request, still _ ?_ _ asks, holds⟩
    rw [unanswered_serving current]
    exact List.mem_cons_self

theorem EngineServes.enqueue (serves : EngineServes codec started asked log commands store engine)
    (fresh : index ∉ engine.unanswered) (asks : asked index request)
    (unwritten : index ∉ log.written.map Prod.fst) :
    EngineServes codec started asked log commands store
      { engine with requests := engine.requests ++ [⟨request, index⟩] } where
  nodup := by
    rw [unanswered_enqueue]
    refine List.nodup_append.mpr ⟨serves.nodup, List.nodup_singleton _, ?_⟩
    intro other member last single same
    rw [same, List.mem_singleton.mp single] at member
    exact fresh member
  requests other member := by
    rcases List.mem_append.mp member with earlier | last
    · exact serves.requests other earlier
    · rw [List.mem_singleton.mp last]
      exact ⟨asks, unwritten⟩
  idle := serves.idle
  serving := serves.serving

/-- A log that grows by the requests of others. -/
theorem EngineServes.extend {log' : TrackedLoglet}
    (serves : EngineServes codec started asked log commands store engine)
    (written : log.written <+: log'.written) (more : commands <+: commands')
    (unwritten : ∀ index request, asked index request → index ∉ log.written.map Prod.fst →
      index ∉ log'.written.map Prod.fst) :
    EngineServes codec started asked log' commands' store engine where
  nodup := serves.nodup
  requests request queued := by
    obtain ⟨asks, absent⟩ := serves.requests request queued
    exact ⟨asks, unwritten _ _ asks absent⟩
  idle := serves.idle
  serving index phase current := by
    obtain ⟨request, asks, holds⟩ := serves.serving index phase current
    refine ⟨request, asks, ?_⟩
    cases phase with
    | append entry => exact ⟨holds.1, unwritten _ _ asks holds.2.1, holds.2.2⟩
    | checkTail => exact holds
    | play handler => exact ⟨holds.1.extend written more, holds.2⟩
    | read handler entry =>
        obtain ⟨handles, cursor, found⟩ := holds
        refine ⟨handles.extend written more, cursor, ?_⟩
        obtain ⟨rest, same⟩ := written
        rw [← same, List.map_append]
        exact getElem?_of_longer (List.prefix_append _ _) found
    | staged handler txn rv =>
        obtain ⟨handles, cursor, committed, responded⟩ := holds
        refine ⟨handles.extend written more, cursor, ?_, responded.extend more⟩
        have next := responded.inside
        rw [take_of_longer more (by omega)]
        exact committed
    | committed handler rv =>
        obtain ⟨handles, cursor, slot, past, responded⟩ := holds
        exact ⟨handles.extend written more, cursor, slot, past, responded.extend more⟩

/-- Of the starting points of the calls only those of the calls asked for matter. -/
theorem EngineServes.restart {started' : Nat → Nat}
    (serves : EngineServes codec started asked log commands store engine)
    (same : ∀ index request, asked index request → started' index = started index) :
    EngineServes codec started' asked log commands store engine where
  nodup := serves.nodup
  requests := serves.requests
  idle := serves.idle
  serving index phase current := by
    obtain ⟨request, asks, holds⟩ := serves.serving index phase current
    have restart : ∀ handler, HandlerServes codec started log commands index request engine.cursor
        handler → HandlerServes codec started' log commands index request engine.cursor handler := by
      intro handler handles
      cases handler with
      | propose => exact handles
      | sync tail => exact ⟨handles.1, same index request asks ▸ handles.2.1, handles.2.2⟩
    refine ⟨request, asks, ?_⟩
    cases phase with
    | append | checkTail => exact holds
    | play | read | staged | committed => exact ⟨restart _ holds.1, holds.2⟩

theorem Answers.restart {started' : Nat → Nat} {result : EngineResult}
    (answers : Answers codec started log commands store index request result)
    (same : started' index = started index) :
    Answers codec started' log commands store index request result := by
  cases request with
  | propose => exact answers
  | sync =>
      obtain ⟨pos, later, returned⟩ := answers
      exact ⟨pos, same ▸ later, returned⟩

/-! ### Progress -/

/-- How many turns the loop has left, if nothing else is asked of it. Applying an
entry takes four. -/
def phaseRank (length cursor : Nat) : Phase → Nat
  | .append _ => 4 * (length + 1 - cursor) + 6
  | .checkTail => 4 * (length + 1 - cursor) + 2
  | .play _ => 4 * (length + 1 - cursor) + 1
  | .read _ _ => 4 * (length - cursor) + 4
  | .staged _ _ _ => 4 * (length - cursor) + 3
  | .committed _ _ => 4 * (length - cursor) + 2

def requestRank (request : ApplyRequest) : Nat :=
  match request.op with
  | .propose _ => 7
  | .sync => 3

def requestsRank : List ApplyRequest → Nat
  | [] => 0
  | request :: requests => requestRank request + requestsRank requests

theorem requestsRank_concat (requests : List ApplyRequest) (request : ApplyRequest) :
    requestsRank (requests ++ [request]) = requestsRank requests + requestRank request := by
  induction requests with
  | nil => exact Nat.add_comm _ _
  | cons first requests ih =>
      rw [List.cons_append, requestsRank, ih, requestsRank, Nat.add_assoc]

def engineRank (length : Nat) (engine : BaseEngine Unit) : Nat :=
  requestsRank engine.requests + engine.serving.elim (4 * (length + 1 - engine.cursor))
    fun current => phaseRank length engine.cursor current.2

theorem engineRank_idle {length : Nat} (idle : engine.serving = none) :
    engineRank length engine =
      requestsRank engine.requests + 4 * (length + 1 - engine.cursor) := by
  unfold engineRank
  rw [idle]
  rfl

theorem engineRank_serving {length : Nat} {phase : Phase}
    (serving : engine.serving = some (index, phase)) : engineRank length engine =
      requestsRank engine.requests + phaseRank length engine.cursor phase := by
  unfold engineRank
  rw [serving]
  rfl

theorem engineRank_enqueue (length : Nat) (request : ApplyRequest) :
    engineRank length { engine with requests := engine.requests ++ [request] } ≤
      engineRank length engine + 7 := by
  have bound : requestRank request ≤ 7 := by
    unfold requestRank
    split <;> omega
  unfold engineRank
  dsimp only
  rw [requestsRank_concat]
  omega

/-- As long as something is asked of the loop and an append finds room, the loop has a
turn to take, and fewer are left after it. -/
theorem turn_rank (lawful : codec.Lawful) (logged : Logged codec log commands)
    (holds : Holds codec commands store)
    (serves : EngineServes codec started asked log commands store engine)
    (busy : index ∈ engine.unanswered)
    (room : ∀ asker, asker ∉ log.written.map Prod.fst → asker ∈ engine.unanswered →
      log.loglet.entries.length < vecCapacity) (choice : Unit) :
    ∃ turn, engine.turn (tableApplicator codec) choice log store = some turn ∧
      engineRank turn.log.written.length turn.engine < engineRank log.written.length engine := by
  have length := logged.length
  unfold BaseEngine.turn
  cases serving : engine.serving with
  | none =>
      have cursor := serves.idle serving
      rw [unanswered_idle serving] at busy
      cases queued : engine.requests with
      | nil =>
          rw [queued] at busy
          cases busy
      | cons request requests =>
          refine ⟨_, rfl, ?_⟩
          rw [engineRank_idle serving, engineRank_serving rfl, queued, requestsRank]
          unfold requestRank
          cases request.op with
          | propose entry =>
              dsimp only [Phase.start, phaseRank]
              omega
          | sync =>
              dsimp only [Phase.start, phaseRank]
              omega
  | some current =>
      obtain ⟨asker, phase⟩ := current
      obtain ⟨request, asks, holds'⟩ := serves.serving asker phase serving
      rw [engineRank_serving serving]
      have mentioned : asker ∈ engine.unanswered := by
        rw [unanswered_serving serving]
        exact List.mem_cons_self
      cases phase with
      | append entry =>
          obtain ⟨rfl, absent, cursor⟩ := holds'
          have behind := holds.inside
          have target : (log.loglet.append entry).2 = .ok (commands.length + 1) := by
            rw [logged.held, MemoryLoglet.holding_append, List.length_map, length]
          have written : (log.call asker (.append entry)).1.written.length = commands.length + 1 := by
            unfold TrackedLoglet.call MemoryLoglet.call
            dsimp only
            rw [logged.held, MemoryLoglet.holding_append]
            exact (List.length_append).trans (congrArg (· + 1) length)
          dsimp only
          rw [if_pos (room asker absent mentioned), target]
          refine ⟨_, rfl, ?_⟩
          dsimp only
          rw [engineRank_serving rfl, written]
          dsimp only [phaseRank]
          omega
      | checkTail =>
          refine ⟨_, rfl, ?_⟩
          dsimp only
          rw [engineRank_serving rfl]
          dsimp only [phaseRank]
          omega
      | play handler =>
          obtain ⟨handles, cursor⟩ := holds'
          dsimp only
          cases continues : handler.continues engine.cursor with
          | true =>
              rw [cursor] at handles continues
              have inside := handles.inside logged continues
              obtain ⟨owner, entry, command, placed, -, -⟩ := logged.entry inside
              have found : (log.written.map Prod.snd)[appliedCount store]? = some entry := by
                rw [List.getElem?_map, placed]
                rfl
              rw [if_pos rfl, logged.held, cursor, MemoryLoglet.holding_read, found]
              refine ⟨_, rfl, ?_⟩
              dsimp only
              rw [engineRank_serving rfl]
              dsimp only [phaseRank]
              omega
          | false =>
              rw [if_neg Bool.false_ne_true]
              refine ⟨_, rfl, ?_⟩
              dsimp only
              rw [engineRank_idle rfl]
              dsimp only [phaseRank]
              omega
      | read handler entry =>
          obtain ⟨handles, cursor, found⟩ := holds'
          obtain ⟨txn, rv, ran, -, -⟩ := holds.apply lawful logged found
          unfold tableApplicator
          dsimp only
          rw [ran]
          refine ⟨_, rfl, ?_⟩
          dsimp only
          rw [engineRank_serving rfl]
          dsimp only [phaseRank]
          omega
      | staged handler txn rv =>
          refine ⟨_, rfl, ?_⟩
          dsimp only
          rw [engineRank_serving rfl]
          dsimp only [phaseRank]
          omega
      | committed handler rv =>
          refine ⟨_, rfl, ?_⟩
          dsimp only
          rw [engineRank_serving rfl]
          dsimp only [phaseRank]
          omega

end Turn

end TableReplicas

end Relos
