import Relos.Engine.VirtualLogServers
import Relos.Table.Refinement

set_option autoImplicit false

/-! The table store on servers over virtual logs: the stores are the tables after the commands
that they have applied, and a write is answered as the tables answer it at its position. -/

namespace Relos

open Async Serial Replay BaseEngine DelosTable TableApplicator

variable {codec : TableCodec}

/-- What is committed for an entry. -/
def tableCommits (codec : TableCodec) : StateMachine Entry StoreData ReturnValue where
  initial := ∅
  step data entry pos := match TableApplicator.apply codec { working := data } entry with
    | .ok (txn, rv) => some ((txn.put cursorKey (toLeBytes 8 (pos + 1))).working, rv)
    | .error _ => none

theorem table_determines : (tableApplicator codec).Determines (tableCommits codec) where
  empty := rfl
  step := by
    intro choice memory data entry pos memory' txn rv ran
    obtain ⟨-, applied⟩ := Prod.mk.inj ran
    unfold tableCommits
    dsimp only
    rw [applied]

/-- These entries carry these commands, and all of them are plain. -/
structure Carry (codec : TableCodec) (entries : List Entry) (commands : List TableCommand) : Prop where
  decoded : (entries.map fun entry => codec.command.deserialize entry.payload) = commands.map .ok
  plain : ∀ command ∈ commands, Plain command

theorem Carry.concat {entries : List Entry} {entry : Entry} {commands : List TableCommand}
    (carry : Carry codec (entries ++ [entry]) commands) :
    ∃ earlier command, commands = earlier ++ [command] ∧ Carry codec entries earlier ∧
      codec.command.deserialize entry.payload = .ok command ∧ Plain command := by
  obtain ⟨decoded, plain⟩ := carry
  rw [List.map_append] at decoded
  rcases commands.eq_nil_or_concat with rfl | ⟨earlier, command, same⟩
  · exact absurd decoded (List.append_ne_nil_of_right_ne_nil _ (List.cons_ne_nil _ _))
  · rw [List.concat_eq_append] at same
    subst same
    rw [List.map_append] at decoded
    obtain ⟨before, last⟩ := List.append_inj' decoded rfl
    exact ⟨earlier, command, rfl,
      ⟨before, fun command member => plain command (List.mem_append_left _ member)⟩,
      (List.cons.inj last).1, plain command (List.mem_append_right _ List.mem_cons_self)⟩

/-- A command is applied as the tables step, and its entry beside the cursor. -/
theorem tableCommits_step (lawful : codec.Lawful) {tables : Tables} {data : StoreData} {entry : Entry}
    {command : TableCommand} (represents : Represents codec tables data) (plain : Plain command)
    (decoded : codec.command.deserialize entry.payload = .ok command) (pos : Nat) :
    ∃ txn rv, TableApplicator.apply codec { working := data } entry = .ok (txn, rv) ∧
      checkResponse codec rv = answer (Tables.step codec.value tables command).2 ∧
      Represents codec (Tables.step codec.value tables command).1
        (txn.put cursorKey (toLeBytes 8 (pos + 1))).working := by
  have begun : Represents codec tables ({ working := data } : MemoryWriteTx).working := represents
  obtain ⟨txn, ⟨bytes, ran, response⟩, next, -⟩ := begun.step lawful plain
  refine ⟨txn, .data bytes, ?_, ?_, next.congr fun key other => getElem?_insert_of_ne other⟩
  · unfold TableApplicator.apply
    rw [decoded]
    exact ran
  · unfold checkResponse
    dsimp only
    rw [response]
    cases (Tables.step codec.value tables command).2 <;> rfl

/-- A store that replays plain commands is the tables after them. -/
theorem represents_replay (lawful : codec.Lawful) {entries : List Entry} {commands : List TableCommand}
    {data : StoreData} (replayed : (tableCommits codec).replay logPosBegin entries = some data)
    (carry : Carry codec entries commands) :
    Represents codec (Tables.after codec.value commands) data := by
  induction entries using List.reverseRecOn generalizing commands data with
  | nil =>
      cases List.map_eq_nil_iff.mp carry.decoded.symm
      cases replayed
      exact .empty
  | append_singleton entries entry ih =>
      obtain ⟨earlier, command, rfl, before, decoded, plain⟩ := carry.concat
      rw [StateMachine.replay_concat] at replayed
      obtain ⟨data', replayed', stepped⟩ := Option.bind_eq_some_iff.mp replayed
      obtain ⟨txn, rv, ran, -, represents⟩ := tableCommits_step lawful (ih replayed' before) plain decoded
        (logPosBegin + entries.length)
      unfold tableCommits at stepped
      dsimp only at stepped
      rw [ran] at stepped
      cases stepped
      rw [Tables.after_concat]
      exact represents

/-- The value of a plain command is the response of the tables. -/
theorem returns_answer (lawful : codec.Lawful) {entries : List Entry} {entry : Entry}
    {commands : List TableCommand} {command : TableCommand} {rv : ReturnValue}
    (returns : (tableApplicator codec).Returns (tableCommits codec) entries entry rv)
    (carry : Carry codec (entries ++ [entry]) (commands ++ [command])) :
    checkResponse codec rv =
      answer (Tables.step codec.value (Tables.after codec.value commands) command).2 := by
  obtain ⟨earlier, last, same, before, decoded, plain⟩ := carry.concat
  obtain ⟨sameCommands, sameLast⟩ := List.append_inj' same rfl
  cases sameCommands
  cases sameLast
  obtain ⟨data, choice, memory, memory', txn, replayed, applied⟩ := returns
  obtain ⟨txn', rv', ran, answered, -⟩ :=
    tableCommits_step lawful (represents_replay lawful replayed before)
      plain decoded 0
  obtain ⟨-, applied⟩ := Prod.mk.inj applied
  cases ran.symm.trans applied
  exact answered

namespace Servers

variable {Node Shared Op Fut Event : Type}

/-- What the tables of the servers hold and what writes return at their own positions, as long as
the entries that a store has applied carry plain commands. -/
structure ServesTables (codec : TableCodec) (served : ServedLog Node Shared Op Fut Event)
    (system : System (Servers Node Unit Shared Op Fut) (Node × EngineOp) Future EngineResult)
    (applied : Node → List Entry) : Prop where
  get : ∀ node commands, Carry codec (applied node) commands → ∀ table key,
    readRow codec (system.shared.stores node) table key =
      .ok ((Tables.after codec.value commands).find codec.value table key)
  scan : ∀ node commands, Carry codec (applied node) commands → ∀ table,
    ∃ rows, readRows codec (system.shared.stores node) table = .ok rows ∧
      rows.Perm ((Tables.after codec.value commands).rows table)
  write : ∀ index node entry value,
    system.Returned index (node, .propose entry) (.ok (.returned value)) →
    ∃ pos, ReturnsOwn served (tableApplicator codec) (tableCommits codec) system.shared applied
        index node entry value pos ∧
      ∀ other, pos ≤ (applied other).length → ∀ commands command,
        Carry codec ((applied other).take pos) (commands ++ [command]) →
        codec.command.deserialize entry.payload = .ok command ∧
        checkResponse codec value =
          answer (Tables.step codec.value (Tables.after codec.value commands) command).2

theorem servesTables (lawful : codec.Lawful) {served : ServedLog Node Shared Op Fut Event}
    {system : System (Servers Node Unit Shared Op Fut) (Node × EngineOp) Future EngineResult}
    {applied : Node → List Entry}
    (replicated : Replicated served (tableCommits codec) system.shared applied)
    (answered : Answered served (tableApplicator codec) (tableCommits codec) system applied) :
    ServesTables codec served system applied where
  get node commands carry table key :=
    (represents_replay lawful (replicated.store node) carry).get table key
  scan node commands carry table :=
    (represents_replay lawful (replicated.store node) carry).scan lawful table
  write index node entry value returned := by
    obtain ⟨pos, own⟩ := answered.own index node entry value returned
    have first := own.committed.1
    refine ⟨pos, own, fun other past commands command carry => ?_⟩
    obtain ⟨found, returns⟩ := own.everywhere other past
    have split : (applied other).take pos = (applied other).take (pos - logPosBegin) ++ [entry] := by
      obtain ⟨here, same⟩ := List.getElem?_eq_some_iff.mp found
      rw [← same, ← List.take_succ_eq_append_getElem here]
      exact congrArg (fun count => (applied other).take count) (Nat.sub_add_cancel first).symm
    rw [split] at carry
    obtain ⟨earlier, last, same, -, decoded, -⟩ := carry.concat
    obtain ⟨-, sameLast⟩ := List.append_inj' same rfl
    cases sameLast
    exact ⟨decoded, returns_answer lawful returns carry⟩

/-- The whole stack of tables, engines, virtual logs, sequencers and log servers. -/
theorem nativeLog_serves_tables {n : Nat} {initial : String} [DecidableEq Node] (lawful : codec.Lawful)
    {system : OverLogs Node Unit (NativeLoglet n) NativeLoglet.Future}
    (run : (nativeServers n Replicas.direct (tableApplicator codec)).machine.Run
      (LogsApart (nativeOwnedOutline n)) (.fresh (.new (.new initial (.new n)))) system)
    (few : system.shared.log.calls.length + 1 < 2 ^ 64) :
    ∃ applied, Replicated (nativeLog Node n) (tableCommits codec) system.shared applied ∧
      Answered (nativeLog Node n) (tableApplicator codec) (tableCommits codec) system applied ∧
      ServesTables codec (nativeLog Node n) system applied := by
  obtain ⟨heard, counts, knows⟩ := knows_overLogs (nativeOwnership n)
    (Replicas.gives_of_determines table_determines) ⟨.new True n, .new n⟩ (NativeLogs.settled_new .any)
    (fun index => NativeLoglet.writes_new index .checkTail) run few
  have replicated := knows.storesAgree few
  exact ⟨_, replicated, knows.answered, servesTables lawful replicated knows.answered⟩

/-- The entry that a command is proposed in. -/
def commandEntry (command : TableCommand) : Entry :=
  .new ((TableCodec.standard.command.serialize command).toOption.getD [])

def users : TableCommand := .createTable ⟨"users", [⟨"id", .int64, false⟩], ["id"]⟩

/-- What the first two calls make of what they are told. -/
def checked (system : OverLogs Bool Unit (NativeLoglet 3) NativeLoglet.Future) :
    List (Option (Result Unit)) :=
  system.calls.map fun call => match call.progress with
    | .finished (.ok (.returned value)) => some (checkResponse .standard value)
    | .finished (.ok (.pos _)) | .finished (.error _) | .running _ => none

/-- The other server creates the same table behind a seal, and is told so. -/
theorem nativeLog_serves_tables_twice :
    ∃ system : OverLogs Bool Unit (NativeLoglet 3) NativeLoglet.Future,
      checked system = [some (.ok ()),
        some (.error (.invalidOperation "table 'users' already exists"))] ∧
      ∃ applied, Replicated (nativeLog Bool 3) (tableCommits .standard) system.shared applied ∧
        Answered (nativeLog Bool 3) (tableApplicator .standard) (tableCommits .standard) system
          applied ∧
        ServesTables .standard (nativeLog Bool 3) system applied := by
  obtain ⟨system, run, seen⟩ := Machine.exists_run_of_execute
    (nativeServers 3 Replicas.direct (tableApplicator .standard)).machine
    (LogsApart (nativeOwnedOutline 3)) (.fresh (.new (.new "native-0" (.new 3))))
    (sealedQuorums () (commandEntry users) (commandEntry users))
    (fun system => (checked system, system.shared.log.calls.length))
    ([some (.ok ()), some (.error (.invalidOperation "table 'users' already exists"))], 6)
    (by decide +kernel)
  obtain ⟨answers, length⟩ := Prod.mk.inj seen
  exact ⟨system, answers, nativeLog_serves_tables TableCodec.standard_lawful run
    (by rw [length]; decide)⟩

end Servers

end Relos
