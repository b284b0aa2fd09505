import Relos.Server.GrpcService
import Relos.Table.Linearizability

set_option autoImplicit false

/-! The service answers from the tables: one order of the writes, given by the log, explains
every reply over the wire and respects real time. -/

namespace Relos

open Async BaseEngine DelosTable TableApplicator Wrapper

/-! ### Handlers -/

namespace Rpc

variable {Node : Type} {rpc : Rpc Node} {op : TableOp Node}

theorem named_ok {table : String} {call : Except Status (TableOp Node)}
    (passed : RelosTableService.named table call = .ok op) : call = .ok op := by
  unfold RelosTableService.named at passed
  split at passed
  · cases passed
  · exact passed

theorem createTable_call {node : Node} {schema : Option Proto.TableSchema}
    (asks : (RelosTableService.createTable node schema).call = .ok op) :
    ∃ relosSchema, op = .write node (.createTable relosSchema) := by
  cases schema with
  | none => cases asks
  | some schema =>
      unfold RelosTableService.createTable at asks
      dsimp only at asks
      cases converted : protoSchemaToRelos schema with
      | error status =>
          rw [converted] at asks
          cases asks
      | ok found =>
          rw [converted] at asks
          cases asks
          exact ⟨found, rfl⟩

theorem respond_write {node : Node} {command : TableCommand}
    (asks : rpc.call = .ok (.write node command)) : ∃ response, rpc.respond .unit = some response := by
  obtain ⟨server, request⟩ := rpc
  cases request with
  | createTable | dropTable | put | delete => exact ⟨_, rfl⟩
  | get | scan => cases named_ok asks

theorem respond_get {node : Node} {table : String} {key : List Value}
    (asks : rpc.call = .ok (.get node table key)) (row : Option Row) :
    rpc.respond (.row row) = some (.get row.isSome (row.map relosRowToProto)) := by
  obtain ⟨server, request⟩ := rpc
  cases request with
  | createTable schema =>
      obtain ⟨_, impossible⟩ := createTable_call asks
      cases impossible
  | put table row => cases row <;> cases named_ok asks
  | dropTable | delete | scan => cases named_ok asks
  | get => cases row <;> rfl

theorem respond_scan {node : Node} {table : String} (asks : rpc.call = .ok (.scan node table))
    (rows : List Row) : rpc.respond (.rows rows) = some (.scan (rows.map relosRowToProto)) := by
  obtain ⟨server, request⟩ := rpc
  cases request with
  | createTable schema =>
      obtain ⟨_, impossible⟩ := createTable_call asks
      cases impossible
  | put table row => cases row <;> cases named_ok asks
  | dropTable | delete | get => cases named_ok asks
  | scan => rfl

variable (rpc) in
/-- The reply to a write, from the response to its command. -/
def acknowledged : TableResponse → Option RpcReply
  | .ok => (rpc.respond .unit).map .ok
  | .error message => some (.error (.invalidArgument message))

theorem reply_ok {value : TableValue} {response : Proto.Response}
    (responds : rpc.respond value = some response) : rpc.reply (.ok value) = some (.ok response) := by
  unfold Rpc.reply
  dsimp only
  rw [responds, Option.map_some]

theorem prepare_ok (asks : rpc.call = .ok op) : (relosTable Node).prepare rpc = .ok op := by
  unfold relosTable
  dsimp only
  rw [asks]
  rfl

theorem prepare_error {status : Status} (refused : rpc.call = .error status) :
    (relosTable Node).prepare rpc = .error (.error status) := by
  unfold relosTable
  dsimp only
  rw [refused]
  rfl

theorem call_of_prepare (prepared : (relosTable Node).prepare rpc = .ok op) : rpc.call = .ok op := by
  cases asks : rpc.call with
  | ok op' =>
      cases (prepare_ok asks).symm.trans prepared
      rfl
  | error status => cases (prepare_error asks).symm.trans prepared

/-- What stands below a request that is turned down. -/
def idle (rpc : Rpc Node) : TableOp Node := .scan rpc.node ""

end Rpc

/-! ### Requests and calls of the table -/

namespace ServiceSystem

variable {Node : Type}

/-- `commands` is the content of the log. The entries come from different requests, each
from a write that was let through. -/
structure Ordered (codec : TableCodec) (commands : List TableCommand) (system : ServiceSystem Node) :
    Prop where
  held : system.shared.replicas.log.loglet.entries = system.written.map fun placed => some placed.2
  decoded : (system.written.map fun placed => codec.command.deserialize placed.2.payload) =
    commands.map .ok
  once : (system.written.map Prod.fst).Nodup
  issued : ∀ (slot index : Nat) (entry : Entry), system.written[slot]? = some (index, entry) →
    ∃ (rpc : Rpc Node) (node : Node) (command : TableCommand)
      (progress : Progress (Wrapped (TableOp Node) TableReplicas.Future) RpcReply),
      system.calls[index]? = some ⟨rpc, progress⟩ ∧ rpc.call = .ok (.write node command) ∧
      commands[slot]? = some command

/-- Every request that is let through is answered from the tables after a prefix of the log:
a write by the response to its own command, a read by what the tables hold. -/
structure Answered (codec : TableCodec) (commands : List TableCommand) (system : ServiceSystem Node) :
    Prop where
  refused : ∀ index rpc reply status, system.Returned index rpc reply → rpc.call = .error status →
    reply = .error status ∧ index ∉ system.written.map Prod.fst
  write : ∀ index rpc reply node command, system.Returned index rpc reply →
    rpc.call = .ok (.write node command) →
    ∃ slot entry, system.written[slot]? = some (index, entry) ∧ commands[slot]? = some command ∧
      rpc.acknowledged (Tables.step codec.value
        (Tables.after codec.value (commands.take slot)) command).2 = some reply
  get : ∀ index rpc reply node table key, system.Returned index rpc reply →
    rpc.call = .ok (.get node table key) →
    ∃ count row, system.shared.observed index = some count ∧ count ≤ commands.length ∧
      (Tables.after codec.value (commands.take count)).find codec.value table key = row ∧
      reply = .ok (.get row.isSome (row.map relosRowToProto))
  scan : ∀ index rpc reply node table, system.Returned index rpc reply →
    rpc.call = .ok (.scan node table) →
    ∃ (count : Nat) (rows : List Row), system.shared.observed index = some count ∧ count ≤ commands.length ∧
      rows.Perm ((Tables.after codec.value (commands.take count)).rows table) ∧
      reply = .ok (.scan (rows.map relosRowToProto))

/-- A request that arrives once another has been answered sees all that the other has seen,
and a write comes after it. -/
def InRealTime (earlier later : ServiceSystem Node) : Prop :=
  ∀ before rpc op reply index rpc' op' reply', earlier.Returned before rpc reply →
    rpc.call = .ok op → earlier.calls.length ≤ index → later.Returned index rpc' reply' →
    rpc'.call = .ok op' →
    ∃ seen seen', later.Seen before seen op ∧ later.Seen index seen' op' ∧ seen ≤ seen' ∧
      (op'.IsWrite → seen < seen')

variable {codec : TableCodec} {commands : List TableCommand} {system earlier later : ServiceSystem Node}
  {inner : TableSystem Node} {index : Nat} {rpc : Rpc Node} {op : TableOp Node} {reply : RpcReply}
  {result : TableResult}

theorem Seen.of_table (same : inner.shared = system.shared) {count : Nat}
    (seen : inner.Seen index count op) : system.Seen index count op := by
  obtain ⟨shared, calls⟩ := system
  obtain ⟨shared', calls'⟩ := inner
  cases same
  cases op <;> exact seen

/-- Where every request is plain, so is the log. -/
theorem Ordered.plain (ordered : system.Ordered codec commands)
    (asked : ∀ (index : Nat) call, system.calls[index]? = some call → call.op.Plain) :
    ∀ command ∈ commands, Plain command := by
  intro command member
  obtain ⟨slot, present⟩ := List.getElem?_of_mem member
  have length : system.written.length = commands.length := by
    have lengths := congrArg List.length ordered.decoded
    rw [List.length_map, List.length_map] at lengths
    exact lengths
  have inside : slot < system.written.length := length ▸ (List.getElem?_eq_some_iff.mp present).1
  obtain ⟨rpc, node, command', progress, found, asks, present'⟩ :=
    ordered.issued slot _ _ (List.getElem?_eq_getElem inside)
  cases present.symm.trans present'
  exact asked _ _ found _ (by rw [asks]; rfl)

variable (rpc) in
/-- A plain command is answered as the tables answer it. -/
theorem replied (lawful : codec.Lawful) {tables : Tables} {store store' : MemoryStore} {pos : Nat}
    {command : TableCommand} {rv : ReturnValue} (represents : Represents codec tables store.data)
    (plain : Plain command) (applied : applyOne codec store pos command = .ok (store', rv)) :
    rpc.reply (TableOp.respond codec rv) = rpc.acknowledged (Tables.step codec.value tables command).2 := by
  obtain ⟨txn, ⟨bytes, ran, decoded⟩, -, -⟩ := represents.next lawful plain
  rw [applyOne_eq lawful, ran] at applied
  cases applied
  unfold TableOp.respond checkResponse
  dsimp only
  rw [decoded]
  cases (Tables.step codec.value tables command).2 with
  | ok => rfl
  | error message => rfl

/-- A call of the table returns what its handler has a response for. -/
theorem exists_reply {started : Nat → Nat} (inv : TableSystem.Inv codec started commands inner)
    (returned : inner.Returned index op result) (asks : rpc.call = .ok op) :
    ∃ reply, rpc.reply result = some reply := by
  have finished : TableSystem.FinishedOk codec started commands inner.shared index op result :=
    inv.calls index op _ returned
  cases result with
  | error error => exact ⟨_, rfl⟩
  | ok value =>
      cases op with
      | write node command =>
          obtain ⟨_, _, rv, -, -, -, responds⟩ := finished
          obtain ⟨response, acknowledges⟩ := Rpc.respond_write asks
          unfold TableOp.respond at responds
          cases checked : checkResponse codec rv with
          | error error =>
              rw [checked] at responds
              cases responds
          | ok _ =>
              rw [checked] at responds
              cases responds
              exact ⟨_, Rpc.reply_ok acknowledges⟩
      | get node table key =>
          obtain ⟨count, -, -, -, found⟩ := finished
          unfold TableOp.answer at found
          dsimp only at found
          cases read : readRow codec (stored codec (commands.take count)) table key with
          | error error =>
              rw [read] at found
              cases found
          | ok row =>
              rw [read] at found
              cases found
              exact ⟨_, Rpc.reply_ok (Rpc.respond_get asks row)⟩
      | scan node table =>
          obtain ⟨count, -, -, -, found⟩ := finished
          unfold TableOp.answer at found
          dsimp only at found
          cases read : readRows codec (stored codec (commands.take count)) table with
          | error error =>
              rw [read] at found
              cases found
          | ok rows =>
              rw [read] at found
              cases found
              exact ⟨_, Rpc.reply_ok (Rpc.respond_scan asks rows)⟩

theorem permitted_lower {action : ServiceAction Node} (permitted : system.Undisturbed action) :
    inner.Undisturbed ((relosTable Node).lower Rpc.idle action) := by
  cases action with
  | start rpc =>
      change inner.Undisturbed (.start ((relosTable Node).below Rpc.idle rpc))
      cases asks : rpc.call with
      | error status =>
          rw [below_error (Rpc.prepare_error asks)]
          trivial
      | ok op =>
          rw [below_ok (Rpc.prepare_ok asks)]
          have plain : op.Plain := permitted op (by rw [asks]; rfl)
          cases op with
          | write node command =>
              cases command with
              | createTable schema => exact TableApplicator.Plain.listed plain schema rfl
              | dropTable | put | delete => trivial
          | get | scan => trivial
  | poll => trivial
  | background event => cases event <;> exact permitted

section Mirrored

variable [DecidableEq Node]

abbrev Mirrored (codec : TableCodec) (system : ServiceSystem Node) (inner : TableSystem Node) : Prop :=
  (relosTable Node).Mirrors (tableComponent codec) Rpc.idle system inner

/-- Every run of the service is one of the table below. -/
theorem Mirrored.lowered (mirrored : Mirrored codec earlier inner)
    (run : (serviceComponent codec).machine.Run Undisturbed earlier later) :
    ∃ inner', (tableComponent codec).machine.Run TableSystem.Undisturbed inner inner' ∧
      Mirrored codec later inner' :=
  mirrored.run (fun _ _ _ _ permitted => permitted_lower permitted) run

theorem Mirrored.below (mirrored : Mirrored codec system inner)
    (returned : system.Returned index rpc reply) (asks : rpc.call = .ok op) :
    ∃ result, inner.Returned index op result ∧ rpc.reply result = some reply := by
  rcases mirrored.returned returned with refused | ⟨op', result, prepared, returned', replies⟩
  · cases (Rpc.prepare_ok asks).symm.trans refused
  · cases (Rpc.prepare_ok asks).symm.trans prepared
    exact ⟨result, returned', replies⟩

theorem Mirrored.ordered (mirrored : Mirrored codec system inner) (ordered : inner.Ordered codec commands) :
    system.Ordered codec commands := by
  have same : inner.written = system.written := congrArg (fun tables => tables.replicas.log.written)
    mirrored.shared
  obtain ⟨held, decoded, once, issued⟩ := ordered
  rw [same] at decoded once
  refine ⟨?_, decoded, once, fun slot index entry placed => ?_⟩
  · rw [mirrored.shared, same] at held
    exact held
  · obtain ⟨node, command, progress, found, present⟩ := issued slot index entry (same ▸ placed)
    obtain ⟨rpc, progress', above, prepared⟩ := mirrored.called found fun rpc impossible => by
      cases impossible
    exact ⟨rpc, node, command, progress', above, Rpc.call_of_prepare prepared, present⟩

/-- The replies are those of the tables, where the log is one of plain commands. -/
theorem Mirrored.answered (lawful : codec.Lawful) (mirrored : Mirrored codec system inner)
    (answered : inner.Answered codec commands) (plain : ∀ command ∈ commands, Plain command)
    (called : ∀ (index : Nat) (entry : Entry) (slot : Nat), inner.written[slot]? = some (index, entry) →
      ∃ node command progress, inner.calls[index]? = some ⟨.write node command, progress⟩) :
    system.Answered codec commands := by
  have written : inner.written = system.written := congrArg (fun tables => tables.replicas.log.written)
    mirrored.shared
  have represents : ∀ count, Represents codec (Tables.after codec.value (commands.take count))
      (stored codec (commands.take count)).data := fun count =>
    (represents_stored lawful fun command member => plain command (List.mem_of_mem_take member)).2
  refine ⟨?_, ?_, ?_, ?_⟩
  · intro index rpc reply status returned refused
    obtain ⟨below, present, same⟩ := mirrored.calls index _ returned
    cases same with
    | answered prepared => cases (Rpc.prepare_error refused).symm.trans prepared
    | refused prepared =>
        cases (Rpc.prepare_error refused).symm.trans prepared
        refine ⟨rfl, fun member => ?_⟩
        obtain ⟨⟨owner, entry⟩, held, rfl⟩ := List.mem_map.mp member
        obtain ⟨slot, placed⟩ := List.getElem?_of_mem held
        obtain ⟨node, command, progress, found⟩ := called owner entry slot (written ▸ placed)
        cases found.symm.trans present
  · intro index rpc reply node command returned asks
    obtain ⟨result, returned', replies⟩ := mirrored.below returned asks
    obtain ⟨slot, entry, rv, placed, found, applied, rfl⟩ :=
      answered.write index node command result returned'
    have replied := replied rpc lawful (represents slot)
      (plain command (List.mem_of_getElem? found)) applied
    exact ⟨slot, entry, written ▸ placed, found, replied.symm.trans replies⟩
  · intro index rpc reply node table key returned asks
    obtain ⟨result, returned', replies⟩ := mirrored.below returned asks
    obtain ⟨count, seen, inside, found⟩ := answered.read index _ result returned' id
    refine ⟨count, _, mirrored.shared ▸ seen, inside, rfl, ?_⟩
    unfold TableOp.answer at found
    dsimp only at found
    rw [(represents count).get] at found
    cases found
    exact Option.some.inj (replies.symm.trans (Rpc.reply_ok (Rpc.respond_get asks _)))
  · intro index rpc reply node table returned asks
    obtain ⟨result, returned', replies⟩ := mirrored.below returned asks
    obtain ⟨count, seen, inside, found⟩ := answered.read index _ result returned' id
    obtain ⟨rows, scanned, perm⟩ := (represents count).scan lawful table
    refine ⟨count, rows, mirrored.shared ▸ seen, inside, perm, ?_⟩
    unfold TableOp.answer at found
    dsimp only at found
    rw [scanned] at found
    cases found
    exact Option.some.inj (replies.symm.trans (Rpc.reply_ok (Rpc.respond_scan asks rows)))

/-! ### Progress -/

/-- A request that has been let through is answered once its call of the table is. -/
theorem Mirrored.returns_inside (lawful : codec.Lawful) {started : Nat → Nat}
    (mirrored : Mirrored codec system inner) (inv : TableSystem.Inv codec started commands inner)
    (capacity : system.calls.length ≤ vecCapacity) {future : TableReplicas.Future}
    (asks : rpc.call = .ok op) (pending : system.Pending index rpc (.inside op future)) :
    ∃ last, (serviceComponent codec).machine.Run Undisturbed system last ∧
      ∃ reply, last.Returned index rpc reply := by
  have waiting : inner.Pending index op future := by
    obtain ⟨below, present, same⟩ := mirrored.calls index _ pending
    cases same with
    | inside prepared => exact present
  obtain ⟨innerLast, run, result, returned⟩ :=
    inv.returns_alone lawful (mirrored.length ▸ capacity) waiting
  -- The service follows the run below, as long as the request has entered.
  let Related (inner : TableSystem Node) (system : ServiceSystem Node) : Prop :=
    Mirrored codec system inner ∧ (∃ commands, TableSystem.Inv codec started commands inner) ∧
    ∃ progress, system.calls[index]? = some ⟨rpc, progress⟩ ∧ progress ≠ .running .enter
  have related : Related inner system :=
    ⟨mirrored, ⟨commands, inv⟩, _, pending, fun impossible => by cases impossible⟩
  obtain ⟨last, run', mirrored', -, progress, found, entered⟩ := run.simulate Related (fun inner system
      action inner' ⟨mirrored, ⟨commands, inv⟩, progress, found, entered⟩ serves moved => by
    obtain ⟨commands', inv', -⟩ := inv.step lawful serves.undisturbed moved
    cases action with
    | start => exact serves.elim
    | poll polled =>
        cases serves
        obtain ⟨below, present, same⟩ := mirrored.calls index _ found
        obtain ⟨op', future', _, _, running, -, -⟩ := Component.step_poll moved
        cases present.symm.trans running
        cases same with
        | entering | refusing => exact absurd rfl entered
        | refused prepared => cases (Rpc.prepare_ok asks).symm.trans prepared
        | inside prepared =>
            cases (Rpc.prepare_ok asks).symm.trans prepared
            obtain ⟨next, followed, mirrored', progress', found', entered'⟩ :=
              mirrored.follow found moved fun result returned => exists_reply inv' returned asks
            have permitted : system.Undisturbed (.poll index) := trivial
            exact ⟨next, .single permitted followed, mirrored', ⟨commands', inv'⟩, progress', found',
              entered'⟩
    | background event =>
        obtain ⟨followed, mirrored'⟩ := mirrored.follow_background moved
        have permitted : system.Undisturbed (.background event) := by
          cases event <;> exact serves
        exact ⟨_, .single permitted followed, mirrored', ⟨commands', inv'⟩, progress, found,
          entered⟩) related
  refine ⟨last, run', ?_⟩
  obtain ⟨below, present, same⟩ := mirrored'.calls index _ found
  cases present.symm.trans returned
  cases same with
  | answered prepared answers => exact ⟨_, found⟩

theorem Mirrored.returns (lawful : codec.Lawful) {started : Nat → Nat}
    (mirrored : Mirrored codec system inner) (inv : TableSystem.Inv codec started commands inner)
    (capacity : system.calls.length ≤ vecCapacity)
    {future : Wrapped (TableOp Node) TableReplicas.Future} (pending : system.Pending index rpc future) :
    ∃ last, (serviceComponent codec).machine.Run Undisturbed system last ∧
      ∃ reply, last.Returned index rpc reply := by
  obtain ⟨below, present, same⟩ := mirrored.calls index _ pending
  have permitted : system.Undisturbed (.poll index) := trivial
  cases same with
  | inside prepared =>
      exact mirrored.returns_inside lawful inv capacity (Rpc.call_of_prepare prepared) pending
  | @refusing _ reply prepared =>
      have polled : (serviceComponent codec).poll system.shared index rpc .enter =
          some (system.shared, .finished reply) := by
        unfold serviceComponent around
        dsimp only
        rw [prepared]
      refine ⟨_, .single permitted (Component.step_of_poll pending polled), reply, ?_⟩
      exact List.getElem?_set_self (List.getElem?_eq_some_iff.mp pending).1
  | @entering _ called prepared =>
      have polled : (serviceComponent codec).poll system.shared index rpc .enter =
          some (system.shared, .running (.inside called ((tableComponent codec).begin called))) := by
        unfold serviceComponent around
        dsimp only
        rw [prepared]
      have entered := mirrored.set_outer present (.inside prepared)
      have placed : (system.calls.set index ⟨rpc, .running (.inside called
          ((tableComponent codec).begin called))⟩)[index]? = _ :=
        List.getElem?_set_self (List.getElem?_eq_some_iff.mp pending).1
      obtain ⟨last, run, returned⟩ := Mirrored.returns_inside lawful entered inv
        (by rw [List.length_set]; exact capacity) (Rpc.call_of_prepare prepared) placed
      have first := Machine.Run.single permitted (Component.step_of_poll pending polled)
      exact ⟨last, first.trans run, returned⟩

/-- For any number of servers and any interleaving of their requests and apply loops, the
log is one order of the writes that explains every reply by the tables, and that no two
requests, one after the other, contradict; and what has been asked can be answered. -/
theorem served_by_tables (lawful : codec.Lawful)
    (before : (serviceComponent codec).machine.Run Undisturbed (new Node) earlier)
    (after : (serviceComponent codec).machine.Run Undisturbed earlier later) :
    (∃ commands, later.Ordered codec commands ∧ later.Answered codec commands ∧
      InRealTime earlier later) ∧
    (later.calls.length ≤ vecCapacity → ∀ index rpc future, later.Pending index rpc future →
      ∃ last, (serviceComponent codec).machine.Run Undisturbed later last ∧
        ∃ reply, last.Returned index rpc reply) := by
  have fresh : Mirrored codec (new Node) (TableSystem.new Node) := .fresh _
  obtain ⟨inner, beforeBelow, mirrored₀⟩ := fresh.lowered before
  obtain ⟨inner', afterBelow, mirrored⟩ := mirrored₀.lowered after
  obtain ⟨known, inv₀, -⟩ := TableSystem.Inv.run lawful (TableSystem.Inv.new codec) beforeBelow
  -- Calls that start from now on see what the log holds now.
  have restarted : TableSystem.Inv codec
      (fun index => if index < inner.calls.length then 0 else known.length) known inner := by
    refine inv₀.restart (fun index inside => if_pos inside) fun index => ?_
    split
    · exact Nat.zero_le _
    · exact Nat.le_refl _
  obtain ⟨commands, inv, grows⟩ := TableSystem.Inv.run lawful restarted afterBelow
  have ordered := inv.ordered lawful
  have asked : ∀ (index : Nat) call, later.calls[index]? = some call → call.op.Plain :=
    Component.ops_of_run (fun _ _ permitted => permitted) (fun _ _ impossible => by cases impossible)
      (before.trans after)
  have ordered' := mirrored.ordered ordered
  have answered := mirrored.answered lawful (inv.answered lawful) (ordered'.plain asked)
    fun index entry slot placed => by
      obtain ⟨node, command, progress, found, -⟩ := ordered.issued slot index entry placed
      exact ⟨node, command, progress, found⟩
  refine ⟨⟨commands, ordered', answered, ?_⟩, fun capacity index rpc future pending =>
    mirrored.returns lawful inv capacity pending⟩
  intro index rpc op reply index' rpc' op' reply' returned asks later' returned' asks'
  obtain ⟨result, returnedBelow, -⟩ := mirrored₀.below returned asks
  obtain ⟨result', returnedBelow', -⟩ := mirrored.below returned' asks'
  obtain ⟨seen, sees, inside, -⟩ := inv₀.seen returnedBelow
  obtain ⟨seen', sees', -, after', strictly⟩ := inv.seen returnedBelow'
  rw [if_neg (Nat.not_lt.mpr (mirrored₀.length ▸ later'))] at after' strictly
  exact ⟨seen, seen', .of_table mirrored.shared (sees.grow grows), .of_table mirrored.shared sees',
    Nat.le_trans inside after', fun write => Nat.lt_of_le_of_lt inside (strictly write)⟩

end Mirrored

/-- A request up to the point where its engine has to answer, and turns of the engine. -/
def ask (index : Nat) (rpc : Rpc Bool) (turns : Nat) : List (ServiceAction Bool) :=
  ([.start rpc, .poll index, .poll index, .poll index, .poll index] : List (ServiceAction Bool)) ++
    (List.replicate turns (.background (.turn rpc.node ())) : List (ServiceAction Bool))

def users : Proto.TableSchema := ⟨"users", [⟨"id", 1, false⟩, ⟨"name", 2, true⟩], ["id"]⟩

/-- A request without a row is turned down. -/
def writes : List (ServiceAction Bool) :=
  [.start ⟨true, .put "users" none⟩, .poll 0] ++ ask 1 ⟨true, .createTable (some users)⟩ 7 ++ [.poll 1] ++
    ask 2 ⟨true, .put "users" (some ⟨[⟨some (.int64Value 1)⟩, ⟨none⟩]⟩)⟩ 7 ++ [.poll 2]

/-- A table that exists is created again while another server reads. -/
def reads : List (ServiceAction Bool) :=
  ask 3 ⟨false, .get "users" [⟨some (.int64Value 1)⟩]⟩ 11 ++ ask 4 ⟨true, .createTable (some users)⟩ 7 ++
    ([.poll 3, .poll 4, .poll 3] : List (ServiceAction Bool))

def replies (system : ServiceSystem Bool) : List (Option RpcReply) :=
  system.calls.map fun call => match call.progress with
    | .finished reply => some reply
    | .running _ => none

def firstReplies : List (Option RpcReply) :=
  [some (.error (.invalidArgument "missing row")), some (.ok .createTable), some (.ok .put)]

/-- A value that is not set comes back as null. -/
def laterReplies : List (Option RpcReply) :=
  [some (.ok (.get true (some ⟨[⟨some (.int64Value 1)⟩, ⟨some (.isNull true)⟩]⟩))),
    some (.error (.invalidArgument "table 'users' already exists"))]

theorem served_by_tables_reads : ∃ earlier later : ServiceSystem Bool,
    replies earlier = firstReplies ∧ replies later = firstReplies ++ laterReplies ∧
    ∃ commands, later.Ordered .standard commands ∧ later.Answered .standard commands ∧
      InRealTime earlier later := by
  obtain ⟨earlier, later, before, after, seen, seen'⟩ := Machine.exists_runs_of_execute
    (serviceComponent .standard).machine Undisturbed (new Bool) writes reads replies
    firstReplies (firstReplies ++ laterReplies) (by decide +kernel)
  exact ⟨earlier, later, seen, seen', (served_by_tables TableCodec.standard_lawful before after).1⟩

end ServiceSystem

end Relos
