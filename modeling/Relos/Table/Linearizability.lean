import Relos.Table.TableInvariant

set_option autoImplicit false

/-! Linearizability of the table store: one order of the writes, given by the log, that
explains every result and respects real time. -/

namespace Relos

open Async Serial BaseEngine DelosTable TableReplicas

namespace TableSystem

variable {Node : Type}

/-- `commands` is the content of the log. The entries come from different calls, each
from the write that proposed it. -/
structure Ordered (codec : TableCodec) (commands : List TableCommand) (system : TableSystem Node) :
    Prop where
  held : system.shared.replicas.log.loglet.entries = system.written.map fun placed => some placed.2
  decoded : (system.written.map fun placed => codec.command.deserialize placed.2.payload) =
    commands.map .ok
  once : (system.written.map Prod.fst).Nodup
  issued : ∀ (slot index : Nat) (entry : Entry), system.written[slot]? = some (index, entry) →
    ∃ (node : Node) (command : TableCommand) (progress : Progress TableReplicas.Future TableResult),
      system.calls[index]? = some ⟨.write node command, progress⟩ ∧ commands[slot]? = some command

/-- Every call is answered from a prefix of the log: a write returns the response of its
own command, applied after the commands before it, and a read what it finds after the
commands that its snapshot held. -/
structure Answered (codec : TableCodec) (commands : List TableCommand) (system : TableSystem Node) :
    Prop where
  write : ∀ index node command result, system.Returned index (.write node command) result →
    ∃ slot entry rv, system.written[slot]? = some (index, entry) ∧ commands[slot]? = some command ∧
      applyOne codec (stored codec (commands.take slot)) (slot + 1) command =
        .ok (stored codec (commands.take (slot + 1)), rv) ∧
      result = TableOp.respond codec rv
  read : ∀ index op result, system.Returned index op result → ¬ op.IsWrite →
    ∃ count, system.shared.observed index = some count ∧ count ≤ commands.length ∧
      op.answer codec (stored codec (commands.take count)) = some result

/-- A call that starts once another has returned sees all that the other has seen, and
a write comes after it. -/
def InRealTime (earlier later : TableSystem Node) : Prop :=
  ∀ before op result index op' result', earlier.Returned before op result →
    earlier.calls.length ≤ index → later.Returned index op' result' →
    ∃ seen seen', later.Seen before seen op ∧ later.Seen index seen' op' ∧ seen ≤ seen' ∧
      (op'.IsWrite → seen < seen')

variable {codec : TableCodec} {started : Nat → Nat} {commands commands' : List TableCommand}
  {index : Nat} {op : TableOp Node} {system : TableSystem Node}

theorem Inv.ordered (lawful : codec.Lawful) (inv : Inv codec started commands system) :
    system.Ordered codec commands where
  held := by
    rw [inv.logged.held]
    exact List.map_map
  decoded := by
    refine List.ext_getElem? fun slot => ?_
    rw [List.getElem?_map, List.getElem?_map]
    cases placed : system.written[slot]? with
    | none =>
        have beyond : commands.length ≤ slot := inv.logged.length ▸ List.getElem?_eq_none_iff.mp placed
        rw [List.getElem?_eq_none beyond]
        rfl
    | some held =>
        obtain ⟨index, entry⟩ := held
        obtain ⟨command, found, encodes⟩ := inv.logged.encoded placed
        rw [found]
        exact congrArg some (encodes.decoded lawful)
  once := inv.logged.once
  issued slot index entry placed := by
    obtain ⟨-, op, progress, found, -, requested⟩ := inv.written slot index entry placed
    obtain ⟨command', present, encodes'⟩ := inv.logged.encoded placed
    rcases request_cases requested with ⟨node, command, _, rfl, same, encodes⟩ | ⟨-, impossible⟩
    · cases same
      exact ⟨node, command, progress, found, encodes.unique lawful encodes' ▸ present⟩
    · cases impossible

theorem Inv.answered (lawful : codec.Lawful) (inv : Inv codec started commands system) :
    system.Answered codec commands where
  write index node command result returned := by
    have finished : FinishedOk codec started commands system.shared index (.write node command) result :=
      inv.calls index _ _ returned
    obtain ⟨slot, entry, rv, placed, encodes, ⟨command', found, applied⟩, same⟩ := finished
    obtain ⟨_, found', encodes'⟩ := inv.logged.encoded placed
    cases found.symm.trans found'
    cases encodes.unique lawful encodes'
    exact ⟨slot, entry, rv, placed, found, applied, same⟩
  read index op result returned reads := by
    have finished : FinishedOk codec started commands system.shared index op result :=
      inv.calls index op _ returned
    cases op with
    | write => exact absurd trivial reads
    | get | scan =>
        obtain ⟨count, seen, -, inside, answered⟩ := finished
        exact ⟨count, seen, inside, answered⟩

theorem Inv.seen {system : TableSystem Node} {result : TableResult}
    (inv : Inv codec started commands system) (returned : system.Returned index op result) :
    ∃ seen, system.Seen index seen op ∧ seen ≤ commands.length ∧ started index ≤ seen ∧
      (op.IsWrite → started index < seen) := by
  have finished : FinishedOk codec started commands system.shared index op result :=
    inv.calls index op _ returned
  cases op with
  | write node command =>
      obtain ⟨slot, entry, rv, placed, -, responded, -⟩ := finished
      have later := (inv.written slot index entry placed).1
      exact ⟨slot + 1, ⟨slot, entry, placed, rfl⟩, responded.inside, Nat.le_succ_of_le later,
        fun _ => Nat.lt_succ_of_le later⟩
  | get | scan =>
      obtain ⟨count, seen, later, inside, -⟩ := finished
      exact ⟨count, seen, inside, later, fun impossible => impossible.elim⟩

theorem Seen.grow {system next : TableSystem Node} {count : Nat}
    (grows : Grows commands commands' system.shared next.shared) (seen : system.Seen index count op) :
    next.Seen index count op := by
  cases op with
  | write node command =>
      obtain ⟨slot, entry, placed, same⟩ := seen
      exact ⟨slot, entry, getElem?_of_longer grows.written placed, same⟩
  | get | scan => exact grows.observed index count seen

/-! ### Progress -/

def futureRank : Future → Nat
  | .enter => 12
  | .engine _ .enter => 11
  | .engine _ (.send _) => 10
  | .engine _ .receive => 2
  | .engine _ .append => 1
  | .snapshot => 1

/-- How many polls and turns of its replica a running call has left. -/
def callRank (tables : TableReplicas Node) (op : TableOp Node) (future : Future) : Nat :=
  futureRank future + match tables.replicas.engines op.node with
    | some engine => engineRank tables.replicas.log.written.length engine
    | none => 0

theorem callRank_running {tables : TableReplicas Node} {future : Future} {engine : BaseEngine Unit}
    (running : tables.replicas.engines op.node = some engine) : callRank tables op future =
      futureRank future + engineRank tables.replicas.log.written.length engine := by
  unfold callRank
  rw [running]

theorem callRank_pos (tables : TableReplicas Node) (op : TableOp Node) (future : Future) :
    0 < callRank tables op future := by
  have positive : 0 < futureRank future := by
    unfold futureRank
    split <;> decide
  unfold callRank
  exact Nat.add_pos_left positive _

def progressRank (tables : TableReplicas Node) (op : TableOp Node) :
    Progress Future TableResult → Nat
  | .running future => callRank tables op future
  | .finished _ => 0

/-- A call that waits to be appended finds room, since no other call appends twice. -/
theorem Inv.room (inv : Inv codec started commands system)
    (capacity : system.calls.length ≤ vecCapacity) (absent : index ∉ system.written.map Prod.fst)
    (inside : index < system.calls.length) :
    system.shared.replicas.log.loglet.entries.length < vecCapacity := by
  have nodup : (index :: system.written.map Prod.fst).Nodup :=
    List.nodup_cons.mpr ⟨absent, inv.logged.once⟩
  have within : (index :: system.written.map Prod.fst) ⊆ List.range system.calls.length := by
    intro owner member
    rcases List.mem_cons.mp member with rfl | written
    · exact List.mem_range.mpr inside
    · obtain ⟨⟨owner, entry⟩, held, rfl⟩ := List.mem_map.mp written
      obtain ⟨slot, placed⟩ := List.getElem?_of_mem held
      obtain ⟨-, op, progress, found, -⟩ := inv.written slot owner entry placed
      exact List.mem_range.mpr (List.getElem?_eq_some_iff.mp found).1
  have bound := (nodup.subperm within).length_le
  rw [List.length_cons, List.length_map, List.length_range] at bound
  rw [inv.logged.held]
  unfold MemoryLoglet.holding
  rw [List.length_map, List.length_map]
  exact Nat.lt_of_lt_of_le bound capacity

section Progress

variable [DecidableEq Node] {future : Future}

/-- A running call that does not wait for its engine can be polled. -/
theorem Inv.advance (lawful : codec.Lawful) (inv : Inv codec started commands system)
    (pending : system.Pending index op future)
    (ready : ∀ request, future = .engine request .receive →
      ∃ result, system.shared.replicas.replies index = some result) :
    ∃ tables progress, TableReplicas.poll codec system.shared index op future =
        some (tables, progress) ∧
      ∀ later, progress = .running later → callRank tables op later < callRank system.shared op future := by
  have running : RunningOk codec started system.shared index op future := inv.calls index op _ pending
  obtain ⟨engine, found, -⟩ := inv.engines op.node
  rw [callRank_running found]
  unfold TableReplicas.poll
  cases future with
  | enter =>
      obtain ⟨request, requested⟩ := exists_request lawful op
      dsimp only
      rw [requested]
      refine ⟨_, _, rfl, fun later same => ?_⟩
      cases same
      rw [callRank_running found]
      exact Nat.add_lt_add_right (Nat.lt_succ_self 11) _
  | engine request future =>
      obtain ⟨requested, sends⟩ := running
      unfold Replicas.poll
      cases future with
      | enter =>
          dsimp only
          rw [found]
          refine ⟨_, _, rfl, fun later same => ?_⟩
          cases same
          rw [callRank_running found]
          exact Nat.add_lt_add_right (Nat.lt_succ_self 10) _
      | send sent =>
          subst sends
          dsimp only
          rw [found]
          refine ⟨_, _, rfl, fun later same => ?_⟩
          cases same
          rw [callRank_running (Function.update_self ..)]
          have grown : engineRank system.shared.replicas.log.written.length
              { engine with requests := engine.requests ++ [⟨sent, index⟩] } ≤ _ :=
            engineRank_enqueue _ ⟨sent, index⟩
          dsimp only [futureRank, Replicas.setEngine]
          omega
      | receive =>
          obtain ⟨result, replied⟩ := ready request rfl
          obtain ⟨_, _, request', held, -, requested', answers⟩ := inv.replies index result replied
          cases Option.some.inj (held.symm.trans pending)
          cases requested.symm.trans requested'
          dsimp only
          rw [replied, Option.map_some, Option.bind_some]
          rcases request_cases requested with ⟨node, command, entry, rfl, rfl, -⟩ | ⟨reads, rfl⟩
          · obtain ⟨slot, rv, -, -, rfl⟩ := answers
            exact ⟨_, _, rfl, fun _ impossible => by cases impossible⟩
          · obtain ⟨pos, -, rfl⟩ := answers
            cases op with
            | write node command => exact absurd trivial reads
            | get | scan =>
                refine ⟨_, _, rfl, fun later same => ?_⟩
                cases same
                rw [callRank_running found]
                exact Nat.add_lt_add_right (Nat.lt_succ_self 1) _
      | append => exact sends.elim
  | snapshot =>
      cases op with
      | write node command => exact absurd trivial running.1
      | get | scan => exact ⟨_, _, rfl, fun _ impossible => by cases impossible⟩

/-- Polls of this call, and steps of apply loops. -/
def ServesOnly (index : Nat) (_ : TableSystem Node) : TableAction Node → Prop
  | .poll polled => polled = index
  | .background (.turn _ _) => True
  | .start _ | .background (.stop _) | .background (.new _ _) => False

omit [DecidableEq Node] in
theorem ServesOnly.undisturbed {action : TableAction Node} (serves : ServesOnly index system action) :
    system.Undisturbed action := by
  cases action with
  | start => exact serves.elim
  | poll => trivial
  | background event => cases event <;> exact serves

/-- What has been called can return, without any other call. -/
theorem Inv.returns_alone (lawful : codec.Lawful) (inv : Inv codec started commands system)
    (capacity : system.calls.length ≤ vecCapacity) (pending : system.Pending index op future) :
    ∃ last, (tableComponent codec).machine.Run (ServesOnly index) system last ∧
      ∃ result, last.Returned index op result := by
  let Busy (state : TableSystem Node) : Prop := (∃ commands, Inv codec started commands state) ∧
    state.calls.length ≤ vecCapacity ∧ ∃ progress, state.calls[index]? = some ⟨op, progress⟩
  let rank (state : TableSystem Node) : Nat :=
    (state.calls[index]?).elim 0 fun call => progressRank state.shared call.op call.progress
  have busy : Busy system := ⟨⟨commands, inv⟩, capacity, _, pending⟩
  refine Machine.exists_run_of_rank rank ?_ busy
  rintro state ⟨⟨commands, inv⟩, capacity, progress, found⟩
  cases progress with
  | finished result => exact Or.inl ⟨result, found⟩
  | running future =>
      refine Or.inr ?_
      have inside := (List.getElem?_eq_some_iff.mp found).1
      have before : rank state = callRank state.shared op future := by
        dsimp only [rank]
        rw [found]
        rfl
      by_cases ready : ∀ request, future = .engine request .receive →
          ∃ result, state.shared.replicas.replies index = some result
      · obtain ⟨tables, progress, polled, less⟩ := inv.advance lawful found ready
        have moved : (tableComponent codec).machine.step state (.poll index) = some
            { shared := tables, calls := state.calls.set index ⟨op, progress⟩ } :=
          Component.step_of_poll found polled
        have after : (state.calls.set index ⟨op, progress⟩)[index]? = some ⟨op, progress⟩ :=
          List.getElem?_set_self inside
        have permitted : ServesOnly index state (.poll index) := rfl
        obtain ⟨commands', inv', -⟩ := inv.step lawful permitted.undisturbed moved
        refine ⟨.poll index, _, permitted, moved, ⟨⟨commands', inv'⟩, ?_, progress, after⟩, ?_⟩
        · rw [List.length_set]
          exact capacity
        · rw [before]
          dsimp only [rank]
          rw [after]
          cases progress with
          | finished result => exact callRank_pos state.shared op future
          | running later => exact less later rfl
      · -- The call waits for its engine, which has a turn to take.
        obtain ⟨request, rfl, silent⟩ : ∃ request, future = .engine request .receive ∧
            ¬ ∃ result, state.shared.replicas.replies index = some result := by
          by_contra none
          refine ready fun request same => ?_
          by_contra silent
          exact none ⟨request, same, silent⟩
        rcases inv.waiting index op request found with replied | ⟨engine, running, member⟩
        · exact absurd replied silent
        obtain ⟨engine', running', serves, -⟩ := inv.engines op.node
        cases running.symm.trans running'
        have room : ∀ asker, asker ∉ state.shared.replicas.log.written.map Prod.fst →
            asker ∈ engine.unanswered →
            state.shared.replicas.log.loglet.entries.length < vecCapacity := by
          intro asker absent asked
          obtain ⟨_, _, held, -⟩ := serves.asked_of_mem asked
          exact inv.room capacity absent (List.getElem?_eq_some_iff.mp held).1
        obtain ⟨turn, turned, less⟩ :=
          turn_rank lawful inv.logged (inv.stores op.node) serves member room ()
        have permitted : ServesOnly index state (.background (.turn op.node ())) := trivial
        obtain ⟨tables, ran, log, engines⟩ : ∃ tables,
            TableReplicas.background codec state.shared (.turn op.node ()) = some tables ∧
            tables.replicas.log = turn.log ∧ tables.replicas.engines op.node = some turn.engine := by
          unfold TableReplicas.background Replicas.background
          dsimp only
          rw [running]
          dsimp only
          rw [turned, Option.map_some, Option.map_some]
          exact ⟨_, rfl, rfl, Function.update_self ..⟩
        have moved : (tableComponent codec).machine.step state (.background (.turn op.node ())) =
            some { state with shared := tables } := Component.step_of_background ran
        obtain ⟨commands', inv', -⟩ := inv.step lawful permitted.undisturbed moved
        refine ⟨_, _, permitted, moved, ⟨⟨commands', inv'⟩, capacity, _, found⟩, ?_⟩
        rw [before]
        dsimp only [rank]
        rw [found]
        dsimp only [Option.elim, progressRank]
        rw [callRank_running running, callRank_running engines, log]
        exact Nat.add_lt_add_left less _

/-- What has been called can return. -/
theorem Inv.returns (lawful : codec.Lawful) (inv : Inv codec started commands system)
    (capacity : system.calls.length ≤ vecCapacity) (pending : system.Pending index op future) :
    ∃ last, (tableComponent codec).machine.Run Undisturbed system last ∧
      ∃ result, last.Returned index op result := by
  obtain ⟨last, run, returned⟩ := inv.returns_alone lawful capacity pending
  exact ⟨last, run.mono fun _ _ serves => serves.undisturbed, returned⟩

end Progress

variable [DecidableEq Node] {earlier later : TableSystem Node}

/-- For any number of replicas and any interleaving of their calls and their apply
loops, the log is one order of the writes that explains every result and that no two
calls, one after the other, contradict. -/
theorem linearizable (lawful : codec.Lawful)
    (before : (tableComponent codec).machine.Run Undisturbed (new Node) earlier)
    (after : (tableComponent codec).machine.Run Undisturbed earlier later) :
    (∃ commands, later.Ordered codec commands ∧ later.Answered codec commands ∧
      InRealTime earlier later) ∧
    (later.calls.length ≤ vecCapacity → ∀ index op future, later.Pending index op future →
      ∃ last, (tableComponent codec).machine.Run Undisturbed later last ∧
        ∃ result, last.Returned index op result) := by
  obtain ⟨known, inv₀, -⟩ := Inv.run lawful (Inv.new codec) before
  -- Calls that start from now on see what the log holds now.
  have restarted : Inv codec (fun index => if index < earlier.calls.length then 0 else known.length)
      known earlier := by
    refine inv₀.restart (fun index inside => if_pos inside) fun index => ?_
    split
    · exact Nat.zero_le _
    · exact Nat.le_refl _
  obtain ⟨commands, inv, grows⟩ := Inv.run lawful restarted after
  refine ⟨⟨commands, inv.ordered lawful, inv.answered lawful, ?_⟩,
    fun capacity index op future pending => inv.returns lawful capacity pending⟩
  intro index op result index' op' result' returned later' returned'
  obtain ⟨seen, sees, inside, -⟩ := inv₀.seen returned
  obtain ⟨seen', sees', -, after', strictly⟩ := inv.seen returned'
  rw [if_neg (Nat.not_lt.mpr later')] at after' strictly
  exact ⟨seen, seen', sees.grow grows, sees', Nat.le_trans inside after',
    fun write => Nat.lt_of_le_of_lt inside (strictly write)⟩

/-- A call up to the point where its engine has to answer, and turns of the engine. -/
def serve (index : Nat) (op : TableOp Bool) (turns : Nat) : List (TableAction Bool) :=
  ([.start op, .poll index, .poll index, .poll index] : List (TableAction Bool)) ++
    (List.replicate turns (.background (.turn op.node ())) : List (TableAction Bool))

def writes : List (TableAction Bool) :=
  serve 0 (.write true (.createTable ⟨"users", [⟨"id", .int64, false⟩], ["id"]⟩)) 7 ++ [.poll 0] ++
    serve 1 (.write true (.put "users" ⟨[.int64 1]⟩)) 7 ++ [.poll 1]

/-- A delete is appended while another replica answers a read, and applied there before
the read takes its snapshot. -/
def reads : List (TableAction Bool) :=
  serve 2 (.get false "users" [.int64 1]) 11 ++ serve 3 (.write true (.delete "users" [.int64 1])) 7 ++
    ([.poll 2] : List (TableAction Bool)) ++ serve 4 (.scan false "users") 7 ++
    ([.poll 2, .poll 3, .poll 4, .poll 4] : List (TableAction Bool))

/-- The first three calls, and what the third has observed. -/
def shown (system : TableSystem Bool) :
    List (Call (TableOp Bool) Future TableResult) × Option Nat :=
  (system.calls.take 3, system.shared.observed 2)

def created : Call (TableOp Bool) Future TableResult :=
  ⟨.write true (.createTable ⟨"users", [⟨"id", .int64, false⟩], ["id"]⟩), .finished (.ok .unit)⟩

def put : Call (TableOp Bool) Future TableResult :=
  ⟨.write true (.put "users" ⟨[.int64 1]⟩), .finished (.ok .unit)⟩

def get : Call (TableOp Bool) Future TableResult :=
  ⟨.get false "users" [.int64 1], .finished (.ok (.row none))⟩

theorem linearizable_reads : ∃ earlier later : TableSystem Bool,
    shown earlier = ([created, put], none) ∧ shown later = ([created, put, get], some 3) ∧
    ∃ commands, later.Ordered .standard commands ∧ later.Answered .standard commands ∧
      InRealTime earlier later := by
  obtain ⟨earlier, later, before, after, seen, seen'⟩ := Machine.exists_runs_of_execute
    (tableComponent .standard).machine Undisturbed (new Bool) writes reads shown
    ([created, put], none) ([created, put, get], some 3) (by decide +kernel)
  exact ⟨earlier, later, seen, seen', (linearizable TableCodec.standard_lawful before after).1⟩

end TableSystem

end Relos
