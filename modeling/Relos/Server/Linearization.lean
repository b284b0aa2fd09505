import Relos.Async.Sequential
import Relos.Server.ServiceRefinement

set_option autoImplicit false

/-! One order of the accepted writes that explains every reply over the wire, whatever the
server that gives the replies is made of. -/

namespace Relos

open Async

/-- `order` names the request of each write, and `seen` counts the writes that a request has
seen, its own included. -/
structure Linearizes {Node Shared Fut : Type} (codec : TableCodec) (order : List (Nat × TableCommand))
    (seen : Nat → Nat) (system : System Shared (Rpc Node) Fut RpcReply) : Prop where
  once : (order.map Prod.fst).Nodup
  issued : ∀ (slot index : Nat) (command : TableCommand), order[slot]? = some (index, command) →
    seen index = slot + 1 ∧ ∃ (rpc : Rpc Node) (node : Node) (progress : Progress Fut RpcReply),
      system.calls[index]? = some ⟨rpc, progress⟩ ∧ rpc.call = .ok (.write node command)
  refused : ∀ index rpc reply status, system.Returned index rpc reply → rpc.call = .error status →
    reply = .error status
  write : ∀ index rpc reply node command, system.Returned index rpc reply →
    rpc.call = .ok (.write node command) →
    ∃ slot, order[slot]? = some (index, command) ∧ rpc.acknowledged
      (Tables.step codec.value (tablesAt codec order slot) command).2 = some reply
  get : ∀ index rpc reply node table key, system.Returned index rpc reply →
    rpc.call = .ok (.get node table key) →
    seen index ≤ order.length ∧
      ∃ row, (tablesAt codec order (seen index)).find codec.value table key = row ∧
        reply = .ok (.get row.isSome (row.map relosRowToProto))
  scan : ∀ index rpc reply node table, system.Returned index rpc reply →
    rpc.call = .ok (.scan node table) →
    seen index ≤ order.length ∧
      ∃ rows : List Row, rows.Perm ((tablesAt codec order (seen index)).rows table) ∧
        reply = .ok (.scan (rows.map relosRowToProto))

/-- A request that arrives once another has been answered sees all that the other has seen,
and a write comes after it. -/
def SeesInRealTime {Node Shared Fut : Type} (seen : Nat → Nat)
    (earlier later : System Shared (Rpc Node) Fut RpcReply) : Prop :=
  ∀ before rpc op reply index rpc' op' reply', earlier.Returned before rpc reply →
    rpc.call = .ok op → earlier.calls.length ≤ index → later.Returned index rpc' reply' →
    rpc'.call = .ok op' → seen before ≤ seen index ∧ (op'.IsWrite → seen before < seen index)

/-- The replies are all that matters. -/
theorem Linearizes.congr {Node Shared Shared' Fut Fut' : Type} {codec : TableCodec}
    {order : List (Nat × TableCommand)} {seen : Nat → Nat}
    {system : System Shared (Rpc Node) Fut RpcReply} {image : System Shared' (Rpc Node) Fut' RpcReply}
    (linearizes : Linearizes codec order seen image)
    (returned : ∀ {index rpc reply}, system.Returned index rpc reply → image.Returned index rpc reply)
    (called : ∀ {index : Nat} {rpc progress}, image.calls[index]? = some ⟨rpc, progress⟩ →
      ∃ progress', system.calls[index]? = some ⟨rpc, progress'⟩) :
    Linearizes codec order seen system where
  once := linearizes.once
  issued slot index command placed := by
    obtain ⟨sees, rpc, node, progress, found, asks⟩ := linearizes.issued slot index command placed
    obtain ⟨progress', found'⟩ := called found
    exact ⟨sees, rpc, node, progress', found', asks⟩
  refused index rpc reply status replied := linearizes.refused index rpc reply status (returned replied)
  write index rpc reply node command replied :=
    linearizes.write index rpc reply node command (returned replied)
  get index rpc reply node table key replied :=
    linearizes.get index rpc reply node table key (returned replied)
  scan index rpc reply node table replied :=
    linearizes.scan index rpc reply node table (returned replied)

namespace ServiceSystem

variable {Node : Type} {codec : TableCodec} {commands : List TableCommand}
  {system earlier later : ServiceSystem Node} {index slot count : Nat} {rpc : Rpc Node} {op : TableOp Node}

/-- The writes in the order of the log. -/
def order (system : ServiceSystem Node) (commands : List TableCommand) : List (Nat × TableCommand) :=
  (system.written.map Prod.fst).zip commands

/-- What a request has seen of the log. -/
def seen (system : ServiceSystem Node) (index : Nat) : Nat :=
  match (system.calls[index]?).bind fun call => call.op.call.toOption with
  | some (.write _ _) => (system.written.map Prod.fst).idxOf index + 1
  | _ => (system.shared.observed index).getD 0

theorem Ordered.length (ordered : system.Ordered codec commands) :
    (system.written.map Prod.fst).length = commands.length := by
  have lengths := congrArg List.length ordered.decoded
  rw [List.length_map, List.length_map] at lengths
  rw [List.length_map]
  exact lengths

theorem Ordered.order_fst (ordered : system.Ordered codec commands) :
    (system.order commands).map Prod.fst = system.written.map Prod.fst :=
  List.map_fst_zip (Nat.le_of_eq ordered.length)

theorem Ordered.order_snd (ordered : system.Ordered codec commands) :
    (system.order commands).map Prod.snd = commands :=
  List.map_snd_zip (Nat.le_of_eq ordered.length.symm)

theorem Ordered.tablesAt (ordered : system.Ordered codec commands) (count : Nat) :
    tablesAt codec (system.order commands) count = Tables.after codec.value (commands.take count) := by
  unfold Relos.tablesAt
  rw [List.map_take, ordered.order_snd]

theorem Ordered.order_length (ordered : system.Ordered codec commands) :
    (system.order commands).length = commands.length := by
  rw [← List.length_map Prod.snd, ordered.order_snd]

theorem order_some {entry : Entry} {command : TableCommand}
    (placed : system.written[slot]? = some (index, entry)) (found : commands[slot]? = some command) :
    (system.order commands)[slot]? = some (index, command) := by
  unfold order
  rw [List.getElem?_zip_eq_some]
  refine ⟨?_, found⟩
  rw [List.getElem?_map, placed]
  rfl

/-- Where a request stands in the log, or what it has observed of it. -/
theorem Ordered.seen_eq (ordered : system.Ordered codec commands)
    {progress : Progress (Wrapped (TableOp Node) TableReplicas.Future) RpcReply}
    (called : system.calls[index]? = some ⟨rpc, progress⟩) (asks : rpc.call = .ok op)
    (sees : system.Seen index count op) : system.seen index = count := by
  unfold seen
  rw [called, Option.bind_some]
  dsimp only
  rw [asks]
  cases op with
  | write node command =>
      obtain ⟨slot, entry, placed, rfl⟩ := sees
      have held : (system.written.map Prod.fst)[slot]? = some index := by
        rw [List.getElem?_map, placed]
        rfl
      obtain ⟨inside, same⟩ := List.getElem?_eq_some_iff.mp held
      rw [← same]
      exact congrArg (· + 1) (ordered.once.idxOf_getElem slot inside)
  | get | scan =>
      have observed : system.shared.observed index = some count := sees
      exact congrArg (Option.getD · 0) observed

theorem Answered.linearizes (answered : system.Answered codec commands)
    (ordered : system.Ordered codec commands) :
    Linearizes codec (system.order commands) system.seen system where
  once := by
    rw [ordered.order_fst]
    exact ordered.once
  issued slot index command placed := by
    obtain ⟨owner, found⟩ := List.getElem?_zip_eq_some.mp placed
    rw [List.getElem?_map] at owner
    obtain ⟨⟨owner, entry⟩, placed', same⟩ := Option.map_eq_some_iff.mp owner
    cases same
    obtain ⟨rpc, node, command', progress, called, asks, found'⟩ := ordered.issued slot _ entry placed'
    cases found.symm.trans found'
    exact ⟨ordered.seen_eq called asks ⟨slot, entry, placed', rfl⟩, rpc, node, progress, called, asks⟩
  refused index rpc reply status returned refused :=
    (answered.refused index rpc reply status returned refused).1
  write index rpc reply node command returned asks := by
    obtain ⟨slot, entry, placed, found, replied⟩ :=
      answered.write index rpc reply node command returned asks
    refine ⟨slot, order_some placed found, ?_⟩
    rw [ordered.tablesAt]
    exact replied
  get index rpc reply node table key returned asks := by
    obtain ⟨count, row, observed, inside, found, replied⟩ :=
      answered.get index rpc reply node table key returned asks
    rw [ordered.seen_eq returned asks observed, ordered.order_length, ordered.tablesAt]
    exact ⟨inside, row, found, replied⟩
  scan index rpc reply node table returned asks := by
    obtain ⟨count, rows, observed, inside, found, replied⟩ :=
      answered.scan index rpc reply node table returned asks
    rw [ordered.seen_eq returned asks observed, ordered.order_length, ordered.tablesAt]
    exact ⟨inside, rows, found, replied⟩

variable [DecidableEq Node]

theorem InRealTime.sees (inRealTime : InRealTime earlier later)
    (ordered : later.Ordered codec commands)
    (run : (serviceComponent codec).machine.Run Undisturbed earlier later) :
    SeesInRealTime later.seen earlier later := by
  intro before rpc op reply index rpc' op' reply' returned asks starts returned' asks'
  obtain ⟨count, count', sees, sees', inside, strictly⟩ :=
    inRealTime before rpc op reply index rpc' op' reply' returned asks starts returned' asks'
  obtain ⟨call, called, same⟩ : ∃ call, later.calls[before]? = some call ∧ call.op = rpc := by
    have known := getElem?_of_longer (Component.ops_run run) returned.called
    unfold System.ops at known
    rw [List.getElem?_map] at known
    exact Option.map_eq_some_iff.mp known
  obtain ⟨rpc, progress⟩ := call
  cases same
  rw [ordered.seen_eq called asks sees, ordered.seen_eq returned' asks' sees']
  exact ⟨inside, strictly⟩

end ServiceSystem

end Relos
