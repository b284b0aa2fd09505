import Relos.Engine.ProposeResult
import Relos.Engine.ServerReplies
import Mathlib.Data.Fintype.Card

set_option autoImplicit false

/-! The invariant of servers over a log in which every position belongs to one call: what a
server knows of the log are entries that the log has returned for their positions. -/

namespace Relos

open Async Serial BaseEngine

/-- What servers rely on. A call owns the positions of the entry that it appends, and nobody
else does. -/
structure LogRules {Node Shared Op Fut Event : Type} (served : ServedLog Node Shared Op Fut Event)
    where
  permit : System Shared Op Fut LogletResult → Action Op Event → Prop
  Inv : System Shared Op Fut LogletResult → Prop
  Placed : System Shared Op Fut LogletResult → Nat → Entry → Nat → Prop
  step : ∀ {log next action}, Inv log → permit log action →
    served.component.machine.step log action = some next →
    Inv next ∧ ∀ owner entry pos, Placed log owner entry pos → Placed next owner entry pos
  positive : ∀ {log owner entry pos}, Inv log → Placed log owner entry pos → logPosBegin ≤ pos
  unique : ∀ {log owner owner' entry entry' pos}, Inv log → Placed log owner entry pos →
    Placed log owner' entry' pos → owner = owner' ∧ entry = entry'
  author : ∀ {log owner entry pos}, Inv log → Placed log owner entry pos →
    ∃ op, log.ops[owner]? = some op ∧ served.asks op = .append entry
  appended : ∀ {log call op entry pos}, Inv log → log.Returned call op (.ok (.pos pos)) →
    served.asks op = .append entry → Placed log call entry pos
  read : ∀ {log call op entry pos}, Inv log → log.Returned call op (.ok (.entry (some entry))) →
    served.asks op = .read pos → ∃ owner, Placed log owner entry pos

variable {Node Memory Choice Shared Op Fut Event : Type}

theorem LogRules.started {served : ServedLog Node Shared Op Fut Event} (rules : LogRules served)
    {log : System Shared Op Fut LogletResult} {owner pos : Nat} {entry : Entry} (inv : rules.Inv log)
    (placed : rules.Placed log owner entry pos) : owner < log.calls.length := by
  obtain ⟨op, called, -⟩ := rules.author inv placed
  have inside := (List.getElem?_eq_some_iff.mp called).1
  unfold System.ops at inside
  rw [List.length_map] at inside
  exact inside

namespace ServedLog

variable (served : ServedLog Node Shared Op Fut Event)

/-- A read of the position has returned the entry. -/
def Read (log : System Shared Op Fut LogletResult) (pos : Nat) (entry : Entry) : Prop :=
  ∃ call op, served.asks op = .read pos ∧ log.Returned call op (.ok (.entry (some entry)))

/-- What a step of the log does to its calls. -/
structure Keeps (log next : System Shared Op Fut LogletResult) : Prop where
  ops : log.ops <+: next.ops
  returned : ∀ call op result, log.Returned call op result → next.Returned call op result

variable {served} {log next : System Shared Op Fut LogletResult}

theorem Keeps.refl (log : System Shared Op Fut LogletResult) : Keeps log log :=
  ⟨List.prefix_refl _, fun _ _ _ => id⟩

theorem Keeps.trans {middle : System Shared Op Fut LogletResult} (before : Keeps log middle)
    (after : Keeps middle next) : Keeps log next :=
  ⟨before.ops.trans after.ops,
    fun call op result returned => after.returned _ _ _ (before.returned call op result returned)⟩

theorem Keeps.of_step {action : Action Op Event}
    (moved : served.component.machine.step log action = some next) : Keeps log next := by
  have run : served.component.machine.Run (fun _ _ => True) log next := .single trivial moved
  exact ⟨Component.ops_run run, fun _ _ _ returned => Outline.returned_run run returned⟩

theorem Keeps.length_le (keeps : Keeps log next) : log.calls.length ≤ next.calls.length := by
  have le := keeps.ops.length_le
  unfold System.ops at le
  rw [List.length_map, List.length_map] at le
  exact le

theorem Read.keep {pos : Nat} {entry : Entry} (read : served.Read log pos entry)
    (keeps : Keeps log next) : served.Read next pos entry := by
  obtain ⟨call, op, asks, returned⟩ := read
  exact ⟨call, op, asks, keeps.returned _ _ _ returned⟩

/-- Every entry that was read took a call of its own. -/
theorem length_le_of_read {heard : List Entry}
    (read : ∀ (slot : Nat) entry, heard[slot]? = some entry → served.Read log (slot + 1) entry) :
    heard.length ≤ log.calls.length := by
  have each : ∀ slot : Fin heard.length, ∃ call : Fin log.calls.length, ∃ op result,
      served.asks op = .read (slot + 1) ∧ log.Returned call op result := by
    intro slot
    obtain ⟨call, op, asks, returned⟩ := read slot _ (List.getElem?_eq_getElem slot.isLt)
    exact ⟨⟨call, (List.getElem?_eq_some_iff.mp returned).1⟩, op, _, asks, returned⟩
  choose call op result asks returned using each
  have injective : Function.Injective call := by
    intro left right same
    have first := returned left
    rw [same] at first
    have equal := Option.some.inj (first.symm.trans (returned right))
    have asksLeft := asks left
    rw [(Call.mk.inj equal).1, asks right] at asksLeft
    exact Fin.ext (Nat.succ.inj (LogletOp.read.inj asksLeft)).symm
  simpa only [Fintype.card_fin] using Fintype.card_le_of_injective call injective

end ServedLog

namespace Servers

open Replicas (PassesDown)

abbrev History (Node : Type) := List (Call (Node × EngineOp) Future EngineResult)

def Sent : Progress Future EngineResult → Prop
  | .running .receive | .finished _ => True
  | .running .enter | .running (.send _) => False

def Asked (enter : Node → Memory → EngineOp → Result EngineOp) (calls : History Node) (node : Node)
    (index : Nat) (request : EngineOp) : Prop :=
  ∃ op progress, calls[index]? = some ⟨(node, op), progress⟩ ∧ Sent progress ∧
    PassesDown enter node op request

def RunningOk (enter : Node → Memory → EngineOp → Result EngineOp) (call : Node × EngineOp) :
    Future → Prop
  | .send request => PassesDown enter call.1 call.2 request
  | .enter | .receive => True

/-- The log has given the request this position for its entry. -/
def Landed (served : ServedLog Node Shared Op Fut Event)
    (servers : Servers Node Memory Shared Op Fut) (index : Nat) (entry : Entry) (pos : Nat) : Prop :=
  ∃ call op, servers.purpose call = some index ∧ served.asks op = .append entry ∧
    servers.log.Returned call op (.ok (.pos pos))

/-- The log call is an append, made for the request. -/
def AppendsFor (served : ServedLog Node Shared Op Fut Event)
    (servers : Servers Node Memory Shared Op Fut) (call index : Nat) : Prop :=
  servers.purpose call = some index ∧
    ∃ op, servers.log.ops[call]? = some op ∧ (served.asks op).IsAppend

/-- The request of the call has been told the value of its own entry. -/
def OwnValue (enter : Node → Memory → EngineOp → Result EngineOp)
    (Value : List Entry → Entry → ReturnValue → Prop)
    (served : ServedLog Node Shared Op Fut Event) (servers : Servers Node Memory Shared Op Fut)
    (heard : Node → List Entry) (counts : Node → Nat) (index : Nat) (call : Node × EngineOp)
    (rv : ReturnValue) : Prop :=
  ∃ entry, PassesDown enter call.1 call.2 (.propose entry) ∧
    ToldAt Value (Landed served servers) (heard call.1) (counts call.1) index entry rv

/-- What the loop of a node waits for. The positions that it has applied belong to calls
that are older than the append it waits for. -/
structure Awaits {served : ServedLog Node Shared Op Fut Event} (rules : LogRules served)
    (servers : Servers Node Memory Shared Op Fut) (node : Node) (count call : Nat) : Prop where
  asking : ∃ engine index op asked, servers.engines node = some engine ∧
    engine.logCall = some (index, op) ∧ servers.purpose call = some index ∧
    servers.log.ops[call]? = some asked ∧ served.asks asked = op
  older : ∀ op, servers.log.ops[call]? = some op → (served.asks op).IsAppend →
    ∀ slot, slot < count → ∃ owner entry, rules.Placed servers.log owner entry (slot + 1) ∧
      owner < call

structure Knows (enter : Node → Memory → EngineOp → Result EngineOp)
    (Holds : List Entry → StoreData → Prop) (Value : List Entry → Entry → ReturnValue → Prop)
    {served : ServedLog Node Shared Op Fut Event} (rules : LogRules served)
    (system : System (Servers Node Memory Shared Op Fut) (Node × EngineOp) Future EngineResult)
    (heard : Node → List Entry) (counts : Node → Nat) : Prop where
  log : rules.Inv system.shared.log
  read : ∀ node (slot : Nat) entry, (heard node)[slot]? = some entry →
    served.Read system.shared.log (slot + 1) entry
  stored : ∀ node, Stored Holds (heard node) (counts node) (system.shared.stores node).data
  engines : ∀ node engine, system.shared.engines node = some engine →
    LoopTells Holds Value (Asked enter system.calls node) (Landed served system.shared)
      (fun index => ∀ call, ¬ AppendsFor served system.shared call index) (heard node)
      (counts node) (system.shared.awaited node) engine
  awaits : ∀ node call, system.shared.awaited node = some call →
    Awaits rules system.shared node (counts node) call
  started : ∀ call index, system.shared.purpose call = some index →
    call < system.shared.log.calls.length
  once : ∀ call call' index, AppendsFor served system.shared call index →
    AppendsFor served system.shared call' index → call = call'
  sent : ∀ call index, AppendsFor served system.shared call index →
    ∃ op progress, system.calls[index]? = some ⟨op, progress⟩ ∧ Sent progress
  replies : ∀ index rv, system.shared.replies index = some (.ok (.returned rv)) →
    ∃ call progress, system.calls[index]? = some ⟨call, progress⟩ ∧
      OwnValue enter Value served system.shared heard counts index call rv
  calls : ∀ (index : Nat) (call : Node × EngineOp) (progress : Progress Future EngineResult),
    system.calls[index]? = some ⟨call, progress⟩ →
    progress.Holds (RunningOk enter call) fun result => ∀ rv, result = .ok (.returned rv) →
      OwnValue enter Value served system.shared heard counts index call rv

/-- The calls stay, and what was sent stays sent. -/
def Follows (calls calls' : History Node) : Prop :=
  ∀ (index : Nat) (call : Node × EngineOp) (progress : Progress Future EngineResult),
    calls[index]? = some ⟨call, progress⟩ →
    ∃ progress', calls'[index]? = some ⟨call, progress'⟩ ∧ (Sent progress → Sent progress')

/-- Nothing that was known of the log is lost. -/
structure Learns (servers servers' : Servers Node Memory Shared Op Fut)
    (heard heard' : Node → List Entry) (counts counts' : Node → Nat) : Prop where
  log : ServedLog.Keeps servers.log servers'.log
  purpose : ∀ call index, servers.purpose call = some index →
    servers'.purpose call = some index
  advanced : ∀ node, counts node ≤ counts' node
  kept : ∀ node, (heard' node).take (counts node) = (heard node).take (counts node)

/-- What a run adds to what is known, and what it leaves as it is. -/
structure Advances {served : ServedLog Node Shared Op Fut Event} (rules : LogRules served)
    (servers servers' : Servers Node Memory Shared Op Fut) (heard heard' : Node → List Entry)
    (counts counts' : Node → Nat) : Prop extends
    Learns servers servers' heard heard' counts counts' where
  placed : ∀ owner entry pos, rules.Placed servers.log owner entry pos →
    rules.Placed servers'.log owner entry pos
  purposes : ∀ call, call < servers.log.calls.length → servers'.purpose call = servers.purpose call

variable {enter : Node → Memory → EngineOp → Result EngineOp}
  {Holds : List Entry → StoreData → Prop} {Value : List Entry → Entry → ReturnValue → Prop}
  {served : ServedLog Node Shared Op Fut Event} {rules : LogRules served}
  {applicator : Applicator Memory Choice} {servers servers' : Servers Node Memory Shared Op Fut}
  {heard heard' : Node → List Entry} {counts counts' : Node → Nat}
  {system next : System (Servers Node Memory Shared Op Fut) (Node × EngineOp) Future EngineResult}
  {calls calls' : History Node} {index : Nat} {call : Node × EngineOp} {rv : ReturnValue}

/-- Neither the log nor what is known of it changes. -/
theorem Advances.still (log : servers'.log = servers.log) (purpose : servers'.purpose = servers.purpose) :
    Advances rules servers servers' heard heard counts counts where
  log := log ▸ .refl _
  purpose _ _ made := purpose ▸ made
  advanced _ := Nat.le_refl _
  kept _ := rfl
  placed _ _ _ there := log ▸ there
  purposes _ _ := congrFun purpose _

/-- A prefix of what a store had applied is known as it was. -/
theorem Learns.take (learns : Learns servers servers' heard heard' counts counts') {node : Node}
    {count : Nat} (inside : count ≤ counts node) :
    (heard' node).take count = (heard node).take count := by
  have kept := congrArg (List.take count) (learns.kept node)
  rw [List.take_take, List.take_take, Nat.min_eq_left inside] at kept
  exact kept

theorem Advances.trans {last : Servers Node Memory Shared Op Fut} {heard'' : Node → List Entry}
    {counts'' : Node → Nat} (before : Advances rules servers servers' heard heard' counts counts')
    (after : Advances rules servers' last heard' heard'' counts' counts'') :
    Advances rules servers last heard heard'' counts counts'' where
  log := before.log.trans after.log
  purpose _ _ made := after.purpose _ _ (before.purpose _ _ made)
  advanced node := Nat.le_trans (before.advanced node) (after.advanced node)
  kept node := (after.take (before.advanced node)).trans (before.kept node)
  placed _ _ _ there := after.placed _ _ _ (before.placed _ _ _ there)
  purposes call inside := (after.purposes call (Nat.lt_of_lt_of_le inside before.log.length_le)).trans
    (before.purposes call inside)

theorem Landed.learn (learns : Learns servers servers' heard heard' counts counts') {entry : Entry}
    {pos : Nat} (landed : Landed served servers index entry pos) :
    Landed served servers' index entry pos := by
  obtain ⟨call, op, purpose, asks, returned⟩ := landed
  exact ⟨call, op, learns.purpose _ _ purpose, asks, learns.log.returned _ _ _ returned⟩

theorem OwnValue.learn (learns : Learns servers servers' heard heard' counts counts')
    (own : OwnValue enter Value served servers heard counts index call rv) :
    OwnValue enter Value served servers' heard' counts' index call rv := by
  obtain ⟨entry, passes, slot, landed, before, given⟩ := own
  exact ⟨entry, passes, slot, landed.learn learns, Nat.lt_of_lt_of_le before (learns.advanced _),
    given.retake (learns.kept _) before⟩

theorem Asked.follow {node : Node} {request : EngineOp}
    (asked : Asked enter calls node index request) (follows : Follows calls calls') :
    Asked enter calls' node index request := by
  obtain ⟨op, progress, found, sent, passes⟩ := asked
  obtain ⟨progress', found', still⟩ := follows _ _ _ found
  exact ⟨op, progress', found', still sent, passes⟩

/-- An index is asked of one node. -/
theorem Asked.node_eq {node node' : Node} {request request' : EngineOp}
    (asked : Asked enter calls node index request)
    (asked' : Asked enter calls node' index request') : node = node' := by
  obtain ⟨_, _, found, -⟩ := asked
  obtain ⟨_, _, found', -⟩ := asked'
  cases Option.some.inj (found.symm.trans found')
  rfl

theorem follows_refl (calls : History Node) : Follows calls calls :=
  fun _ _ progress found => ⟨progress, found, id⟩

theorem follows_start (added : Call (Node × EngineOp) Future EngineResult) :
    Follows calls (calls ++ [added]) :=
  fun _ _ progress found =>
    ⟨progress, getElem?_of_longer (List.prefix_append _ _) found, id⟩

theorem follows_poll {future : Future} {progress : Progress Future EngineResult}
    (pending : system.Pending index call future) (sent : Sent (.running future) → Sent progress) :
    Follows system.calls (system.calls.set index ⟨call, progress⟩) := by
  intro other call' before found
  by_cases same : other = index
  · subst same
    cases Option.some.inj (found.symm.trans pending)
    exact ⟨progress, List.getElem?_set_self (List.getElem?_eq_some_iff.mp found).1, sent⟩
  · refine ⟨before, ?_, id⟩
    rw [List.getElem?_set_ne (fun equal => same equal.symm)]
    exact found

/-- Where the log only moves on, and no log call is given a new purpose, no request is
appended for. -/
theorem AppendsFor.earlier {other : Nat}
    (started : ∀ call index, servers.purpose call = some index → call < servers.log.calls.length)
    (keeps : ServedLog.Keeps servers.log servers'.log) (purpose : servers'.purpose = servers.purpose)
    (appends : AppendsFor served servers' other index) : AppendsFor served servers other index := by
  obtain ⟨made, op, found, isAppend⟩ := appends
  rw [purpose] at made
  refine ⟨made, op, ?_, isAppend⟩
  have inside := started _ _ made
  have held : other < servers.log.ops.length := by
    unfold System.ops
    rw [List.length_map]
    exact inside
  have before := List.getElem?_eq_getElem held
  rw [getElem?_of_longer keeps.ops before] at found
  rw [before]
  exact found

theorem Awaits.learn (learns : Learns servers servers' heard heard' counts counts')
    (placed : ∀ owner entry pos, rules.Placed servers.log owner entry pos →
      rules.Placed servers'.log owner entry pos) {node : Node} {count waiting : Nat}
    (engines : ∀ engine, servers.engines node = some engine → ∃ requests,
      servers'.engines node = some { engine with requests := requests })
    (awaits : Awaits rules servers node count waiting) : Awaits rules servers' node count waiting where
  asking := by
    obtain ⟨engine, index, op, asked, running, asking, purpose, found, same⟩ := awaits.asking
    obtain ⟨requests, running'⟩ := engines engine running
    exact ⟨_, index, op, asked, running', asking, learns.purpose _ _ purpose,
      getElem?_of_longer learns.log.ops found, same⟩
  older op found isAppend slot before := by
    obtain ⟨_, _, _, asked, _, _, _, held, _⟩ := awaits.asking
    have same : op = asked :=
      Option.some.inj (found.symm.trans (getElem?_of_longer learns.log.ops held))
    subst same
    obtain ⟨owner, entry, there, earlier⟩ := awaits.older op held isAppend slot before
    exact ⟨owner, entry, placed _ _ _ there, earlier⟩

theorem Knows.new (gives : applicator.Gives Holds Value) {shared : Shared}
    (initial : rules.Inv (.fresh shared)) :
    Knows enter Holds Value rules (.fresh (Servers.new shared : Servers Node Memory Shared Op Fut))
      (fun _ => []) fun _ => 0 where
  log := initial
  read _ _ _ impossible := by cases impossible
  stored _ := .new gives
  engines _ _ impossible := by cases impossible
  awaits _ _ impossible := by cases impossible
  started _ _ impossible := by cases impossible
  once _ _ _ impossible := by cases impossible.1
  sent _ _ impossible := by cases impossible.1
  replies _ _ impossible := by cases impossible
  calls _ _ _ impossible := by cases impossible

end Servers

end Relos
