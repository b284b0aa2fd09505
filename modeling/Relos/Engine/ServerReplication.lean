import Relos.Engine.ServerSteps

set_option autoImplicit false

/-! Replication and propose results over a log in which every position belongs to one call. -/

namespace Relos

open Async Serial BaseEngine

variable {Node Memory Choice Shared Op Fut Event : Type}

namespace Servers

/-- What the servers have in common with their log, by the entries that each store holds. -/
structure Replicated (served : ServedLog Node Shared Op Fut Event)
    (machine : Replay.StateMachine Entry StoreData ReturnValue)
    (servers : Servers Node Memory Shared Op Fut) (applied : Node → List Entry) : Prop where
  cursor : ∀ node, persistedCursor (servers.stores node) = .ok ((applied node).length + 1)
  store : ∀ node, machine.replay logPosBegin (applied node) = some (servers.stores node).data
  read : ∀ node (slot : Nat) entry, (applied node)[slot]? = some entry →
    served.Read servers.log (slot + 1) entry
  ordered : ∀ node node', (applied node).length ≤ (applied node').length →
    applied node <+: applied node'
  agree : ∀ node node', persistedCursor (servers.stores node) =
    persistedCursor (servers.stores node') → servers.stores node = servers.stores node'

/-- The propose appended its entry once, at `pos`, and every store that has come past it
holds the entry there, with the value that was returned. -/
structure ReturnsOwn (served : ServedLog Node Shared Op Fut Event)
    (applicator : Applicator Memory Choice)
    (machine : Replay.StateMachine Entry StoreData ReturnValue)
    (servers : Servers Node Memory Shared Op Fut) (applied : Node → List Entry)
    (index : Nat) (node : Node) (entry : Entry) (value : ReturnValue) (pos : Nat) : Prop where
  once : ∃ call, (∀ other, AppendsFor served servers other index ↔ other = call) ∧
    ∃ op, served.asks op = .append entry ∧ servers.log.Returned call op (.ok (.pos pos))
  committed : logPosBegin ≤ pos ∧ pos ≤ (applied node).length
  everywhere : ∀ other, pos ≤ (applied other).length →
    (applied other)[pos - logPosBegin]? = some entry ∧
      applicator.Returns machine ((applied other).take (pos - logPosBegin)) entry value

variable {served : ServedLog Node Shared Op Fut Event} {rules : LogRules served}
  {applicator : Applicator Memory Choice}
  {machine : Replay.StateMachine Entry StoreData ReturnValue}
  {enter : Node → Memory → EngineOp → Result EngineOp}
  {system : System (Servers Node Memory Shared Op Fut) (Node × EngineOp) Future EngineResult}
  {Holds : List Entry → StoreData → Prop} {Value : List Entry → Entry → ReturnValue → Prop}
  {heard : Node → List Entry} {counts : Node → Nat}

theorem Landed.appendsFor {servers : Servers Node Memory Shared Op Fut} {index pos : Nat}
    {entry : Entry} (landed : Landed served servers index entry pos) :
    ∃ call op, AppendsFor served servers call index ∧ served.asks op = .append entry ∧
      servers.log.Returned call op (.ok (.pos pos)) := by
  obtain ⟨call, op, made, asks, returned⟩ := landed
  refine ⟨call, op, ⟨made, op, ?_, ?_⟩, asks, returned⟩
  · unfold System.Returned at returned
    unfold System.ops
    rw [List.getElem?_map, returned]
    rfl
  · rw [asks]
    trivial

/-- The entries that the store of a node holds. -/
def appliedBy (heard : Node → List Entry) (counts : Node → Nat) (node : Node) : List Entry :=
  (heard node).take (counts node)

theorem take_appliedBy {node : Node} {count : Nat} (inside : count ≤ counts node) :
    (appliedBy heard counts node).take count = (heard node).take count := by
  unfold appliedBy
  rw [List.take_take, Nat.min_eq_left inside]

theorem getElem?_appliedBy {node : Node} {slot : Nat} (inside : slot < counts node) :
    (appliedBy heard counts node)[slot]? = (heard node)[slot]? :=
  List.getElem?_take_of_lt inside

theorem Knows.appliedBy_length (knows : Knows enter Holds Value rules system heard counts)
    (node : Node) : (appliedBy heard counts node).length = counts node := by
  unfold appliedBy
  rw [List.length_take]
  exact Nat.min_eq_left (knows.stored node).applied.inside

theorem Knows.appliedBy_read (knows : Knows enter Holds Value rules system heard counts)
    {node : Node} {slot : Nat} {entry : Entry}
    (found : (appliedBy heard counts node)[slot]? = some entry) :
    served.Read system.shared.log (slot + 1) entry := by
  have inside := (List.getElem?_eq_some_iff.mp found).1
  rw [knows.appliedBy_length] at inside
  rw [getElem?_appliedBy inside] at found
  exact knows.read node slot entry found

/-- A position has one entry, whoever reads it. -/
theorem Knows.read_unique (knows : Knows enter Holds Value rules system heard counts) {pos : Nat}
    {entry entry' : Entry} (read : served.Read system.shared.log pos entry)
    (read' : served.Read system.shared.log pos entry') : entry = entry' := by
  obtain ⟨_, _, asks, returned⟩ := read
  obtain ⟨_, _, asks', returned'⟩ := read'
  obtain ⟨_, placed⟩ := rules.read knows.log returned asks
  obtain ⟨_, placed'⟩ := rules.read knows.log returned' asks'
  exact (rules.unique knows.log placed placed').2

theorem Knows.ordered (knows : Knows enter Holds Value rules system heard counts) {node node' : Node}
    (shorter : (appliedBy heard counts node).length ≤ (appliedBy heard counts node').length) :
    appliedBy heard counts node <+: appliedBy heard counts node' := by
  refine List.prefix_iff_getElem?.mpr fun slot inside => ?_
  have inside' : slot < (appliedBy heard counts node').length := Nat.lt_of_lt_of_le inside shorter
  have read := knows.appliedBy_read (List.getElem?_eq_getElem inside)
  have read' := knows.appliedBy_read (List.getElem?_eq_getElem inside')
  rw [List.getElem?_eq_getElem inside', knows.read_unique read read']

/-- Up to a position that both stores hold, they hold the same. -/
theorem Knows.take_eq (knows : Knows enter Holds Value rules system heard counts) {node other : Node}
    {count : Nat} (inside : count ≤ (appliedBy heard counts node).length)
    (inside' : count ≤ (appliedBy heard counts other).length) :
    (appliedBy heard counts other).take count = (appliedBy heard counts node).take count := by
  rcases Nat.le_total (appliedBy heard counts node).length (appliedBy heard counts other).length
    with shorter | shorter
  · exact take_of_longer (knows.ordered shorter) inside
  · exact (take_of_longer (knows.ordered shorter) inside').symm

theorem Knows.storesAgree
    (knows : Knows enter (fun entries data => machine.replay logPosBegin entries = some data) Value
      rules system heard counts)
    (few : system.shared.log.calls.length + 1 < 2 ^ 64) :
    Replicated served machine system.shared (appliedBy heard counts) := by
  have cursor : ∀ node, persistedCursor (system.shared.stores node) =
      .ok ((appliedBy heard counts node).length + 1) := by
    intro node
    have stored := knows.stored node
    have length := ServedLog.length_le_of_read (knows.read node)
    have inside := stored.applied.inside
    rw [knows.appliedBy_length]
    exact stored.persistedCursor (by omega)
  have store : ∀ node, machine.replay logPosBegin (appliedBy heard counts node) =
    some (system.shared.stores node).data := fun node => (knows.stored node).holds
  refine ⟨cursor, store, fun node slot entry => knows.appliedBy_read,
    fun node node' => knows.ordered, fun node node' same => ?_⟩
  rw [cursor, cursor] at same
  have length := Nat.succ.inj (Except.ok.inj same)
  have equal := (knows.ordered (Nat.le_of_eq length)).eq_of_length length
  have data := store node
  rw [equal, store node'] at data
  cases left : system.shared.stores node
  cases right : system.shared.stores node'
  rw [left, right] at data
  exact congrArg MemoryStore.mk (Option.some.inj data).symm

theorem Knows.returnsOwn
    (knows : Knows Replicas.direct Holds (applicator.Returns machine) rules system heard counts)
    {index : Nat} {node : Node} {entry : Entry} {value : ReturnValue}
    (returned : system.Returned index (node, .propose entry) (.ok (.returned value))) :
    ∃ pos, ReturnsOwn served applicator machine system.shared (appliedBy heard counts) index node
      entry value pos := by
  obtain ⟨_, ⟨_, passes⟩, slot, landed, before, given⟩ := knows.calls _ _ _ returned value rfl
  cases passes
  obtain ⟨call, op, appends, asks, answered⟩ := landed.appendsFor
  obtain ⟨entry', found, returns⟩ := given
  have own := rules.appended knows.log answered asks
  have committed : slot + 1 ≤ (appliedBy heard counts node).length := by
    rw [knows.appliedBy_length]
    exact before
  -- What was read at this position is the entry that was placed there.
  have placed : ∀ {other found}, (appliedBy heard counts other)[slot]? = some found →
      found = entry := by
    intro other found present
    obtain ⟨_, _, reads, read⟩ := knows.appliedBy_read present
    obtain ⟨_, there⟩ := rules.read knows.log read reads
    exact (rules.unique knows.log there own).2
  have same : entry' = entry := by
    refine @placed node entry' ?_
    rw [getElem?_appliedBy before]
    exact found
  subst same
  refine ⟨slot + 1, ⟨call, fun other => ⟨fun also => knows.once _ _ _ also appends, ?_⟩, op, asks,
    answered⟩, ⟨Nat.le_add_left _ _, committed⟩, fun other past => ?_⟩
  · rintro rfl
    exact appends
  · have inside : slot < (appliedBy heard counts other).length := past
    have present := List.getElem?_eq_getElem inside
    refine ⟨present.trans (congrArg some (placed present)), ?_⟩
    have shared : (appliedBy heard counts other).take slot = (heard node).take slot := by
      rw [knows.take_eq (Nat.le_of_succ_le committed) (Nat.le_of_lt inside)]
      exact take_appliedBy (Nat.le_of_lt before)
    change applicator.Returns machine ((appliedBy heard counts other).take slot) entry' value
    rw [shared]
    exact returns

/-- Every propose that returned has returned the value of its own entry, and no two of them
share a position. -/
structure Answered (served : ServedLog Node Shared Op Fut Event)
    (applicator : Applicator Memory Choice)
    (machine : Replay.StateMachine Entry StoreData ReturnValue)
    (system : System (Servers Node Memory Shared Op Fut) (Node × EngineOp) Future EngineResult)
    (applied : Node → List Entry) : Prop where
  own : ∀ index node entry value,
    system.Returned index (node, .propose entry) (.ok (.returned value)) →
    ∃ pos, ReturnsOwn served applicator machine system.shared applied index node entry value pos
  apart : ∀ index index' node node' entry entry' value value' pos,
    ReturnsOwn served applicator machine system.shared applied index node entry value pos →
    ReturnsOwn served applicator machine system.shared applied index' node' entry' value' pos →
    index = index'

theorem Knows.returnsOwn_apart (knows : Knows enter Holds Value rules system heard counts)
    {index index' : Nat} {node node' : Node} {entry entry' : Entry} {value value' : ReturnValue}
    {applied : Node → List Entry} {pos : Nat}
    (own : ReturnsOwn served applicator machine system.shared applied index node entry value pos)
    (own' : ReturnsOwn served applicator machine system.shared applied index' node' entry' value'
      pos) : index = index' := by
  obtain ⟨call, appends, op, asks, returned⟩ := own.once
  obtain ⟨call', appends', op', asks', returned'⟩ := own'.once
  have same := (rules.unique knows.log (rules.appended knows.log returned asks)
    (rules.appended knows.log returned' asks')).1
  subst same
  have made := ((appends call).mpr rfl).1
  have made' := ((appends' call).mpr rfl).1
  exact Option.some.inj (made.symm.trans made')

theorem Knows.answered
    (knows : Knows Replicas.direct Holds (applicator.Returns machine) rules system heard counts) :
    Answered served applicator machine system (appliedBy heard counts) where
  own _ _ _ _ := knows.returnsOwn
  apart _ _ _ _ _ _ _ _ _ := knows.returnsOwn_apart

end Servers

end Relos
