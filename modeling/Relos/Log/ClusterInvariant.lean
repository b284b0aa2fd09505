import Relos.Log.Epochs
import Relos.Log.VirtualLog

set_option autoImplicit false

/-! The invariant of virtual logs over one MetaStore: the MetaStore history, the
possibly stale chain of every instance, and the final tails of the loglets that
back closed segments. Every chain in the system is an initial part of one list
of seal positions. -/

namespace Relos

open Async Epochs

variable {Node State Fut Event : Type} {component : LogletComponent State Fut Event}

namespace Cluster

def ends (cluster : Cluster Node State) : List Nat := closedEnds cluster.metaStore.chain

def epoch (cluster : Cluster Node State) (node : Node) : Nat :=
  (cluster.logs node).chain.segments.length - 1

def Holds (cluster : Cluster Node State) (node : Node) (logletId : String)
    (loglet : LogletRef) : Prop :=
  (cluster.logs node).loglets[logletId]? = some loglet

/-- The loglet backs this epoch of the instance's cached chain. -/
def Backs (initial : String) (cluster : Cluster Node State) (node : Node) (index : Nat)
    (loglet : LogletRef) : Prop :=
  index ≤ cluster.epoch node ∧ cluster.Holds node (idAt initial index) loglet

structure Inv (outline : LogletOutline component) (factory : Factory) (initial : String)
    (cluster : Cluster Node State) : Prop where
  chain : cluster.metaStore.chain = chainOf initial cluster.ends
  version : cluster.metaStore.version = cluster.ends.length
  installed : cluster.installed =
    (List.range (cluster.ends.length + 1)).map fun index => chainOf initial (cluster.ends.take index)
  ordered : Ordered cluster.ends
  heap : ∀ loglet, outline.Inv (cluster.heap loglet)
  cached : ∀ node, (cluster.logs node).chain =
    chainOf initial (cluster.ends.take (cluster.epoch node))
  epoch_le : ∀ node, cluster.epoch node ≤ cluster.ends.length
  version_le : ∀ node, (cluster.logs node).chainVersion ≤ cluster.epoch node
  known : ∀ node logletId loglet, cluster.Holds node logletId loglet →
    loglet.logletId = logletId ∧ (factory = .shared → loglet.serial = 0) ∧
      ∃ index, index ≤ cluster.ends.length ∧ logletId = idAt initial index
  covered : ∀ node index, index ≤ cluster.epoch node →
    ∃ loglet, cluster.Holds node (idAt initial index) loglet
  closed : ∀ index endPos, cluster.ends[index]? = some endPos →
    ∃ node loglet tail, cluster.Holds node (idAt initial index) loglet ∧
      outline.finalTail (cluster.heap loglet) = some tail ∧
      endPos = localToGlobal (startAt cluster.ends index) tail

/-- What the other calls of a cluster may do. -/
structure Grows (outline : LogletOutline component) (index : Nat)
    (cluster next : Cluster Node State) : Prop where
  ends : cluster.ends <+: next.ends
  loglets : ∀ node logletId loglet, cluster.Holds node logletId loglet →
    next.Holds node logletId loglet
  epoch : ∀ node, cluster.epoch node ≤ next.epoch node
  heap : ∀ loglet, outline.Rely index (cluster.heap loglet) (next.heap loglet)

variable {outline : LogletOutline component} {factory : Factory} {initial : String}
  {cluster next last : Cluster Node State} {index : Nat}

theorem Grows.refl (cluster : Cluster Node State) : cluster.Grows outline index cluster :=
  ⟨List.prefix_refl _, fun _ _ _ held => held, fun _ => Nat.le_refl _,
    fun _ => outline.rely_refl _ _⟩

theorem Grows.trans (first : cluster.Grows outline index next)
    (second : next.Grows outline index last) : cluster.Grows outline index last :=
  ⟨first.ends.trans second.ends, fun _ _ _ held => second.loglets _ _ _ (first.loglets _ _ _ held),
    fun node => Nat.le_trans (first.epoch node) (second.epoch node),
    fun loglet => outline.rely_trans (first.heap loglet) (second.heap loglet)⟩

theorem Backs.stable {node : Node} {epoch : Nat} {loglet : LogletRef}
    (grows : cluster.Grows outline index next) (backs : cluster.Backs initial node epoch loglet) :
    next.Backs initial node epoch loglet :=
  ⟨Nat.le_trans backs.1 (grows.epoch node), grows.loglets _ _ _ backs.2⟩

theorem Inv.epoch_eq (inv : cluster.Inv outline factory initial) (node : Node) :
    (cluster.ends.take (cluster.epoch node)).length = cluster.epoch node := by
  rw [List.length_take]
  exact Nat.min_eq_left (inv.epoch_le node)

theorem Inv.installed_eq_some (inv : cluster.Inv outline factory initial) {version : Nat}
    {chain : LogChain} : cluster.installed[version]? = some chain ↔
      version ≤ cluster.ends.length ∧ chain = chainOf initial (cluster.ends.take version) := by
  rw [inv.installed, List.getElem?_map]
  constructor
  · intro found
    obtain ⟨index, inside, rfl⟩ := Option.map_eq_some_iff.mp found
    obtain ⟨bound, same⟩ := List.getElem?_eq_some_iff.mp inside
    rw [List.getElem_range] at same
    rw [List.length_range] at bound
    subst same
    exact ⟨Nat.lt_succ_iff.mp bound, rfl⟩
  · rintro ⟨inside, rfl⟩
    rw [List.getElem?_range (Nat.lt_succ_of_le inside)]
    rfl

/-- Starts of epochs that an instance knows do not move. -/
theorem Grows.startAt (grows : cluster.Grows outline index next)
    (inv : cluster.Inv outline factory initial) {node : Node} {epoch : Nat}
    (inside : epoch ≤ cluster.epoch node) :
    Epochs.startAt next.ends epoch = Epochs.startAt cluster.ends epoch :=
  startAt_prefix grows.ends (Nat.le_trans inside (inv.epoch_le node))

/-- With one instance, or with a factory that shares loglets, an identifier
names one loglet throughout the cluster. -/
theorem Inv.agree (inv : cluster.Inv outline factory initial)
    (single : factory = .fresh → Subsingleton Node) {node other : Node} {logletId : String}
    {loglet loglet' : LogletRef} (held : cluster.Holds node logletId loglet)
    (held' : cluster.Holds other logletId loglet') : loglet = loglet' := by
  cases factory with
  | fresh =>
      have alone := single rfl
      have same : node = other := Subsingleton.elim node other
      subst same
      exact Option.some.inj (held.symm.trans held')
  | shared =>
      obtain ⟨named, first, _⟩ := inv.known node logletId loglet held
      obtain ⟨named', first', _⟩ := inv.known other logletId loglet' held'
      cases loglet
      cases loglet'
      exact LogletRef.mk.injEq .. ▸ ⟨named.trans named'.symm, (first rfl).trans (first' rfl).symm⟩

theorem Inv.new (outline : LogletOutline component) (factory : Factory) (initial : String)
    (state : State) (fresh : outline.Inv state) :
    (Cluster.new initial state : Cluster Node State).Inv outline factory initial where
  chain := rfl
  version := rfl
  installed := rfl
  ordered := .nil
  heap _ := fresh
  cached _ := rfl
  epoch_le _ := Nat.le_refl _
  version_le _ := Nat.le_refl _
  known := by
    intro node logletId loglet held
    unfold Holds Cluster.new at held
    rw [Std.ExtTreeMap.getElem?_insert] at held
    split at held
    · rename_i same
      cases held
      have named := Std.LawfulEqCmp.eq_of_compare same
      exact ⟨named, fun _ => rfl, 0, Nat.le_refl _, named.symm⟩
    · cases held
  covered := by
    intro node index inside
    have first : index = 0 := Nat.le_zero.mp inside
    subst first
    exact ⟨⟨initial, 0⟩, Std.ExtTreeMap.getElem?_insert_self⟩
  closed := by intro index endPos impossible; cases impossible

/-! ### The state changes of a poll -/

theorem Inv.setHeap (inv : cluster.Inv outline factory initial) {loglet : LogletRef} {state : State}
    (kept : outline.Inv state) (rely : ∀ other, other ≠ index →
      outline.Rely other (cluster.heap loglet) state) :
    (cluster.setHeap loglet state).Inv outline factory initial ∧
      ∀ other, other ≠ index → cluster.Grows outline other (cluster.setHeap loglet state) := by
  have heap : ∀ other, outline.Inv ((cluster.setHeap loglet state).heap other) := by
    intro other
    by_cases same : other = loglet
    · subst same
      simpa only [Cluster.setHeap, Function.update_self] using kept
    · simpa only [Cluster.setHeap, Function.update_of_ne same] using inv.heap other
  have grows : ∀ other, other ≠ index →
      cluster.Grows outline other (cluster.setHeap loglet state) := by
    intro other different
    refine ⟨List.prefix_refl _, fun _ _ _ held => held, fun _ => Nat.le_refl _, fun target => ?_⟩
    by_cases same : target = loglet
    · subst same
      simpa only [Cluster.setHeap, Function.update_self] using rely other different
    · simpa only [Cluster.setHeap, Function.update_of_ne same] using outline.rely_refl _ _
  refine ⟨⟨inv.chain, inv.version, inv.installed, inv.ordered, heap, inv.cached,
    inv.epoch_le, inv.version_le, inv.known, inv.covered, ?_⟩, grows⟩
  intro epoch endPos closed
  obtain ⟨node, backing, tail, held, final, same⟩ := inv.closed epoch endPos closed
  exact ⟨node, backing, tail, held, outline.finalTail_stable (inv.heap backing) (heap backing)
    ((grows (index + 1) (Nat.succ_ne_self index)).heap backing) final, same⟩

theorem Inv.create (inv : cluster.Inv outline factory initial) {logletId : String}
    {loglet : LogletRef} (created : cluster.create factory logletId = .ok (loglet, next)) :
    next.Inv outline factory initial ∧ (∀ index, cluster.Grows outline index next) ∧
      loglet.logletId = logletId ∧ (factory = .shared → loglet.serial = 0) := by
  unfold Cluster.create at created
  split at created
  · cases created
  · split at created
    · cases created
      exact ⟨⟨inv.chain, inv.version, inv.installed, inv.ordered, inv.heap,
        inv.cached, inv.epoch_le, inv.version_le, inv.known, inv.covered, inv.closed⟩,
        fun _ => ⟨List.prefix_refl _, fun _ _ _ held => held, fun _ => Nat.le_refl _,
          fun _ => outline.rely_refl _ _⟩, rfl, by intro impossible; cases impossible⟩
    · cases created
      exact ⟨inv, fun _ => .refl _, rfl, fun _ => rfl⟩

/-- The CAS closes the last epoch at the final tail of its sealed loglet. -/
theorem Inv.write (inv : cluster.Inv outline factory initial) {node : Node} {loglet : LogletRef}
    {sealPos tail : Nat} (backs : cluster.Backs initial node cluster.ends.length loglet)
    (final : outline.finalTail (cluster.heap loglet) = some tail)
    (atTail : sealPos = localToGlobal (startAt cluster.ends cluster.ends.length) tail) :
    let newChain := chainOf initial (cluster.ends ++ [sealPos])
    let next := { cluster with
      metaStore := { chain := newChain, version := cluster.metaStore.version + 1 }
      installed := cluster.installed ++ [newChain] }
    next.Inv outline factory initial ∧ (∀ index, cluster.Grows outline index next) ∧
      next.ends = cluster.ends ++ [sealPos] := by
  intro newChain next
  have endsEq : next.ends = cluster.ends ++ [sealPos] := closedEnds_chainOf
  have lengthEq : next.ends.length = cluster.ends.length + 1 := by
    rw [endsEq, List.length_append, List.length_singleton]
  have positive := outline.finalTail_pos (inv.heap loglet) final
  have takeEq : ∀ count, count ≤ cluster.ends.length →
      next.ends.take count = cluster.ends.take count := by
    intro count inside
    rw [endsEq, List.take_append_of_le_length inside]
  refine ⟨⟨?_, ?_, ?_, ?_, inv.heap, ?_, ?_, inv.version_le, ?_, inv.covered, ?_⟩,
    fun _ => ⟨?_, fun _ _ _ held => held, fun _ => Nat.le_refl _, fun _ => outline.rely_refl _ _⟩,
    endsEq⟩
  · rw [endsEq]
  · rw [lengthEq]
    exact congrArg Nat.succ inv.version
  · have last : chainOf initial (next.ends.take (cluster.ends.length + 1)) = newChain := by
      rw [List.take_of_length_le (Nat.le_of_eq lengthEq), endsEq]
    have earlier : (List.range (cluster.ends.length + 1)).map
          (fun index => chainOf initial (next.ends.take index)) = cluster.installed := by
      rw [inv.installed]
      apply List.map_congr_left
      intro count member
      rw [takeEq count (Nat.lt_succ_iff.mp (List.mem_range.mp member))]
    rw [lengthEq, List.range_succ, List.map_append, earlier, List.map_singleton, last]
  · rw [endsEq]
    refine inv.ordered.concat ?_
    rw [atTail]
    unfold localToGlobal
    simp only [logPosBegin] at positive
    omega
  · intro other
    change (cluster.logs other).chain = chainOf initial (next.ends.take (cluster.epoch other))
    rw [takeEq _ (inv.epoch_le other)]
    exact inv.cached other
  · intro other
    rw [lengthEq]
    exact Nat.le_succ_of_le (inv.epoch_le other)
  · intro other logletId known held
    obtain ⟨named, first, epoch, inside, same⟩ := inv.known other logletId known held
    exact ⟨named, first, epoch, by rw [lengthEq]; omega, same⟩
  · intro epoch endPos closed
    rw [endsEq] at closed
    have inside := (List.getElem?_eq_some_iff.mp closed).1
    rw [List.length_append, List.length_singleton] at inside
    rcases Nat.lt_succ_iff_lt_or_eq.mp inside with before | rfl
    · rw [List.getElem?_append_left before] at closed
      obtain ⟨other, backing, finalPos, held, sealedAt, same⟩ := inv.closed epoch endPos closed
      exact ⟨other, backing, finalPos, held, sealedAt, by
        rw [endsEq, startAt_append _ (Nat.le_of_lt before)]; exact same⟩
    · rw [List.getElem?_concat_length] at closed
      cases closed
      exact ⟨node, loglet, tail, backs.2, final, by
        rw [endsEq, startAt_append _ (Nat.le_refl _)]; exact atTail⟩
  · rw [endsEq]
    exact List.prefix_append _ _

variable [DecidableEq Node]

/-- An instance may move forward to any chain that the MetaStore has held, once
it holds the loglets of that chain. -/
theorem Inv.setLog (inv : cluster.Inv outline factory initial) (node : Node) (log : VirtualLog)
    {count : Nat} (chain : log.chain = chainOf initial (cluster.ends.take count))
    (inside : count ≤ cluster.ends.length) (forward : cluster.epoch node ≤ count)
    (version : log.chainVersion ≤ count)
    (kept : ∀ logletId loglet, cluster.Holds node logletId loglet →
      log.loglets[logletId]? = some loglet)
    (known : ∀ logletId loglet, log.loglets[logletId]? = some loglet →
      loglet.logletId = logletId ∧ (factory = .shared → loglet.serial = 0) ∧
        ∃ epoch, epoch ≤ cluster.ends.length ∧ logletId = idAt initial epoch)
    (covered : ∀ epoch, epoch ≤ count → ∃ loglet, log.loglets[idAt initial epoch]? = some loglet) :
    (cluster.setLog node log).Inv outline factory initial ∧
      (∀ index, cluster.Grows outline index (cluster.setLog node log)) ∧
      (cluster.setLog node log).epoch node = count := by
  have logEq : (cluster.setLog node log).logs node = log := Function.update_self ..
  have logNe : ∀ other, other ≠ node → (cluster.setLog node log).logs other = cluster.logs other :=
    fun other different => Function.update_of_ne different ..
  have epochEq : (cluster.setLog node log).epoch node = count := by
    unfold Cluster.epoch
    rw [logEq, chain, chainOf_length, List.length_take]
    omega
  have epochNe : ∀ other, other ≠ node →
      (cluster.setLog node log).epoch other = cluster.epoch other := by
    intro other different
    unfold Cluster.epoch
    rw [logNe other different]
  have holds : ∀ other searched found, cluster.Holds other searched found →
      (cluster.setLog node log).Holds other searched found := by
    intro other searched found held
    unfold Cluster.Holds
    by_cases same : other = node
    · subst same
      rw [logEq]
      exact kept searched found held
    · rw [logNe other same]
      exact held
  refine ⟨⟨inv.chain, inv.version, inv.installed, inv.ordered, inv.heap, ?_, ?_, ?_,
    ?_, ?_, ?_⟩, fun _ => ⟨List.prefix_refl _, holds, ?_, fun _ => outline.rely_refl _ _⟩, epochEq⟩
  · intro other
    by_cases same : other = node
    · subst same
      rw [epochEq, logEq]
      exact chain
    · rw [epochNe other same, logNe other same]
      exact inv.cached other
  · intro other
    by_cases same : other = node
    · subst same
      rw [epochEq]
      exact inside
    · rw [epochNe other same]
      exact inv.epoch_le other
  · intro other
    by_cases same : other = node
    · subst same
      rw [epochEq, logEq]
      exact version
    · rw [epochNe other same, logNe other same]
      exact inv.version_le other
  · intro other searched found held
    unfold Cluster.Holds at held
    by_cases same : other = node
    · subst same
      rw [logEq] at held
      exact known searched found held
    · rw [logNe other same] at held
      exact inv.known other searched found held
  · intro other epoch below
    unfold Cluster.Holds
    by_cases same : other = node
    · subst same
      rw [epochEq] at below
      rw [logEq]
      exact covered epoch below
    · rw [epochNe other same] at below
      rw [logNe other same]
      exact inv.covered other epoch below
  · intro epoch endPos closed
    obtain ⟨other, backing, tail, held, final, same⟩ := inv.closed epoch endPos closed
    exact ⟨other, backing, tail, holds _ _ _ held, final, same⟩
  · intro other
    by_cases same : other = node
    · subst same
      rw [epochEq]
      exact forward
    · exact Nat.le_of_eq (epochNe other same).symm

theorem Inv.insertLoglet (inv : cluster.Inv outline factory initial) {node : Node}
    {logletId : String} {loglet : LogletRef} (named : loglet.logletId = logletId)
    (first : factory = .shared → loglet.serial = 0)
    (known : ∃ epoch, epoch ≤ cluster.ends.length ∧ logletId = idAt initial epoch)
    (kept : ∀ held, cluster.Holds node logletId held → held = loglet) :
    (cluster.insertLoglet node logletId loglet).Inv outline factory initial ∧
      (∀ index, cluster.Grows outline index (cluster.insertLoglet node logletId loglet)) ∧
      (cluster.insertLoglet node logletId loglet).Holds node logletId loglet := by
  have inserted : ∀ searched, ((cluster.logs node).loglets.insert logletId loglet)[searched]? =
      if logletId = searched then some loglet else (cluster.logs node).loglets[searched]? := by
    intro searched
    rw [Std.ExtTreeMap.getElem?_insert]
    simp only [Std.compare_eq_iff_eq]
  have grown : ∀ searched found, cluster.Holds node searched found →
      ((cluster.logs node).loglets.insert logletId loglet)[searched]? = some found := by
    intro searched found held
    rw [inserted]
    split
    · rename_i same
      subst same
      rw [kept found held]
    · exact held
  obtain ⟨inv', grows, _⟩ := inv.setLog node
    { cluster.logs node with loglets := (cluster.logs node).loglets.insert logletId loglet }
    (inv.cached node) (inv.epoch_le node) (Nat.le_refl _) (inv.version_le node) grown
    (by
      intro searched found held
      rw [inserted] at held
      split at held
      · rename_i same
        subst same
        cases held
        exact ⟨named, first, known⟩
      · exact inv.known node searched found held)
    (by
      intro epoch below
      obtain ⟨found, held⟩ := inv.covered node epoch below
      exact ⟨found, grown _ _ held⟩)
  refine ⟨inv', grows, ?_⟩
  unfold Cluster.Holds Cluster.insertLoglet Cluster.setLog
  simp only [Function.update_self]
  rw [inserted, if_pos rfl]

theorem Inv.setChain (inv : cluster.Inv outline factory initial) {node : Node} {version : Nat}
    (inside : version ≤ cluster.ends.length) (forward : cluster.epoch node ≤ version)
    (covered : ∀ epoch, epoch ≤ version →
      ∃ loglet, cluster.Holds node (idAt initial epoch) loglet) :
    let next := cluster.setChain node (chainOf initial (cluster.ends.take version))
    next.Inv outline factory initial ∧ (∀ index, cluster.Grows outline index next) ∧
      next.epoch node = version :=
  inv.setLog node _ rfl inside forward (Nat.le_trans (inv.version_le node) forward)
    (fun _ _ held => held) (inv.known node) covered

theorem Inv.setVersion (inv : cluster.Inv outline factory initial) {node : Node} {version : Nat}
    (inside : version ≤ cluster.epoch node) :
    (cluster.setVersion node version).Inv outline factory initial ∧
      ∀ index, cluster.Grows outline index (cluster.setVersion node version) := by
  obtain ⟨inv', grows, _⟩ := inv.setLog node { cluster.logs node with chainVersion := version }
    (inv.cached node) (inv.epoch_le node) (Nat.le_refl _) inside (fun _ _ held => held)
    (inv.known node) (inv.covered node)
  exact ⟨inv', grows⟩

end Cluster

end Relos
