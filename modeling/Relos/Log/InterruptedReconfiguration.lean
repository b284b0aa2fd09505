import Relos.Log.FlatRefinement

set_option autoImplicit false

/-! A factory that fails leaves a reconfiguration half done: the MetaStore may hold a chain
that the instance has not cached. The next append takes it up again. -/

namespace Relos

open Async Epochs

namespace SoloLog

/-- What the cluster is once the instance has caught up with these ends. -/
def caughtUp (initial : String) (ends : List Nat) (cluster : SoloLog) : SoloLog :=
  { cluster with
    factoryError := none
    metaStore := { chain := chainOf initial ends, version := ends.length }
    logs := fun _ =>
      { chain := chainOf initial ends
        chainVersion := ends.length
        loglets := (cluster.logs ()).loglets } }

/-- The loglets hold the log, cut at these ends, and none has been created for later epochs. -/
structure Laid (initial : String) (cluster : SoloLog) (ends : List Nat) (log : FlatLog) : Prop where
  lays : Lays initial (caughtUp initial ends cluster) ends log
  missing : ∀ index, ends.length < index → (cluster.logs ()).loglets[idAt initial index]? = none

/-- The loglet of the last epoch is sealed, or is not. -/
def LastSealed (initial : String) (cluster : SoloLog) (ends : List Nat) (isSealed : Bool) : Prop :=
  ∀ loglet, Backing initial cluster ends.length loglet →
    (cluster.heap loglet).loglet.sealed = isSealed

def Stored (initial : String) (cluster : SoloLog) (ends : List Nat) : Prop :=
  cluster.metaStore = { chain := chainOf initial ends, version := ends.length }

/-- The MetaStore is one epoch ahead of the instance, which was to open it. -/
structure Behind (initial : String) (cluster : SoloLog) (ends : List Nat) (log : FlatLog) :
    Prop where
  stored : Stored initial cluster (ends ++ [log.tail])
  closed : LastSealed initial cluster ends true

/-- Where an instance can be between two calls. -/
structure Between (initial : String) (cluster : SoloLog) (ends : List Nat) (log : FlatLog) :
    Prop where
  laid : Laid initial cluster ends log
  chain : (cluster.logs ()).chain = chainOf initial ends
  version : (cluster.logs ()).chainVersion = ends.length
  stored : Stored initial cluster ends ∨ Behind initial cluster ends log

/-- The last epoch takes appends, whether or not the instance has cached the chain. -/
structure Opened (initial : String) (cluster : SoloLog) (ends : List Nat) (log : FlatLog) :
    Prop where
  laid : Laid initial cluster ends log
  stored : Stored initial cluster ends
  isOpen : LastSealed initial cluster ends false

/-- The cached chain, its version and the loglets are as they were. -/
structure Unchanged (first cluster : SoloLog) : Prop where
  logs : cluster.logs () = first.logs ()
  heap : cluster.heap = first.heap

/-- The clusters differ only in what no call of the instance sees. -/
structure Alike (cluster next : SoloLog) : Prop where
  logs : next.logs () = cluster.logs ()
  heap : next.heap = cluster.heap
  metaStore : next.metaStore = cluster.metaStore

variable {initial : String} {cluster next first : SoloLog} {ends : List Nat} {log : FlatLog}
  {loglet : LogletRef} {index : Nat} {op : LogletOp}

theorem Lays.caughtUp (lays : Lays initial cluster ends log)
    (loglets : (next.logs ()).loglets = (cluster.logs ()).loglets)
    (heap : next.heap = cluster.heap) : Lays initial (SoloLog.caughtUp initial ends next) ends log := by
  refine ⟨rfl, rfl, rfl, rfl, lays.ordered, lays.trimPoint, fun index inside => ?_,
    fun loglet strange => ?_⟩
  · obtain ⟨loglet, backing, part⟩ := lays.parts index inside
    refine ⟨loglet, ⟨?_, backing.named⟩, ?_⟩
    · change (next.logs ()).loglets[idAt initial index]? = some loglet
      rw [loglets]
      exact backing.held
    · change log.Part _ _ (next.heap loglet).loglet
      rw [heap]
      exact part
  · change (next.heap loglet).loglet = .new
    rw [heap]
    exact lays.untouched loglet strange

theorem Laid.of_same (laid : Laid initial cluster ends log)
    (loglets : (next.logs ()).loglets = (cluster.logs ()).loglets)
    (heap : next.heap = cluster.heap) : Laid initial next ends log := by
  refine ⟨laid.lays.caughtUp loglets heap, ?_⟩
  rw [loglets]
  exact laid.missing

theorem Backing.of_same (backing : Backing initial cluster index loglet)
    (loglets : (next.logs ()).loglets = (cluster.logs ()).loglets) :
    Backing initial next index loglet := by
  refine ⟨?_, backing.named⟩
  rw [loglets]
  exact backing.held

theorem LastSealed.of_same {isSealed : Bool} (last : LastSealed initial cluster ends isSealed)
    (loglets : (next.logs ()).loglets = (cluster.logs ()).loglets)
    (heap : next.heap = cluster.heap) : LastSealed initial next ends isSealed := by
  intro loglet backing
  rw [heap]
  exact last loglet (backing.of_same loglets.symm)

/-! ### What no call sees -/

theorem Alike.loglets (alike : Alike cluster next) :
    (next.logs ()).loglets = (cluster.logs ()).loglets :=
  congrArg VirtualLog.loglets alike.logs

theorem Stored.alike (stored : Stored initial cluster ends) (alike : Alike cluster next) :
    Stored initial next ends := alike.metaStore.trans stored

theorem Behind.alike (behind : Behind initial cluster ends log) (alike : Alike cluster next) :
    Behind initial next ends log :=
  ⟨behind.stored.alike alike, behind.closed.of_same alike.loglets alike.heap⟩

theorem Between.alike (between : Between initial cluster ends log) (alike : Alike cluster next) :
    Between initial next ends log where
  laid := between.laid.of_same alike.loglets alike.heap
  chain := (congrArg VirtualLog.chain alike.logs).trans between.chain
  version := (congrArg VirtualLog.chainVersion alike.logs).trans between.version
  stored := between.stored.imp (fun stored => stored.alike alike) fun behind => behind.alike alike

theorem Opened.alike (opened : Opened initial cluster ends log) (alike : Alike cluster next) :
    Opened initial next ends log where
  laid := opened.laid.of_same alike.loglets alike.heap
  stored := opened.stored.alike alike
  isOpen := opened.isOpen.of_same alike.loglets alike.heap

theorem Unchanged.alike (unchanged : Unchanged first cluster) (alike : Alike cluster next) :
    Unchanged first next :=
  ⟨alike.logs.trans unchanged.logs, alike.heap.trans unchanged.heap⟩

/-! ### What the calls do to the loglets -/

theorem Laid.new (foreign : ∀ index, initial ≠ generatedId (index + 1)) :
    Laid initial (Cluster.new initial .new) [] .new := by
  refine ⟨(Lays.new initial).caughtUp rfl rfl, fun index later => ?_⟩
  have different : initial ≠ idAt initial index := by
    intro same
    have equal : 0 = index := idAt_injective foreign same
    subst equal
    exact absurd later (Nat.lt_irrefl _)
  unfold Cluster.new
  dsimp only
  rw [Std.ExtTreeMap.getElem?_insert, if_neg fun same => different (Std.LawfulEqCmp.eq_of_compare same)]
  exact Std.ExtTreeMap.getElem?_empty

theorem Between.new (foreign : ∀ index, initial ≠ generatedId (index + 1)) :
    Between initial (Cluster.new initial .new) [] .new where
  laid := .new foreign
  chain := rfl
  version := rfl
  stored := Or.inl rfl

theorem Backing.unique {other : LogletRef} (backing : Backing initial cluster index loglet)
    (backing' : Backing initial cluster index other) : loglet = other :=
  Option.some.inj (backing.held.symm.trans backing'.held)

theorem Laid.backed (laid : Laid initial cluster ends log) (inside : index ≤ ends.length) :
    ∃ loglet, Backing initial cluster index loglet := by
  obtain ⟨loglet, backing, -⟩ := laid.lays.parts index inside
  exact ⟨loglet, backing.held, backing.named⟩

theorem Laid.part (laid : Laid initial cluster ends log) (inside : index ≤ ends.length)
    (backing : Backing initial cluster index loglet) :
    log.Part (startAt ends index) (ends[index]?.getD log.tail) (cluster.heap loglet).loglet := by
  obtain ⟨other, held, part⟩ := laid.lays.parts index inside
  have same : loglet = other := backing.unique ⟨held.held, held.named⟩
  rw [same]
  exact part

/-- The part of the log in the loglet that takes the appends. -/
theorem Laid.last (laid : Laid initial cluster ends log)
    (backing : Backing initial cluster ends.length loglet) :
    log.Part (activeStart ends) log.tail (cluster.heap loglet).loglet := by
  have part := laid.part (Nat.le_refl _) backing
  rw [open_limit] at part
  exact part

theorem Laid.append (foreign : ∀ index, initial ≠ generatedId (index + 1))
    (laid : Laid initial cluster ends log) (backing : Backing initial cluster ends.length loglet)
    (isOpen : (cluster.heap loglet).loglet.sealed = false) (index : Nat) (entry : Entry) :
    Laid initial (cluster.setHeap loglet ((cluster.heap loglet).call index (.append entry)).1) ends
      (log.next (.append entry)) :=
  ⟨laid.lays.append foreign ⟨backing.held, backing.named⟩ (laid.last backing) isOpen entry,
    laid.missing⟩

theorem Laid.seal (foreign : ∀ index, initial ≠ generatedId (index + 1))
    (laid : Laid initial cluster ends log) (backing : Backing initial cluster ends.length loglet)
    (index : Nat) :
    Laid initial (cluster.setHeap loglet ((cluster.heap loglet).call index .seal).1) ends log :=
  ⟨laid.lays.seal foreign ⟨backing.held, backing.named⟩ (laid.last backing) index, laid.missing⟩

theorem lastSealed_seal (backing : Backing initial cluster ends.length loglet) (index : Nat) :
    LastSealed initial (cluster.setHeap loglet ((cluster.heap loglet).call index .seal).1) ends
      true := by
  intro other backing'
  have same : loglet = other := backing.unique ⟨backing'.held, backing'.named⟩
  rw [← same, setHeap_self]
  rfl

/-- The loglet that a reconfiguration opens is new. -/
theorem Laid.opens (foreign : ∀ index, initial ≠ generatedId (index + 1))
    (laid : Laid initial cluster ends log) (serial : Nat) :
    Laid initial (cluster.insertLoglet () (idAt initial (ends.length + 1))
        ⟨idAt initial (ends.length + 1), serial⟩) (ends ++ [log.tail]) log ∧
      LastSealed initial (cluster.insertLoglet () (idAt initial (ends.length + 1))
        ⟨idAt initial (ends.length + 1), serial⟩) (ends ++ [log.tail]) false := by
  have length : (ends ++ [log.tail]).length = ends.length + 1 := List.length_append
  have loglets : ((cluster.insertLoglet () (idAt initial (ends.length + 1))
      ⟨idAt initial (ends.length + 1), serial⟩).logs ()).loglets =
        (cluster.logs ()).loglets.insert (idAt initial (ends.length + 1))
          ⟨idAt initial (ends.length + 1), serial⟩ := by
    unfold Cluster.insertLoglet
    rw [setLog_logs]
  have lays : Lays initial (caughtUp initial ends { cluster with nextSerial := serial }) ends log :=
    laid.lays.caughtUp rfl rfl
  constructor
  · constructor
    · refine (lays.reconfigured foreign).caughtUp ?_ rfl
      rw [loglets, reconfigured_logs]
      rfl
    · intro index later
      rw [length] at later
      have different : idAt initial (ends.length + 1) ≠ idAt initial index := by
        intro same
        have equal := idAt_injective foreign same
        omega
      rw [loglets, Std.ExtTreeMap.getElem?_insert,
        if_neg fun same => different (Std.LawfulEqCmp.eq_of_compare same)]
      exact laid.missing index (Nat.lt_of_succ_lt later)
  · intro loglet backing
    have held := backing.held
    rw [loglets, length, Std.ExtTreeMap.getElem?_insert_self] at held
    have empty : (cluster.heap loglet).loglet = .new := by
      rw [← Option.some.inj held]
      exact laid.lays.untouched _ (idAt_fresh foreign)
    change (cluster.heap loglet).loglet.sealed = false
    rw [empty]
    rfl

theorem Between.append (foreign : ∀ index, initial ≠ generatedId (index + 1))
    (between : Between initial cluster ends log) (backing : Backing initial cluster ends.length loglet)
    (isOpen : (cluster.heap loglet).loglet.sealed = false) (index : Nat) (entry : Entry) :
    Between initial (cluster.setHeap loglet ((cluster.heap loglet).call index (.append entry)).1) ends
      (log.next (.append entry)) := by
  refine ⟨between.laid.append foreign backing isOpen index entry, between.chain, between.version, ?_⟩
  rcases between.stored with stored | behind
  · exact Or.inl stored
  · have closed := behind.closed loglet backing
    rw [isOpen] at closed
    cases closed

theorem Between.seal (foreign : ∀ index, initial ≠ generatedId (index + 1))
    (between : Between initial cluster ends log) (backing : Backing initial cluster ends.length loglet)
    (index : Nat) :
    Between initial (cluster.setHeap loglet ((cluster.heap loglet).call index .seal).1) ends log :=
  ⟨between.laid.seal foreign backing index, between.chain, between.version,
    between.stored.imp_right fun behind => ⟨behind.stored, lastSealed_seal backing index⟩⟩

/-- A seal of a sealed loglet does nothing. -/
theorem seal_again (index : Nat) (isSealed : (cluster.heap loglet).loglet.sealed = true) :
    cluster.setHeap loglet ((cluster.heap loglet).call index .seal).1 = cluster := by
  have same : ((cluster.heap loglet).call index .seal).1 = cluster.heap loglet := by
    cases held : cluster.heap loglet with
    | mk inner written =>
        cases inner
        rw [held] at isSealed
        cases isSealed
        rfl
  rw [same, setHeap_same]

/-- The instance holds the loglets of the epochs that it has cached, and no other. -/
theorem Between.holds (between : Between initial cluster ends log) :
    (cluster.logs ()).loglets.contains (idAt initial index) = true ↔ index ≤ ends.length := by
  rw [Std.ExtTreeMap.contains_eq_isSome_getElem?]
  constructor
  · intro held
    by_cases later : ends.length < index
    · rw [between.laid.missing index later] at held
      cases held
    · exact Nat.not_lt.mp later
  · intro known
    obtain ⟨loglet, backing⟩ := between.laid.backed known
    rw [backing.held]
    rfl

theorem Opened.setLog (opened : Opened initial cluster ends log) {cached : VirtualLog}
    (same : cached.loglets = (cluster.logs ()).loglets) :
    Opened initial (cluster.setLog () cached) ends log := by
  have loglets : ((cluster.setLog () cached).logs ()).loglets = (cluster.logs ()).loglets := by
    rw [setLog_logs, same]
  exact ⟨opened.laid.of_same loglets rfl, opened.stored, opened.isOpen.of_same loglets rfl⟩

theorem create_fails {error : RelosError} (failing : cluster.factoryError = some error)
    (logletId : String) : cluster.create .fresh logletId = .error error := by
  unfold Cluster.create
  rw [failing]

end SoloLog

end Relos
