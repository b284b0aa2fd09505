import Relos.Log.FlatLog
import Relos.Log.VirtualLog

set_option autoImplicit false

/-! A virtual log over memory loglets, one call at a time, is the flat log, wherever
it was sealed. -/

namespace Relos

open Async Epochs

/-- One virtual log and its memory loglets. -/
abbrev SoloLog := Cluster Unit TrackedLoglet

abbrev soloComponent :
    Component SoloLog (Unit × LogletOp) (VirtualLog.Future Unit) LogletResult (ClusterEvent Unit Empty) :=
  virtualLogComponent .fresh memoryComponent

/-- The flat log under the calls of the instance. -/
def flatSpec : Sequential FlatLog (Unit × LogletOp) LogletResult where
  next log call := log.next call.2
  Allowed log call := log.Allowed call.2
  Answers log call := log.Answers call.2

instance (log : FlatLog) (call : Unit × LogletOp) : Decidable (flatSpec.Allowed log call) :=
  inferInstanceAs (Decidable (log.Allowed call.2))

namespace SoloLog

/-- The entries that these calls have appended. -/
def acknowledged (calls : List (Call (Unit × LogletOp) (VirtualLog.Future Unit) LogletResult)) :
    List Entry :=
  calls.filterMap fun call =>
    match call with
    | ⟨(_, .append entry), .finished (.ok _)⟩ => some entry
    | _ => none

/-- The loglet of an epoch. -/
structure Backing (initial : String) (cluster : SoloLog) (index : Nat) (loglet : LogletRef) :
    Prop where
  held : (cluster.logs ()).loglets[idAt initial index]? = some loglet
  named : loglet.logletId = idAt initial index

/-- The chain cuts the flat log, and each loglet holds its part. -/
structure Lays (initial : String) (cluster : SoloLog) (ends : List Nat) (log : FlatLog) :
    Prop where
  working : cluster.factoryError = none
  metaStore : cluster.metaStore = { chain := chainOf initial ends, version := ends.length }
  chain : (cluster.logs ()).chain = chainOf initial ends
  version : (cluster.logs ()).chainVersion = ends.length
  ordered : Ordered ends
  trimPoint : log.trimPoint ≤ log.tail
  parts : ∀ index, index ≤ ends.length → ∃ loglet, Backing initial cluster index loglet ∧
    log.Part (startAt ends index) (ends[index]?.getD log.tail) (cluster.heap loglet).loglet
  untouched : ∀ loglet, (∀ index, index ≤ ends.length → loglet.logletId ≠ idAt initial index) →
    (cluster.heap loglet).loglet = .new

theorem Lays.new (initial : String) : Lays initial (Cluster.new initial .new) [] .new where
  working := rfl
  metaStore := rfl
  chain := rfl
  version := rfl
  ordered := .nil
  trimPoint := Nat.le_refl _
  parts := by
    intro index inside
    cases Nat.le_zero.mp inside
    refine ⟨⟨initial, 0⟩, ⟨Std.ExtTreeMap.getElem?_insert_self, rfl⟩, ?_⟩
    exact FlatLog.Part.new (Nat.le_refl _)
  untouched _ _ := rfl

variable {initial : String} {cluster : SoloLog} {ends : List Nat} {log : FlatLog} {index : Nat}

/-- The instance runs a call of its own to the end. -/
abbrev Completes (index : Nat) (op : LogletOp) (cluster : SoloLog)
    (future : VirtualLog.Future Unit) (last : SoloLog) (result : LogletResult) : Prop :=
  soloComponent.Completes (fun _ => False) index ((), op) cluster future last result

theorem completes_running {op : LogletOp} {future : VirtualLog.Future Unit} {last : SoloLog}
    {result : LogletResult} (middle : SoloLog) (later : VirtualLog.Future Unit)
    (polled : VirtualLog.poll .fresh memoryComponent cluster index ((), op) future =
      some (middle, .running later)) (rest : Completes index op middle later last result) :
    Completes index op cluster future last result :=
  .running polled rest

theorem completes_active {op : LogletOp} (caller : VirtualLog.Caller) {loglet : LogletRef}
    {last : SoloLog} {result : LogletResult} (lays : Lays initial cluster ends log)
    (backing : Backing initial cluster ends.length loglet)
    (rest : Completes index op cluster
      (caller.proceed memoryComponent op loglet (startAt ends ends.length)) last result) :
    Completes index op cluster (.activeChain caller) last result := by
  refine completes_running cluster (.activeLoglet caller (startAt ends ends.length)
    (idAt initial ends.length)) ?_ (completes_running cluster _ ?_ rest)
  · dsimp only [VirtualLog.poll]
    rw [lays.chain, activeSegment_chainOf]
    rfl
  · dsimp only [VirtualLog.poll]
    rw [backing.held]
    rfl

/-! ### What the calls do to the loglets -/

theorem setHeap_self {loglet : LogletRef} {state : TrackedLoglet} :
    (cluster.setHeap loglet state).heap loglet = state :=
  Function.update_self ..

theorem setHeap_of_ne {loglet other : LogletRef} {state : TrackedLoglet}
    (different : other ≠ loglet) : (cluster.setHeap loglet state).heap other = cluster.heap other :=
  Function.update_of_ne different ..

theorem setHeap_same {loglet : LogletRef} : cluster.setHeap loglet (cluster.heap loglet) = cluster := by
  unfold Cluster.setHeap
  rw [Function.update_eq_self]

theorem Backing.setHeap {loglet other : LogletRef} {state : TrackedLoglet}
    (backing : Backing initial cluster index loglet) :
    Backing initial (cluster.setHeap other state) index loglet :=
  ⟨backing.held, backing.named⟩

/-- One loglet changes and with it the log. -/
theorem Lays.setHeap (foreign : ∀ index, initial ≠ generatedId (index + 1))
    (lays : Lays initial cluster ends log) (inside : index ≤ ends.length) {loglet : LogletRef}
    (backing : Backing initial cluster index loglet) {state : TrackedLoglet} {log' : FlatLog}
    (trimPoint : log'.trimPoint ≤ log'.tail)
    (here : log'.Part (startAt ends index) (ends[index]?.getD log'.tail) state.loglet)
    (others : ∀ other part, other ≤ ends.length → other ≠ index →
      log.Part (startAt ends other) (ends[other]?.getD log.tail) part →
        log'.Part (startAt ends other) (ends[other]?.getD log'.tail) part) :
    Lays initial (cluster.setHeap loglet state) ends log' := by
  refine ⟨lays.working, lays.metaStore, lays.chain, lays.version, lays.ordered, trimPoint, ?_, ?_⟩
  · intro other bound
    by_cases same : other = index
    · subst same
      refine ⟨loglet, backing.setHeap, ?_⟩
      rw [setHeap_self]
      exact here
    · obtain ⟨found, held, part⟩ := lays.parts other bound
      have different : found ≠ loglet := by
        intro equal
        have ids := held.named.symm.trans ((congrArg LogletRef.logletId equal).trans backing.named)
        exact same (idAt_injective foreign ids)
      refine ⟨found, held.setHeap, ?_⟩
      rw [setHeap_of_ne different]
      exact others other _ bound same part
  · intro found strange
    have different : found ≠ loglet := by
      intro equal
      exact strange index inside ((congrArg LogletRef.logletId equal).trans backing.named)
    rw [setHeap_of_ne different]
    exact lays.untouched found strange

theorem open_limit : ends[ends.length]?.getD log.tail = log.tail := by
  rw [List.getElem?_eq_none (Nat.le_refl _)]
  rfl

theorem closed_limit (inside : index < ends.length) (limit limit' : Nat) :
    ends[index]?.getD limit = ends[index]?.getD limit' := by
  rw [List.getElem?_eq_getElem inside]
  rfl

/-- The loglet that takes the appends. -/
theorem Lays.active (lays : Lays initial cluster ends log) :
    ∃ loglet, Backing initial cluster ends.length loglet ∧
      log.Part (startAt ends ends.length) log.tail (cluster.heap loglet).loglet := by
  obtain ⟨loglet, backing, part⟩ := lays.parts _ (Nat.le_refl _)
  rw [open_limit] at part
  exact ⟨loglet, backing, part⟩

theorem Lays.seal (foreign : ∀ index, initial ≠ generatedId (index + 1))
    (lays : Lays initial cluster ends log) {loglet : LogletRef}
    (backing : Backing initial cluster ends.length loglet)
    (part : log.Part (startAt ends ends.length) log.tail (cluster.heap loglet).loglet) (index : Nat) :
    Lays initial (cluster.setHeap loglet ((cluster.heap loglet).call index .seal).1) ends log := by
  refine lays.setHeap foreign (Nat.le_refl _) backing lays.trimPoint ?_ fun _ _ _ _ part => part
  rw [open_limit]
  exact part.of_seal true

theorem Lays.append (foreign : ∀ index, initial ≠ generatedId (index + 1))
    (lays : Lays initial cluster ends log) {loglet : LogletRef}
    (backing : Backing initial cluster ends.length loglet)
    (part : log.Part (startAt ends ends.length) log.tail (cluster.heap loglet).loglet)
    (isOpen : (cluster.heap loglet).loglet.sealed = false) (entry : Entry) :
    Lays initial (cluster.setHeap loglet ((cluster.heap loglet).call index (.append entry)).1) ends
      (log.next (.append entry)) := by
  have grown := part.append entry
  refine lays.setHeap foreign (Nat.le_refl _) backing grown.trimPoint ?_ ?_
  · rw [open_limit, TrackedLoglet.append_open isOpen]
    exact grown
  · intro other held bound different part
    rw [closed_limit (Nat.lt_of_le_of_ne bound different) _ log.tail]
    exact part.grow entry

/-! ### Reconfiguration -/

/-- What a reconfiguration leaves behind. -/
def reconfigured (cluster : SoloLog) (newChain : LogChain) (newLogletId : String) : SoloLog :=
  let written : SoloLog := { cluster with
    metaStore := { chain := newChain, version := cluster.metaStore.version + 1 }
    installed := cluster.installed ++ [newChain]
    nextSerial := cluster.nextSerial + 1 }
  ((written.insertLoglet () newLogletId ⟨newLogletId, cluster.nextSerial⟩).setChain ()
    newChain).setVersion () ((cluster.logs ()).chainVersion + 1)

theorem reconfigured_logs (newChain : LogChain) (newLogletId : String) :
    (reconfigured cluster newChain newLogletId).logs () =
      { chain := newChain
        chainVersion := (cluster.logs ()).chainVersion + 1
        loglets := (cluster.logs ()).loglets.insert newLogletId ⟨newLogletId, cluster.nextSerial⟩ } := by
  simp only [reconfigured, Cluster.insertLoglet, Cluster.setChain, Cluster.setVersion, Cluster.setLog,
    Function.update_self]

theorem idAt_fresh (foreign : ∀ index, initial ≠ generatedId (index + 1)) (index : Nat)
    (inside : index ≤ ends.length) : idAt initial (ends.length + 1) ≠ idAt initial index := by
  intro same
  have equal := idAt_injective foreign same
  omega

/-- The loglet that a reconfiguration opens. -/
theorem Lays.reconfigured_fresh (foreign : ∀ index, initial ≠ generatedId (index + 1))
    (lays : Lays initial cluster ends log) {newChain : LogChain} {loglet : LogletRef}
    (backing : Backing initial (SoloLog.reconfigured cluster newChain (idAt initial (ends.length + 1)))
      (ends.length + 1) loglet) :
    ((SoloLog.reconfigured cluster newChain (idAt initial (ends.length + 1))).heap loglet).loglet =
      .new := by
  have held := backing.held
  rw [reconfigured_logs] at held
  dsimp only at held
  rw [Std.ExtTreeMap.getElem?_insert_self] at held
  rw [← Option.some.inj held]
  exact lays.untouched _ (idAt_fresh foreign)

theorem Lays.reconfigured (foreign : ∀ index, initial ≠ generatedId (index + 1))
    (lays : Lays initial cluster ends log) :
    Lays initial (SoloLog.reconfigured cluster (chainOf initial (ends ++ [log.tail]))
      (idAt initial (ends.length + 1))) (ends ++ [log.tail]) log := by
  have length : (ends ++ [log.tail]).length = ends.length + 1 := List.length_append
  have newId : ∀ index, index ≤ ends.length →
      idAt initial (ends.length + 1) ≠ idAt initial index := idAt_fresh foreign
  obtain ⟨last, -, part⟩ := lays.active
  refine ⟨lays.working, ?_, ?_, ?_, ?_, lays.trimPoint, ?_, ?_⟩
  · rw [length]
    exact congrArg (MemoryMetaStore.mk _) (congrArg (·.version + 1) lays.metaStore)
  · rw [reconfigured_logs]
  · rw [reconfigured_logs, length]
    exact congrArg (· + 1) lays.version
  · refine lays.ordered.concat ?_
    have tail := part.length
    omega
  · intro index inside
    rw [length] at inside
    rcases Nat.lt_succ_iff_lt_or_eq.mp (Nat.lt_succ_of_le inside) with earlier | rfl
    · have bound := Nat.lt_succ_iff.mp earlier
      obtain ⟨loglet, backing, part⟩ := lays.parts index bound
      refine ⟨loglet, ⟨?_, backing.named⟩, ?_⟩
      · rw [reconfigured_logs]
        dsimp only
        rw [Std.ExtTreeMap.getElem?_insert, if_neg fun same => newId index bound
          (Std.LawfulEqCmp.eq_of_compare same)]
        exact backing.held
      · rw [startAt_append [log.tail] bound]
        rcases Nat.lt_or_eq_of_le bound with closed | rfl
        · rw [List.getElem?_append_left closed]
          exact part
        · rw [List.getElem?_concat_length, Option.getD_some]
          rw [open_limit] at part
          exact part
    · refine ⟨⟨idAt initial (ends.length + 1), cluster.nextSerial⟩, ⟨?_, rfl⟩, ?_⟩
      · rw [reconfigured_logs]
        exact Std.ExtTreeMap.getElem?_insert_self
      · have fresh : (cluster.heap ⟨idAt initial (ends.length + 1), cluster.nextSerial⟩).loglet = .new :=
          lays.untouched _ newId
        rw [startAt_succ List.getElem?_concat_length, List.getElem?_eq_none (Nat.le_of_eq length)]
        change log.Part log.tail log.tail (cluster.heap _).loglet
        rw [fresh]
        exact FlatLog.Part.new lays.trimPoint
  · intro loglet strange
    rw [length] at strange
    exact lays.untouched loglet fun index inside => strange index (Nat.le_succ_of_le inside)

/-! ### Trims -/

/-- What `trim` does for one segment. -/
def trimSegment (index globalPos : Nat) (cluster : SoloLog) (segment : ChainSegment) : SoloLog :=
  if segment.startPos < globalPos then
    match (cluster.logs ()).loglets[segment.logletId]? with
    | some loglet =>
        cluster.setHeap loglet ((cluster.heap loglet).call index (.trim
          (globalToLocal segment.startPos (min globalPos (segment.endPos.getD logPosMax))))).1
    | none => cluster
  else cluster

/-- The epochs below `count` are trimmed, the others are not yet. -/
structure Trimmed (initial : String) (ends : List Nat) (log log' : FlatLog) (count : Nat)
    (cluster next : SoloLog) : Prop where
  rest : next = { cluster with heap := next.heap }
  done : ∀ index loglet, index < count → index ≤ ends.length → Backing initial cluster index loglet →
    log'.Part (startAt ends index) (ends[index]?.getD log.tail) (next.heap loglet).loglet
  todo : ∀ index loglet, count ≤ index → index ≤ ends.length → Backing initial cluster index loglet →
    next.heap loglet = cluster.heap loglet
  untouched : ∀ loglet, (∀ index, index ≤ ends.length → loglet.logletId ≠ idAt initial index) →
    next.heap loglet = cluster.heap loglet

theorem Trimmed.step (foreign : ∀ index, initial ≠ generatedId (index + 1))
    (lays : Lays initial cluster ends log) {pos count : Nat} (allowed : log.Allowed (.trim pos))
    (inside : count ≤ ends.length) {next : SoloLog}
    (trimmed : Trimmed initial ends log (log.next (.trim pos)) count cluster next) :
    Trimmed initial ends log (log.next (.trim pos)) (count + 1) cluster
      (trimSegment index pos next (segmentAt initial ends count)) := by
  obtain ⟨loglet, backing, part⟩ := lays.parts count inside
  have pending := trimmed.todo count loglet (Nat.le_refl _) inside backing
  have only : ∀ index other, index ≤ ends.length → Backing initial cluster index other →
      index ≠ count → other ≠ loglet := by
    intro index other _ held different same
    have ids := held.named.symm.trans ((congrArg LogletRef.logletId same).trans backing.named)
    exact different (idAt_injective foreign ids)
  by_cases starts : startAt ends count < pos
  · have stepped : trimSegment index pos next (segmentAt initial ends count) =
        next.setHeap loglet ((next.heap loglet).call index (.trim (globalToLocal (startAt ends count)
          (min pos (ends[count]?.getD logPosMax))))).1 := by
      have held : (next.logs ()).loglets[idAt initial count]? = some loglet := by
        rw [trimmed.rest]
        exact backing.held
      dsimp only [trimSegment, segmentAt]
      rw [if_pos starts, held]
    have limit : min pos (ends[count]?.getD logPosMax) = min pos (ends[count]?.getD log.tail) := by
      rcases Nat.lt_or_eq_of_le inside with closed | rfl
      · rw [closed_limit closed]
      · have bounds := allowed
        unfold FlatLog.Allowed at bounds
        rw [List.getElem?_eq_none (Nat.le_refl _), Option.getD_none, Option.getD_none]
        omega
    rw [stepped, limit, pending]
    refine ⟨?_, ?_, ?_, ?_⟩
    · exact congrArg (Cluster.setHeap · loglet _) trimmed.rest
    · intro other found before bound held
      by_cases same : other = count
      · subst same
        have equal : found = loglet := Option.some.inj (held.held.symm.trans backing.held)
        rw [equal, setHeap_self]
        exact part.trim allowed.1 starts
      · rw [setHeap_of_ne (only other found bound held same)]
        exact trimmed.done other found (by omega) bound held
    · intro other found after bound held
      rw [setHeap_of_ne (only other found bound held (by omega))]
      exact trimmed.todo other found (by omega) bound held
    · intro found strange
      have different : found ≠ loglet := by
        intro same
        exact strange count inside ((congrArg LogletRef.logletId same).trans backing.named)
      rw [setHeap_of_ne different]
      exact trimmed.untouched found strange
  · have stepped : trimSegment index pos next (segmentAt initial ends count) = next := by
      unfold trimSegment
      exact if_neg starts
    rw [stepped]
    refine ⟨trimmed.rest, ?_, ?_, trimmed.untouched⟩
    · intro other found before bound held
      by_cases same : other = count
      · subst same
        have equal : found = loglet := Option.some.inj (held.held.symm.trans backing.held)
        rw [equal, pending]
        exact part.skip allowed.1 (Nat.not_lt.mp starts)
      · exact trimmed.done other found (by omega) bound held
    · intro other found after bound held
      exact trimmed.todo other found (by omega) bound held

theorem trimmed_fold (foreign : ∀ index, initial ≠ generatedId (index + 1))
    (lays : Lays initial cluster ends log) {pos : Nat} (allowed : log.Allowed (.trim pos))
    {count : Nat} (inside : count ≤ ends.length + 1) :
    Trimmed initial ends log (log.next (.trim pos)) count cluster
      (((List.range count).map (segmentAt initial ends)).foldl (trimSegment index pos) cluster) := by
  induction count with
  | zero =>
      exact ⟨rfl, fun _ _ impossible => absurd impossible (Nat.not_lt_zero _),
        fun _ _ _ _ _ => rfl, fun _ _ => rfl⟩
  | succ count ih =>
      rw [List.range_succ, List.map_append, List.foldl_append]
      exact (ih (Nat.le_of_succ_le inside)).step foreign lays allowed (Nat.le_of_succ_le_succ inside)

theorem Lays.trim (foreign : ∀ index, initial ≠ generatedId (index + 1))
    (lays : Lays initial cluster ends log) {pos : Nat} (allowed : log.Allowed (.trim pos)) :
    Lays initial ((chainOf initial ends).segments.foldl (trimSegment index pos) cluster) ends
      (log.next (.trim pos)) := by
  have trimmed : Trimmed initial ends log (log.next (.trim pos)) (ends.length + 1) cluster
      ((chainOf initial ends).segments.foldl (trimSegment index pos) cluster) :=
    trimmed_fold foreign lays allowed (Nat.le_refl _)
  revert trimmed
  generalize (chainOf initial ends).segments.foldl (trimSegment index pos) cluster = next
  intro trimmed
  have rest := trimmed.rest
  refine ⟨?_, ?_, ?_, ?_, lays.ordered, Nat.max_le.mpr ⟨lays.trimPoint, allowed.1⟩, ?_, ?_⟩
  · rw [rest]
    exact lays.working
  · rw [rest]
    exact lays.metaStore
  · rw [rest]
    exact lays.chain
  · rw [rest]
    exact lays.version
  · intro index inside
    obtain ⟨loglet, backing, -⟩ := lays.parts index inside
    refine ⟨loglet, ⟨?_, backing.named⟩, trimmed.done index loglet (by omega) inside backing⟩
    rw [rest]
    exact backing.held
  · intro loglet strange
    rw [trimmed.untouched loglet strange]
    exact lays.untouched loglet strange

/-! ### Each call to its end -/

/-- Who asks for the active loglet. -/
def Asks (op : LogletOp) : VirtualLog.Caller → Prop
  | .append | .reconfigure => op.IsAppend
  | .checkTail => op = .checkTail
  | .seal => op = .seal

/-- The start of the active segment. -/
abbrev activeStart (ends : List Nat) : Nat := startAt ends ends.length

/-- A memory loglet answers at once. -/
theorem await_memory (loglet : LogletRef) (op : LogletOp) (pending : Unit → VirtualLog.Future Unit)
    (resume : LogletResult → Option (Progress (VirtualLog.Future Unit) LogletResult)) :
    VirtualLog.await memoryComponent cluster index loglet op () pending resume =
      (resume ((cluster.heap loglet).call index op).2).map fun progress =>
        (cluster.setHeap loglet ((cluster.heap loglet).call index op).1, progress) := rfl

/-- A call to a memory loglet goes on at once with the answer. -/
theorem await_memory_cases {next : SoloLog} (loglet : LogletRef) (op : LogletOp)
    (resume : LogletResult → Option (Progress (VirtualLog.Future Unit) LogletResult))
    {progress : Progress (VirtualLog.Future Unit) LogletResult}
    (polled : ((resume ((cluster.heap loglet).call index op).2).map fun progress =>
      (cluster.setHeap loglet ((cluster.heap loglet).call index op).1, progress)) =
        some (next, progress)) :
    resume ((cluster.heap loglet).call index op).2 = some progress ∧
      next = cluster.setHeap loglet ((cluster.heap loglet).call index op).1 := by
  obtain ⟨resumed, answered, same⟩ := Option.map_eq_some_iff.mp polled
  cases same
  exact ⟨answered, rfl⟩

theorem acknowledged_other {op : LogletOp} (other : ¬ op.IsAppend) (result : LogletResult) :
    acknowledged [⟨((), op), .finished result⟩] = [] := by
  cases op with
  | append entry => exact absurd trivial other
  | checkTail | read | trim | «seal» => rfl

theorem create_fresh (working : cluster.factoryError = none) (logletId : String) :
    cluster.create .fresh logletId = .ok (⟨logletId, cluster.nextSerial⟩,
      { cluster with nextSerial := cluster.nextSerial + 1 }) := by
  unfold Cluster.create
  rw [working]

theorem setLog_logs (log : VirtualLog) : (cluster.setLog () log).logs () = log := by
  simp only [Cluster.setLog, Function.update_self]

theorem completes_append (foreign : ∀ index, initial ≠ generatedId (index + 1))
    (lays : Lays initial cluster ends log) {loglet : LogletRef}
    (backing : Backing initial cluster ends.length loglet)
    (part : log.Part (startAt ends ends.length) log.tail (cluster.heap loglet).loglet)
    (isOpen : (cluster.heap loglet).loglet.sealed = false) (entry : Entry) :
    ∃ last, Completes index (.append entry) cluster (.activeChain .append) last
        (.ok (.pos log.tail)) ∧ Lays initial last ends (log.next (.append entry)) := by
  refine ⟨cluster.setHeap loglet ((cluster.heap loglet).call index (.append entry)).1,
    completes_active .append lays backing (.finished ?_),
    lays.append foreign backing part isOpen entry⟩
  dsimp only [soloComponent, virtualLogComponent, VirtualLog.poll, VirtualLog.Caller.proceed]
  rw [await_memory, TrackedLoglet.append_open isOpen]
  dsimp only [VirtualLog.resumeAppend, Option.map_some]
  rw [part.globalTail]

/-- The rest of `reconfigure` once the loglet is sealed. Its write succeeds. -/
theorem completes_rewrite {op : LogletOp} (lays : Lays initial cluster ends log) (loglet : LogletRef)
    (startPos : Nat) {last : SoloLog} {result : LogletResult}
    (rest : Completes index op (reconfigured cluster (chainOf initial (ends ++ [log.tail]))
      (idAt initial (ends.length + 1))) (.activeChain .append) last result) :
    Completes index op cluster (.reconfigureVersion loglet startPos log.tail) last result := by
  have version : cluster.metaStore.version = (cluster.logs ()).chainVersion := by
    rw [lays.version, lays.metaStore]
  refine completes_running cluster _ rfl ?_
  refine completes_running cluster (.reconfigureWrite loglet startPos (cluster.logs ()).chainVersion
    (chainOf initial (ends ++ [log.tail])) (idAt initial (ends.length + 1))) ?_ ?_
  · dsimp only [VirtualLog.poll]
    rw [lays.chain, generateLogletId_chainOf, chainOf_extend]
    rfl
  refine completes_running { cluster with
      metaStore := { chain := chainOf initial (ends ++ [log.tail])
                     version := cluster.metaStore.version + 1 }
      installed := cluster.installed ++ [chainOf initial (ends ++ [log.tail])] }
    (.reconfigureCreate (cluster.logs ()).chainVersion (chainOf initial (ends ++ [log.tail]))
      (idAt initial (ends.length + 1))) ?_ ?_
  · dsimp only [VirtualLog.poll]
    unfold MemoryMetaStore.write
    rw [if_neg (not_not_intro version)]
    rfl
  refine completes_running { cluster with
      metaStore := { chain := chainOf initial (ends ++ [log.tail])
                     version := cluster.metaStore.version + 1 }
      installed := cluster.installed ++ [chainOf initial (ends ++ [log.tail])]
      nextSerial := cluster.nextSerial + 1 }
    (.reconfigureInsert (cluster.logs ()).chainVersion (chainOf initial (ends ++ [log.tail]))
      (idAt initial (ends.length + 1)) ⟨idAt initial (ends.length + 1), cluster.nextSerial⟩) ?_ ?_
  · dsimp only [VirtualLog.poll, Cluster.create]
    rw [lays.working]
    rfl
  exact .running rfl (.running rfl (.running rfl rest))

/-- A sealed loglet is replaced before the append is tried again. -/
theorem completes_reconfigure (foreign : ∀ index, initial ≠ generatedId (index + 1))
    (lays : Lays initial cluster ends log) {loglet : LogletRef}
    (backing : Backing initial cluster ends.length loglet)
    (part : log.Part (startAt ends ends.length) log.tail (cluster.heap loglet).loglet)
    (isSealed : (cluster.heap loglet).loglet.sealed = true) (entry : Entry) :
    ∃ next, Lays initial next (ends ++ [log.tail]) log ∧
      (∀ fresh, Backing initial next (ends.length + 1) fresh → (next.heap fresh).loglet = .new) ∧
      ∀ last result, Completes index (.append entry) next (.activeChain .append) last result →
        Completes index (.append entry) cluster (.activeChain .append) last result := by
  have stopped := lays.seal foreign backing part index
  have sealedState : (cluster.heap loglet).call index (.append entry) = _ :=
    TrackedLoglet.append_sealed isSealed entry
  have unchanged : cluster.setHeap loglet (cluster.heap loglet) = cluster := by
    unfold Cluster.setHeap
    rw [Function.update_eq_self]
  refine ⟨_, stopped.reconfigured foreign, fun _ => stopped.reconfigured_fresh foreign,
    fun last result rest => ?_⟩
  · refine completes_active .append lays backing (completes_running cluster
      (.activeChain .reconfigure) ?_ (completes_active .reconfigure lays backing ?_))
    · dsimp only [VirtualLog.poll, VirtualLog.Caller.proceed]
      rw [await_memory, sealedState]
      dsimp only [VirtualLog.resumeAppend, Option.map_some]
      rw [unchanged]
    · refine completes_running (cluster.setHeap loglet ((cluster.heap loglet).call index .seal).1)
        (.reconfigureVersion loglet (startAt ends ends.length) log.tail) ?_ ?_
      · dsimp only [VirtualLog.poll, VirtualLog.Caller.proceed]
        rw [await_memory]
        dsimp only [TrackedLoglet.call, MemoryLoglet.call, MemoryLoglet.seal, Except.map,
          VirtualLog.resumeReconfigure, Option.map_some]
        rw [part.globalTail]
      exact completes_rewrite stopped loglet _ rest

theorem completes_read (foreign : ∀ index, initial ≠ generatedId (index + 1))
    (lays : Lays initial cluster ends log) {pos : Nat} (allowed : log.Allowed (.read pos)) :
    ∃ last result, Completes index (.read pos) cluster (.readChain pos) last result ∧
      log.Answers (.read pos) result ∧ Lays initial last ends log := by
  obtain ⟨epoch, inside, after, before⟩ := exists_epoch ends allowed
  obtain ⟨loglet, backing, part⟩ := lays.parts epoch inside
  have same : Lays initial (cluster.setHeap loglet
      ((cluster.heap loglet).call index (.read (globalToLocal (startAt ends epoch) pos))).1) ends log :=
    lays.setHeap foreign inside backing lays.trimPoint part fun _ _ _ _ part => part
  refine ⟨_, _, completes_running cluster (.readLoglets (globalToLocal (startAt ends epoch) pos)
    (idAt initial epoch)) ?_ (completes_running cluster (.read loglet
      (globalToLocal (startAt ends epoch) pos) ()) ?_ (.finished rfl)), ?_, same⟩
  · dsimp only [VirtualLog.poll]
    rw [lays.chain, findSegment_chainOf lays.ordered inside after before]
    rfl
  · dsimp only [VirtualLog.poll]
    rw [backing.held]
    rfl
  · refine part.read after ?_
    cases closed : ends[epoch]? with
    | none => exact Or.inr rfl
    | some endPos => exact Or.inl (before endPos closed)

theorem completes_trim (index globalPos : Nat) (todo : List ChainSegment) (cluster : SoloLog) :
    Completes index (.trim globalPos) cluster (.trimSegments globalPos todo)
      (todo.foldl (trimSegment index globalPos) cluster) (.ok .unit) := by
  induction todo generalizing cluster with
  | nil => exact .finished rfl
  | cons segment todo ih =>
      have rest := ih (trimSegment index globalPos cluster segment)
      rw [List.foldl_cons]
      by_cases starts : segment.startPos < globalPos
      · cases held : (cluster.logs ()).loglets[segment.logletId]? with
        | none =>
            have skipped : trimSegment index globalPos cluster segment = cluster := by
              unfold trimSegment
              rw [if_pos starts, held]
            rw [skipped] at rest ⊢
            refine completes_running cluster (.trimSegments globalPos todo) ?_ rest
            dsimp only [VirtualLog.poll]
            rw [if_pos starts, held]
            rfl
        | some loglet =>
            refine completes_running cluster (.trim globalPos loglet (globalToLocal segment.startPos
              (min globalPos (segment.endPos.getD logPosMax))) () todo) ?_
              (completes_running (trimSegment index globalPos cluster segment)
                (.trimSegments globalPos todo) ?_ rest)
            · dsimp only [VirtualLog.poll]
              rw [if_pos starts, held]
              rfl
            · unfold trimSegment
              rw [if_pos starts, held]
              rfl
      · have skipped : trimSegment index globalPos cluster segment = cluster := by
          unfold trimSegment
          exact if_neg starts
        rw [skipped] at rest ⊢
        refine completes_running cluster (.trimSegments globalPos todo) ?_ rest
        dsimp only [VirtualLog.poll]
        rw [if_neg starts]
        rfl

/-- The calls that ask the active loglet. -/
theorem completes_ask (foreign : ∀ index, initial ≠ generatedId (index + 1))
    (lays : Lays initial cluster ends log) {op : LogletOp} (asks : op = .checkTail ∨ op = .seal) :
    ∃ last, Completes index op cluster (VirtualLog.begin op) last (.ok (.pos log.tail)) ∧
      Lays initial last ends log := by
  obtain ⟨loglet, backing, part⟩ := lays.active
  rcases asks with rfl | rfl
  · refine ⟨cluster.setHeap loglet ((cluster.heap loglet).call index .checkTail).1,
      completes_active .checkTail lays backing (.finished ?_), ?_⟩
    · dsimp only [soloComponent, virtualLogComponent, VirtualLog.poll, VirtualLog.Caller.proceed]
      rw [await_memory]
      dsimp only [TrackedLoglet.call, MemoryLoglet.call, MemoryLoglet.checkTail, Except.map,
        VirtualLog.resumeGlobal, Option.map_some]
      rw [part.globalTail]
    · refine lays.setHeap foreign (Nat.le_refl _) backing lays.trimPoint ?_ fun _ _ _ _ part => part
      rw [open_limit]
      exact part
  · refine ⟨cluster.setHeap loglet ((cluster.heap loglet).call index .seal).1,
      completes_active .seal lays backing (.finished ?_), lays.seal foreign backing part index⟩
    dsimp only [soloComponent, virtualLogComponent, VirtualLog.poll, VirtualLog.Caller.proceed]
    rw [await_memory]
    dsimp only [TrackedLoglet.call, MemoryLoglet.call, MemoryLoglet.seal, Except.map,
      VirtualLog.resumeGlobal, Option.map_some]
    rw [part.globalTail]

theorem completes_op (foreign : ∀ index, initial ≠ generatedId (index + 1))
    (lays : Lays initial cluster ends log) {op : LogletOp} (allowed : log.Allowed op) :
    ∃ last result ends', Completes index op cluster (VirtualLog.begin op) last result ∧
      log.Answers op result ∧ Lays initial last ends' (log.next op) := by
  cases op with
  | append entry =>
      obtain ⟨loglet, backing, part⟩ := lays.active
      cases isSealed : (cluster.heap loglet).loglet.sealed with
      | false =>
          obtain ⟨last, completes, laid⟩ := completes_append foreign lays backing part isSealed entry
          exact ⟨last, _, ends, completes, rfl, laid⟩
      | true =>
          obtain ⟨next, laid, isNew, retried⟩ :=
            completes_reconfigure foreign lays backing part isSealed entry
          obtain ⟨fresh, backing', part'⟩ := laid.active
          have length : (ends ++ [log.tail]).length = ends.length + 1 := List.length_append
          have isOpen : (next.heap fresh).loglet.sealed = false := by
            rw [length] at backing'
            rw [isNew fresh backing']
            rfl
          obtain ⟨last, completes, laid'⟩ := completes_append foreign laid backing' part' isOpen entry
          exact ⟨last, _, _, retried last _ completes, rfl, laid'⟩
  | checkTail =>
      obtain ⟨last, completes, laid⟩ := completes_ask foreign lays (Or.inl rfl)
      exact ⟨last, _, ends, completes, rfl, laid⟩
  | read pos =>
      obtain ⟨last, result, completes, answers, laid⟩ := completes_read foreign lays allowed
      exact ⟨last, result, ends, completes, answers, laid⟩
  | trim pos =>
      refine ⟨_, _, ends, completes_running cluster
        (.trimSegments pos (chainOf initial ends).segments) ?_
        (completes_trim index pos (chainOf initial ends).segments cluster), rfl,
        lays.trim foreign allowed⟩
      dsimp only [VirtualLog.begin, VirtualLog.poll]
      rw [lays.chain]
      rfl
  | «seal» =>
      obtain ⟨last, completes, laid⟩ := completes_ask foreign lays (Or.inr rfl)
      exact ⟨last, _, ends, completes, rfl, laid⟩

/-- Between two calls the instance lays out the flat log. -/
def simulation (foreign : ∀ index, initial ≠ generatedId (index + 1)) :
    Simulation soloComponent flatSpec fun _ => False :=
  .ofCompletes (fun cluster _ log => ∃ ends, Lays initial cluster ends log) (by
    rintro cluster index log ⟨⟨⟩, op⟩ ⟨ends, lays⟩ allowed
    obtain ⟨last, result, ends', completes, answers, laid⟩ := completes_op foreign lays allowed
    exact ⟨last, result, completes, answers, ends', laid⟩)

end SoloLog

/-- A virtual log over memory loglets, used one call at a time, answers as one log that
is never sealed, and always answers. -/
theorem refines_flatLog {initial : String} (foreign : ∀ index, initial ≠ generatedId (index + 1))
    {system : System SoloLog (Unit × LogletOp) (VirtualLog.Future Unit) LogletResult}
    (run : soloComponent.machine.Run (flatSpec.permit (fun _ => False) .new)
      (.fresh (Cluster.new initial .new)) system) :
    flatSpec.Served .new system ∧ ∃ last,
      soloComponent.machine.Run (flatSpec.permit (fun _ => False) .new) system last ∧
        last.Settled ∧ last.ops = system.ops :=
  (SoloLog.simulation foreign).served ⟨[], .new initial⟩ run

/-- A read across a segment that was sealed. -/
theorem refines_flatLog_sealed : ∃ system : System SoloLog (Unit × LogletOp)
    (VirtualLog.Future Unit) LogletResult,
    soloComponent.machine.Run (flatSpec.permit (fun _ => False) .new)
        (.fresh (Cluster.new "main" .new)) system ∧
      flatSpec.Served .new system ∧
      system.Returned 3 ((), .read 2) (.ok (.entry (some (.new [2])))) := by
  obtain ⟨system, run, seen⟩ := Machine.exists_run_of_execute soloComponent.machine
    (flatSpec.permit (fun _ => False) .new) (.fresh (Cluster.new "main" .new))
    [.start ((), .append (.new [1])) :: List.replicate 3 (.poll 0),
      .start ((), .seal) :: List.replicate 3 (.poll 1),
      .start ((), .append (.new [2])) :: List.replicate 16 (.poll 2),
      .start ((), .read 2) :: List.replicate 3 (.poll 3)].flatten
    (fun system => system.calls[3]?) (some ⟨((), .read 2), .finished (.ok (.entry (some (.new [2]))))⟩)
    (by decide +kernel)
  have foreign : ∀ index, "main" ≠ generatedId (index + 1) := foreign_of_head (by decide)
  exact ⟨system, run, (refines_flatLog foreign run).1, seen⟩

end Relos
