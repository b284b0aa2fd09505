import Relos.Log.SegmentCalls

set_option autoImplicit false

/-! A virtual log over loglets that act as memory loglets, used one call at a time, is
the segmented log: each poll of a call, and that every call returns. -/

namespace Relos

open Async Epochs

namespace SegmentedLog

variable {State Fut Event : Type} {component : LogletComponent State Fut Event}
  {quiet : Event → Prop} {state : State} {acts : ActsAsMemory component quiet state}
  {initial : String} {log current : SegmentedLog initial} {cluster next : Cluster Unit State}
  {index epoch pos : Nat} {op : LogletOp} {loglet : LogletRef}

/-! ### The steps of a reconfiguration -/

section Reconfigure

variable (initial log cluster)

def newChain : LogChain := chainOf initial (log.ends ++ [log.tail])

/-- The new chain is in the MetaStore. -/
def written : Cluster Unit State :=
  { cluster with
    metaStore := { chain := newChain initial log, version := log.last + 1 }
    installed := cluster.installed ++ [newChain initial log] }

def created : Cluster Unit State :=
  { written initial log cluster with nextSerial := cluster.nextSerial + 1 }

def inserted : Cluster Unit State :=
  (created initial log cluster).insertLoglet () log.newId ⟨log.newId, cluster.nextSerial⟩

def chained : Cluster Unit State := (inserted initial log cluster).setChain () (newChain initial log)

def versioned : Cluster Unit State := (chained initial log cluster).setVersion () (log.last + 1)

end Reconfigure

theorem versioned_logs : (versioned initial log cluster).logs () =
    { chain := newChain initial log
      chainVersion := log.last + 1
      loglets := (cluster.logs ()).loglets.insert log.newId
        ⟨log.newId, cluster.nextSerial⟩ } := by
  simp only [versioned, chained, inserted, created, written, Cluster.insertLoglet, Cluster.setChain,
    Cluster.setVersion, Cluster.setLog, Function.update_self]

/-- What a reconfiguration leaves behind lays out the reconfigured log. -/
theorem Lays.versioned (lays : AtRest acts initial log cluster) :
    AtRest acts initial log.reconfigure (SegmentedLog.versioned initial log cluster) := by
  refine ⟨lays.working, ?_, ?_, ?_, fun index inside => ?_, fun loglet _ later => ?_⟩
  · rw [reconfigure_last]
    rfl
  · rw [versioned_logs]
    rfl
  · rw [versioned_logs, reconfigure_last]
  · by_cases same : idAt initial index = log.newId
    · refine ⟨⟨log.newId, cluster.nextSerial⟩, ⟨?_, same.symm, Nat.lt_succ_self _⟩, fun _ => ?_⟩
      · rw [versioned_logs, same]
        exact Std.ExtTreeMap.getElem?_insert_self
      · rw [reconfigure_same same]
        exact lays.untouched _ trivial (Nat.le_refl _)
    · rw [reconfigure_last] at inside
      have bound : index ≤ log.last := by
        rcases Nat.lt_succ_iff_lt_or_eq.mp (Nat.lt_succ_of_le inside) with earlier | rfl
        · exact Nat.lt_succ_iff.mp earlier
        · exact absurd rfl same
      obtain ⟨loglet, backs, rests⟩ := lays.found bound
      refine ⟨loglet, ⟨?_, backs.named, Nat.lt_succ_of_lt backs.made⟩, fun _ => ?_⟩
      · rw [versioned_logs]
        dsimp only
        rw [Std.ExtTreeMap.getElem?_insert, if_neg fun equal => same
          (Std.LawfulEqCmp.eq_of_compare equal).symm]
        exact backs.held
      · rw [reconfigure_loglet same]
        exact rests
  · exact lays.untouched loglet trivial (Nat.le_of_succ_le later)

/-! ### Polls that call no loglet -/

theorem poll_activeChain (lays : AtRest acts initial current cluster)
    (call : Unit × LogletOp) (caller : VirtualLog.Caller) :
    VirtualLog.poll .fresh component cluster index call (.activeChain caller) =
      some (cluster, .running (.activeLoglet caller (current.startPos current.last)
        (idAt initial current.last))) := by
  dsimp only [VirtualLog.poll]
  rw [lays.chain, activeSegment_chainOf]
  rfl

theorem poll_activeLoglet (backs : Backs initial cluster epoch loglet) (call : Unit × LogletOp)
    (caller : VirtualLog.Caller) (startPos : Nat) :
    VirtualLog.poll .fresh component cluster index call
        (.activeLoglet caller startPos (idAt initial epoch)) =
      some (cluster, .running (caller.proceed component call.2 loglet startPos)) := by
  dsimp only [VirtualLog.poll]
  rw [backs.held]
  rfl

theorem poll_reconfigureVersion (lays : AtRest acts initial log cluster) (call : Unit × LogletOp)
    (startPos globalSealPos : Nat) :
    VirtualLog.poll .fresh component cluster index call
        (.reconfigureVersion loglet startPos globalSealPos) =
      some (cluster, .running (.reconfigureChain loglet startPos globalSealPos log.last)) := by
  dsimp only [VirtualLog.poll]
  rw [lays.version]
  rfl

theorem poll_reconfigureChain (lays : AtRest acts initial log cluster) (call : Unit × LogletOp)
    (startPos version : Nat) :
    VirtualLog.poll .fresh component cluster index call
        (.reconfigureChain loglet startPos log.tail version) =
      some (cluster, .running (.reconfigureWrite loglet startPos version (newChain initial log)
        log.newId)) := by
  dsimp only [VirtualLog.poll]
  rw [lays.chain, generateLogletId_chainOf, chainOf_extend]
  rfl

theorem poll_reconfigureWrite (lays : AtRest acts initial log cluster) (call : Unit × LogletOp)
    (startPos : Nat) :
    VirtualLog.poll .fresh component cluster index call
        (.reconfigureWrite loglet startPos log.last (newChain initial log) log.newId) =
      some (written initial log cluster,
        .running (.reconfigureCreate log.last (newChain initial log) log.newId)) := by
  have version : cluster.metaStore.version = log.last := by rw [lays.metaStore]
  dsimp only [VirtualLog.poll, MemoryMetaStore.write]
  rw [if_neg (not_not_intro version), version]
  rfl

theorem poll_reconfigureCreate (lays : AtRest acts initial log cluster) (call : Unit × LogletOp) :
    VirtualLog.poll .fresh component (written initial log cluster) index call
        (.reconfigureCreate log.last (newChain initial log) log.newId) =
      some (created initial log cluster, .running (.reconfigureInsert log.last
        (newChain initial log) log.newId ⟨log.newId, cluster.nextSerial⟩)) := by
  have made : (written initial log cluster).create .fresh log.newId =
      .ok (⟨log.newId, cluster.nextSerial⟩, created initial log cluster) := by
    unfold Cluster.create
    split
    · rename_i error failed
      cases lays.working.symm.trans failed
    · rfl
  dsimp only [VirtualLog.poll]
  rw [made]
  rfl

theorem poll_readChain (lays : AtRest acts initial log cluster) (covers : log.Covers epoch pos)
    (call : Unit × LogletOp) :
    VirtualLog.poll .fresh component cluster index call (.readChain pos) =
      some (cluster, .running (.readLoglets (globalToLocal (log.startPos epoch) pos)
        (idAt initial epoch))) := by
  dsimp only [VirtualLog.poll]
  rw [lays.chain, findSegment_chainOf log.ordered covers.inside covers.starts covers.ends]
  rfl

theorem poll_readChain_none (lays : AtRest acts initial log cluster) (early : pos < logPosBegin)
    (call : Unit × LogletOp) :
    VirtualLog.poll .fresh component cluster index call (.readChain pos) =
      some (cluster, .finished (noSegment pos)) := by
  have absent : (chainOf initial log.ends).findSegment pos = none := by
    cases found : (chainOf initial log.ends).findSegment pos with
    | none => rfl
    | some segment =>
        obtain ⟨index, inside, -, starts, -⟩ := findSegment_some found
        have positive := log.ordered.startAt_pos inside
        omega
  dsimp only [VirtualLog.poll]
  rw [lays.chain, absent]
  rfl

theorem poll_readLoglets (backs : Backs initial cluster epoch loglet) (call : Unit × LogletOp)
    (localPos : Nat) :
    VirtualLog.poll .fresh component cluster index call (.readLoglets localPos (idAt initial epoch)) =
      some (cluster, .running (.read loglet localPos (component.begin (.read localPos)))) := by
  dsimp only [VirtualLog.poll]
  rw [backs.held]
  rfl

theorem poll_trimChain (lays : AtRest acts initial log cluster) (call : Unit × LogletOp) :
    VirtualLog.poll .fresh component cluster index call (.trimChain pos) =
      some (cluster, .running (.trimSegments pos (chainOf initial log.ends).segments)) := by
  dsimp only [VirtualLog.poll]
  rw [lays.chain]
  rfl

theorem drop_segments {count : Nat} (inside : count ≤ log.last) :
    (chainOf initial log.ends).segments.drop count = segmentAt initial log.ends count ::
      (chainOf initial log.ends).segments.drop (count + 1) := by
  have here : count < (chainOf initial log.ends).segments.length := by
    rw [chainOf_length]
    exact Nat.lt_succ_of_le inside
  rw [List.drop_eq_getElem_cons here, chainOf_getElem]

theorem poll_trimSegments_skip {count : Nat} (inside : count ≤ log.last)
    (starts : ¬ log.startPos count < pos) (call : Unit × LogletOp) :
    VirtualLog.poll .fresh component cluster index call
        (.trimSegments pos ((chainOf initial log.ends).segments.drop count)) =
      some (cluster, .running
        (.trimSegments pos ((chainOf initial log.ends).segments.drop (count + 1)))) := by
  rw [drop_segments inside]
  dsimp only [VirtualLog.poll]
  exact if_neg starts

theorem poll_trimSegments_call {count : Nat} (inside : count ≤ log.last)
    (starts : log.startPos count < pos) (backs : Backs initial cluster count loglet)
    (call : Unit × LogletOp) :
    VirtualLog.poll .fresh component cluster index call
        (.trimSegments pos ((chainOf initial log.ends).segments.drop count)) =
      some (cluster, .running (.trim pos loglet (log.localTrim pos count)
        (component.begin (.trim (log.localTrim pos count)))
        ((chainOf initial log.ends).segments.drop (count + 1)))) := by
  have held := backs.held
  have here : startAt log.ends count < pos := starts
  rw [drop_segments inside]
  dsimp only [VirtualLog.poll, segmentAt] at held ⊢
  rw [if_pos here, held]
  rfl

theorem poll_trimSegments_end (call : Unit × LogletOp) :
    VirtualLog.poll .fresh component cluster index call
        (.trimSegments pos ((chainOf initial log.ends).segments.drop (log.last + 1))) =
      some (cluster, .finished (.ok .unit)) := by
  have done : (chainOf initial log.ends).segments.drop (log.last + 1) = [] :=
    List.drop_eq_nil_of_le (Nat.le_of_eq chainOf_length)
  rw [done]
  rfl

/-! ### How far a call is -/

/-- `log` is the log when the call started; an append may have closed a segment since. -/
def Asks (log current : SegmentedLog initial) (op : LogletOp) : VirtualLog.Caller → Prop
  | .append => (∃ entry, op = .append entry) ∧ (current = log ∨ current = log.ready)
  | .reconfigure => (∃ entry, op = .append entry) ∧ log.active.sealed = true ∧ current = log
  | .checkTail => op = .checkTail ∧ current = log
  | .seal => op = .seal ∧ current = log

/-- An append found the active segment sealed. -/
def Replaces (log : SegmentedLog initial) (op : LogletOp) : Prop :=
  (∃ entry, op = .append entry) ∧ log.active.sealed = true

variable (acts) in
/-- How far the call is, for a log that was `log` when it started. -/
def Stage (initial : String) (log : SegmentedLog initial) (cluster : Cluster Unit State) (index : Nat)
    (op : LogletOp) : VirtualLog.Future Fut → Prop
  | .activeChain caller => ∃ current, Asks log current op caller ∧
      AtRest acts initial current cluster
  | .activeLoglet caller startPos logletId => ∃ current, Asks log current op caller ∧
      AtRest acts initial current cluster ∧ startPos = current.startPos current.last ∧
      logletId = idAt initial current.last
  | .append loglet startPos future => ∃ current, Asks log current op .append ∧
      startPos = current.startPos current.last ∧
      Calls acts initial current cluster index current.last loglet op future
  | .checkTail loglet startPos future => op = .checkTail ∧ startPos = log.startPos log.last ∧
      Calls acts initial log cluster index log.last loglet .checkTail future
  | .seal loglet startPos future => op = .seal ∧ startPos = log.startPos log.last ∧
      Calls acts initial log cluster index log.last loglet .seal future
  | .reconfigureSeal loglet startPos future => Replaces log op ∧
      startPos = log.startPos log.last ∧
      Calls acts initial log cluster index log.last loglet .seal future
  | .reconfigureVersion _ _ globalSealPos => Replaces log op ∧ globalSealPos = log.tail ∧
      AtRest acts initial log cluster
  | .reconfigureChain _ _ globalSealPos version => Replaces log op ∧ globalSealPos = log.tail ∧
      version = log.last ∧ AtRest acts initial log cluster
  | .reconfigureWrite _ _ version chain logletId => Replaces log op ∧ version = log.last ∧
      chain = newChain initial log ∧ logletId = log.newId ∧ AtRest acts initial log cluster
  | .reconfigureCreate version chain logletId => Replaces log op ∧ version = log.last ∧
      chain = newChain initial log ∧ logletId = log.newId ∧
      ∃ before, AtRest acts initial log before ∧ cluster = written initial log before
  | .reconfigureInsert version chain logletId loglet => Replaces log op ∧ version = log.last ∧
      chain = newChain initial log ∧ logletId = log.newId ∧
      ∃ before, AtRest acts initial log before ∧ cluster = created initial log before ∧
        loglet = ⟨log.newId, before.nextSerial⟩
  | .installChain chain version => Replaces log op ∧ version = log.last + 1 ∧
      chain = newChain initial log ∧
      ∃ before, AtRest acts initial log before ∧ cluster = inserted initial log before
  | .installVersion version => Replaces log op ∧ version = log.last + 1 ∧
      ∃ before, AtRest acts initial log before ∧ cluster = chained initial log before
  -- the write of the only instance succeeds
  | .syncRead => False
  | .syncLoglets _ _ _ => False
  | .readChain pos => op = .read pos ∧ AtRest acts initial log cluster
  | .readLoglets localPos logletId => ∃ pos epoch, op = .read pos ∧ log.Covers epoch pos ∧
      localPos = globalToLocal (log.startPos epoch) pos ∧ logletId = idAt initial epoch ∧
      AtRest acts initial log cluster
  | .read loglet localPos future => ∃ pos epoch, op = .read pos ∧ log.Covers epoch pos ∧
      localPos = globalToLocal (log.startPos epoch) pos ∧
      Calls acts initial log cluster index epoch loglet (.read localPos) future
  | .trimChain pos => op = .trim pos ∧ AtRest acts initial log cluster
  | .trimSegments pos todo => ∃ count, count ≤ log.last + 1 ∧ op = .trim pos ∧
      todo = (chainOf initial log.ends).segments.drop count ∧
      AtRest acts initial (log.trimFirst pos count) cluster
  | .trim pos loglet localPos future todo => ∃ count, count ≤ log.last ∧ op = .trim pos ∧
      todo = (chainOf initial log.ends).segments.drop (count + 1) ∧ log.startPos count < pos ∧
      localPos = log.localTrim pos count ∧
      Calls acts initial (log.trimFirst pos count) cluster index count loglet (.trim localPos) future

/-- What the call leaves behind when it returns. -/
def Ends (acts : ActsAsMemory component quiet state) (initial : String) (log : SegmentedLog initial)
    (op : LogletOp) (cluster : Cluster Unit State) (result : LogletResult) : Prop :=
  log.Answers op result ∧ AtRest acts initial (log.next op) cluster

abbrev Outcome (acts : ActsAsMemory component quiet state) (initial : String)
    (log : SegmentedLog initial) (index : Nat) (op : LogletOp) (cluster : Cluster Unit State)
    (progress : Progress (VirtualLog.Future Fut) LogletResult) : Prop :=
  progress.Holds (Stage acts initial log cluster index op) (Ends acts initial log op cluster)

variable {caller : VirtualLog.Caller} {progress : Progress (VirtualLog.Future Fut) LogletResult}

theorem Asks.stage (asks : Asks log current op caller) (lays : AtRest acts initial current cluster)
    (backs : Backs initial cluster current.last loglet) (index : Nat) :
    Stage acts initial log cluster index op
      (caller.proceed component op loglet (current.startPos current.last)) := by
  have calls : ∀ op, Calls acts initial current cluster index current.last loglet op
      (component.begin op) := Calls.start lays (Nat.le_refl _) backs index
  cases caller with
  | append => exact ⟨current, asks, rfl, calls op⟩
  | reconfigure =>
      obtain ⟨appends, isSealed, rfl⟩ := asks
      exact ⟨⟨appends, isSealed⟩, rfl, calls .seal⟩
  | checkTail =>
      obtain ⟨rfl, rfl⟩ := asks
      exact ⟨rfl, rfl, calls .checkTail⟩
  | «seal» =>
      obtain ⟨rfl, rfl⟩ := asks
      exact ⟨rfl, rfl, calls .seal⟩

/-! ### What the callers make of an answer -/

theorem resumeAppend_sealed (isSealed : current.active.sealed = true) (startPos : Nat)
    (entry : Entry) :
    VirtualLog.resumeAppend startPos (current.active.call (.append entry)).2 =
      some (.running (.activeChain .reconfigure) : Progress (VirtualLog.Future Fut) LogletResult) := by
  dsimp only [MemoryLoglet.call]
  rw [MemoryLoglet.append_sealed isSealed]
  rfl

theorem resumeAppend_open (isOpen : current.active.sealed = false) (entry : Entry) :
    VirtualLog.resumeAppend (current.startPos current.last) (current.active.call (.append entry)).2 =
      some (.finished (.ok (.pos current.tail)) :
        Progress (VirtualLog.Future Fut) LogletResult) := by
  dsimp only [MemoryLoglet.call]
  rw [MemoryLoglet.append_open isOpen]
  rfl

/-- An append to a sealed segment changes nothing. -/
theorem append_sealed_same (isSealed : current.active.sealed = true) (entry : Entry) :
    current.call current.last (.append entry) = current := by
  apply call_same
  dsimp only [MemoryLoglet.call]
  exact congrArg Prod.fst (MemoryLoglet.append_sealed isSealed entry)

/-- A segment is sealed once. -/
theorem seal_sealed_same (isSealed : log.active.sealed = true) : log.call log.last .seal = log := by
  apply call_same
  change { log.active with sealed := true } = log.active
  rw [← isSealed]

/-- The log that an append found sealed is the one before the reconfiguration. -/
theorem Asks.sealed (asks : Asks log current op .append) (isSealed : current.active.sealed = true) :
    current = log := by
  rcases asks.2 with same | rfl
  · exact same
  · rw [ready_open] at isSealed
    cases isSealed

theorem Asks.open (asks : Asks log current op .append) (isOpen : current.active.sealed = false) :
    current = log.ready := by
  rcases asks.2 with rfl | same
  · unfold ready
    rw [if_neg (Bool.eq_false_iff.mp isOpen)]
  · exact same

/-! ### One poll -/

theorem append_poll {startPos : Nat} {future : Fut}
    (stage : Stage acts initial log cluster index op (.append loglet startPos future))
    (polled : VirtualLog.poll .fresh component cluster index ((), op)
      (.append loglet startPos future) = some (next, progress)) :
    Outcome acts initial log index op next progress := by
  obtain ⟨current, asks, rfl, calls⟩ := stage
  obtain ⟨entry, rfl⟩ := asks.1
  rcases calls.await polled with ⟨later, rfl, calls'⟩ | ⟨resumed, lays⟩
  · exact ⟨current, asks, rfl, calls'⟩
  · change VirtualLog.resumeAppend _ (current.active.call (.append entry)).2 = some progress at resumed
    cases isSealed : current.active.sealed with
    | true =>
        rw [resumeAppend_sealed isSealed] at resumed
        cases resumed
        cases asks.sealed isSealed
        rw [append_sealed_same isSealed] at lays
        exact ⟨_, ⟨⟨entry, rfl⟩, isSealed, rfl⟩, lays⟩
    | false =>
        rw [resumeAppend_open isSealed] at resumed
        cases resumed
        cases asks.open isSealed
        refine ⟨?_, lays⟩
        rw [ready_tail]
        rfl

/-- `check_tail` and `seal` answer with the tail. -/
theorem global_poll {asked : LogletOp}
    (answers : (log.active.call asked).2 = .ok (.pos log.active.tail))
    (resumed : VirtualLog.resumeGlobal (log.startPos log.last) (log.active.call asked).2 =
      some progress) : progress = .finished (.ok (.pos log.tail)) := by
  rw [answers] at resumed
  cases resumed
  rfl

theorem trimSegment_reached {count : Nat} (starts : log.startPos count < pos) :
    (log.trimFirst pos count).call count (.trim (log.localTrim pos count)) =
      log.trimFirst pos (count + 1) := by
  have here : (log.trimFirst pos count).startPos count < pos := by
    unfold startPos
    rw [trimFirst_ends]
    exact starts
  have same : (log.trimFirst pos count).localTrim pos count = log.localTrim pos count := by
    unfold localTrim startPos
    rw [trimFirst_ends]
  rw [trimFirst, trimSegment, if_pos here, same]

theorem trimSegment_skipped {count : Nat} (starts : ¬ log.startPos count < pos) :
    log.trimFirst pos (count + 1) = log.trimFirst pos count := by
  have here : ¬ (log.trimFirst pos count).startPos count < pos := by
    unfold startPos
    rw [trimFirst_ends]
    exact starts
  rw [trimFirst, trimSegment, if_neg here]

theorem trimSegments_poll {count : Nat} (inside : count ≤ log.last + 1)
    (lays : AtRest acts initial (log.trimFirst pos count) cluster)
    (polled : VirtualLog.poll .fresh component cluster index ((), .trim pos)
      (.trimSegments pos ((chainOf initial log.ends).segments.drop count)) = some (next, progress)) :
    Outcome acts initial log index (.trim pos) next progress := by
  have ends : (log.trimFirst pos count).last = log.last := congrArg List.length (trimFirst_ends count)
  rcases Nat.lt_or_eq_of_le inside with earlier | rfl
  · have bound := Nat.lt_succ_iff.mp earlier
    by_cases starts : log.startPos count < pos
    · obtain ⟨loglet, backs, -⟩ := lays.found (ends ▸ bound)
      rw [poll_trimSegments_call bound starts backs] at polled
      cases polled
      exact ⟨count, bound, rfl, rfl, starts, rfl, Calls.start lays (ends ▸ bound) backs index _⟩
    · rw [poll_trimSegments_skip bound starts] at polled
      cases polled
      refine ⟨count + 1, earlier, rfl, rfl, ?_⟩
      rw [trimSegment_skipped starts]
      exact lays
  · rw [poll_trimSegments_end] at polled
    cases polled
    exact ⟨rfl, lays⟩

theorem stage_poll {future : VirtualLog.Future Fut}
    (stage : Stage acts initial log cluster index op future)
    (polled : VirtualLog.poll .fresh component cluster index ((), op) future =
      some (next, progress)) : Outcome acts initial log index op next progress := by
  cases future with
  | activeChain caller =>
      obtain ⟨current, asks, lays⟩ := stage
      rw [poll_activeChain lays] at polled
      cases polled
      exact ⟨current, asks, lays, rfl, rfl⟩
  | activeLoglet caller startPos logletId =>
      obtain ⟨current, asks, lays, rfl, rfl⟩ := stage
      obtain ⟨loglet, backs, -⟩ := lays.found (Nat.le_refl _)
      rw [poll_activeLoglet backs] at polled
      cases polled
      exact asks.stage lays backs index
  | append loglet startPos future => exact append_poll stage polled
  | checkTail loglet startPos future =>
      obtain ⟨rfl, rfl, calls⟩ := stage
      rcases calls.await polled with ⟨later, rfl, calls'⟩ | ⟨resumed, lays⟩
      · exact ⟨rfl, rfl, calls'⟩
      · cases global_poll rfl resumed
        have same : log.call log.last .checkTail = log := call_same rfl
        rw [same] at lays
        exact ⟨rfl, lays⟩
  | «seal» loglet startPos future =>
      obtain ⟨rfl, rfl, calls⟩ := stage
      rcases calls.await polled with ⟨later, rfl, calls'⟩ | ⟨resumed, lays⟩
      · exact ⟨rfl, rfl, calls'⟩
      · cases global_poll rfl resumed
        exact ⟨rfl, lays⟩
  | reconfigureSeal loglet startPos future =>
      obtain ⟨replaces, rfl, calls⟩ := stage
      rcases calls.await polled with ⟨later, rfl, calls'⟩ | ⟨resumed, lays⟩
      · exact ⟨replaces, rfl, calls'⟩
      · cases resumed
        rw [seal_sealed_same replaces.2] at lays
        exact ⟨replaces, rfl, lays⟩
  | reconfigureVersion loglet startPos globalSealPos =>
      obtain ⟨replaces, rfl, lays⟩ := stage
      rw [poll_reconfigureVersion lays] at polled
      cases polled
      exact ⟨replaces, rfl, rfl, lays⟩
  | reconfigureChain loglet startPos globalSealPos version =>
      obtain ⟨replaces, rfl, rfl, lays⟩ := stage
      rw [poll_reconfigureChain lays] at polled
      cases polled
      exact ⟨replaces, rfl, rfl, rfl, lays⟩
  | reconfigureWrite loglet startPos version chain logletId =>
      obtain ⟨replaces, rfl, rfl, rfl, lays⟩ := stage
      rw [poll_reconfigureWrite lays] at polled
      cases polled
      exact ⟨replaces, rfl, rfl, rfl, cluster, lays, rfl⟩
  | reconfigureCreate version chain logletId =>
      obtain ⟨replaces, rfl, rfl, rfl, before, lays, rfl⟩ := stage
      rw [poll_reconfigureCreate lays] at polled
      cases polled
      exact ⟨replaces, rfl, rfl, rfl, before, lays, rfl, rfl⟩
  | reconfigureInsert version chain logletId loglet =>
      obtain ⟨replaces, rfl, rfl, rfl, before, lays, rfl, rfl⟩ := stage
      cases polled
      exact ⟨replaces, rfl, rfl, before, lays, rfl⟩
  | installChain chain version =>
      obtain ⟨replaces, rfl, rfl, before, lays, rfl⟩ := stage
      cases polled
      exact ⟨replaces, rfl, before, lays, rfl⟩
  | installVersion version =>
      obtain ⟨replaces, rfl, before, lays, rfl⟩ := stage
      cases polled
      have ready : log.reconfigure = log.ready := (if_pos replaces.2).symm
      exact ⟨log.reconfigure, ⟨replaces.1, Or.inr ready⟩, lays.versioned⟩
  | syncRead => exact stage.elim
  | syncLoglets todo chain version => exact stage.elim
  | readChain pos =>
      obtain ⟨rfl, lays⟩ := stage
      by_cases early : pos < logPosBegin
      · rw [poll_readChain_none lays early] at polled
        cases polled
        exact ⟨Or.inl ⟨early, rfl⟩, lays⟩
      · obtain ⟨epoch, covers⟩ := log.exists_covers (Nat.not_lt.mp early)
        rw [poll_readChain lays covers] at polled
        cases polled
        exact ⟨pos, epoch, rfl, covers, rfl, rfl, lays⟩
  | readLoglets localPos logletId =>
      obtain ⟨pos, epoch, rfl, covers, rfl, rfl, lays⟩ := stage
      obtain ⟨loglet, backs, -⟩ := lays.found covers.inside
      rw [poll_readLoglets backs] at polled
      cases polled
      exact ⟨pos, epoch, rfl, covers, rfl, Calls.start lays covers.inside backs index _⟩
  | read loglet localPos future =>
      obtain ⟨pos, epoch, rfl, covers, rfl, calls⟩ := stage
      rcases calls.await polled with ⟨later, rfl, calls'⟩ | ⟨resumed, lays⟩
      · exact ⟨pos, epoch, rfl, covers, rfl, calls'⟩
      · cases resumed
        rw [call_same rfl] at lays
        exact ⟨(answers_read covers).mpr rfl, lays⟩
  | trimChain pos =>
      obtain ⟨rfl, lays⟩ := stage
      rw [poll_trimChain lays] at polled
      cases polled
      exact ⟨0, Nat.zero_le _, rfl, rfl, lays⟩
  | trimSegments pos todo =>
      obtain ⟨count, inside, rfl, rfl, lays⟩ := stage
      exact trimSegments_poll inside lays polled
  | trim pos loglet localPos future todo =>
      obtain ⟨count, inside, rfl, rfl, starts, rfl, calls⟩ := stage
      rcases calls.await polled with ⟨later, rfl, calls'⟩ | ⟨resumed, lays⟩
      · exact ⟨count, inside, rfl, rfl, starts, rfl, calls'⟩
      · cases resumed
        rw [trimSegment_reached starts] at lays
        exact ⟨count + 1, Nat.succ_le_succ inside, rfl, rfl, lays⟩

/-! ### Background steps -/

theorem stage_background {future : VirtualLog.Future Fut} {event : Event} {found : State}
    (stage : Stage acts initial log cluster index op future) (permitted : quiet event)
    (ran : component.background (cluster.heap loglet) event = some found) :
    Stage acts initial log (cluster.setHeap loglet found) index op future := by
  cases future with
  | activeChain caller =>
      obtain ⟨current, asks, lays⟩ := stage
      exact ⟨current, asks, lays.background permitted ran⟩
  | activeLoglet caller startPos logletId =>
      obtain ⟨current, asks, lays, places⟩ := stage
      exact ⟨current, asks, lays.background permitted ran, places⟩
  | append called startPos future =>
      obtain ⟨current, asks, place, calls⟩ := stage
      exact ⟨current, asks, place, calls.background permitted ran⟩
  | checkTail called startPos future => exact ⟨stage.1, stage.2.1, stage.2.2.background permitted ran⟩
  | «seal» called startPos future => exact ⟨stage.1, stage.2.1, stage.2.2.background permitted ran⟩
  | reconfigureSeal called startPos future =>
      exact ⟨stage.1, stage.2.1, stage.2.2.background permitted ran⟩
  | reconfigureVersion called startPos globalSealPos =>
      exact ⟨stage.1, stage.2.1, stage.2.2.background permitted ran⟩
  | reconfigureChain called startPos globalSealPos version =>
      obtain ⟨replaces, place, same, lays⟩ := stage
      exact ⟨replaces, place, same, lays.background permitted ran⟩
  | reconfigureWrite called startPos version chain logletId =>
      obtain ⟨replaces, same, extended, named, lays⟩ := stage
      exact ⟨replaces, same, extended, named, lays.background permitted ran⟩
  | reconfigureCreate version chain logletId =>
      obtain ⟨replaces, same, extended, named, before, lays, rfl⟩ := stage
      exact ⟨replaces, same, extended, named, _, lays.background permitted ran, rfl⟩
  | reconfigureInsert version chain logletId opened =>
      obtain ⟨replaces, same, extended, named, before, lays, rfl, opens⟩ := stage
      exact ⟨replaces, same, extended, named, _, lays.background permitted ran, rfl, opens⟩
  | installChain chain version =>
      obtain ⟨replaces, same, extended, before, lays, rfl⟩ := stage
      exact ⟨replaces, same, extended, _, lays.background permitted ran, rfl⟩
  | installVersion version =>
      obtain ⟨replaces, same, before, lays, rfl⟩ := stage
      exact ⟨replaces, same, _, lays.background permitted ran, rfl⟩
  | syncRead => exact stage
  | syncLoglets todo chain version => exact stage
  | readChain pos => exact ⟨stage.1, stage.2.background permitted ran⟩
  | readLoglets localPos logletId =>
      obtain ⟨pos, epoch, same, covers, place, named, lays⟩ := stage
      exact ⟨pos, epoch, same, covers, place, named, lays.background permitted ran⟩
  | read called localPos future =>
      obtain ⟨pos, epoch, same, covers, place, calls⟩ := stage
      exact ⟨pos, epoch, same, covers, place, calls.background permitted ran⟩
  | trimChain pos => exact ⟨stage.1, stage.2.background permitted ran⟩
  | trimSegments pos todo =>
      obtain ⟨count, inside, same, rest, lays⟩ := stage
      exact ⟨count, inside, same, rest, lays.background permitted ran⟩
  | trim pos called localPos future todo =>
      obtain ⟨count, inside, same, rest, starts, place, calls⟩ := stage
      exact ⟨count, inside, same, rest, starts, place, calls.background permitted ran⟩

/-! ### Every call returns -/

theorem returns_append_open {future : Fut} {entry : Entry} (isOpen : current.active.sealed = false)
    (calls : Calls acts initial current cluster index current.last loglet (.append entry) future) :
    Returns component quiet index ((), .append entry) cluster
      (.append loglet (current.startPos current.last) future) :=
  calls.returns (fun _ _ => rfl) (resumeAppend_open isOpen entry)
    fun _ _ _ impossible => by cases impossible

/-- A caller that has to find the active loglet first. -/
theorem returns_active (lays : AtRest acts initial current cluster) (caller : VirtualLog.Caller)
    (rest : ∀ loglet, Backs initial cluster current.last loglet →
      Returns component quiet index ((), op) cluster
        (caller.proceed component op loglet (current.startPos current.last))) :
    Returns component quiet index ((), op) cluster (.activeChain caller) ∧
      Returns component quiet index ((), op) cluster
        (.activeLoglet caller (current.startPos current.last) (idAt initial current.last)) := by
  obtain ⟨loglet, backs, -⟩ := lays.found (Nat.le_refl _)
  have found : Returns component quiet index ((), op) cluster
      (.activeLoglet caller (current.startPos current.last) (idAt initial current.last)) :=
    .running (poll_activeLoglet backs _ caller _) (rest loglet backs)
  exact ⟨.running (poll_activeChain lays _ caller) found, found⟩

theorem returns_installVersion {entry : Entry}
    (lays : AtRest acts initial log cluster) :
    Returns component quiet index ((), .append entry) (chained initial log cluster)
      (.installVersion (log.last + 1)) := by
  have opened := lays.versioned
  have isOpen : log.reconfigure.active.sealed = false := by
    rw [reconfigure_active]
    rfl
  refine .running rfl (returns_active opened .append fun loglet backs => ?_).1
  exact returns_append_open isOpen (Calls.start opened (Nat.le_refl _) backs index _)

theorem returns_reconfigureCreate {entry : Entry} (lays : AtRest acts initial log cluster) :
    Returns component quiet index ((), .append entry) (written initial log cluster)
      (.reconfigureCreate log.last (newChain initial log) log.newId) :=
  .running (poll_reconfigureCreate lays _) (.running rfl (.running rfl (returns_installVersion lays)))

theorem returns_reconfigureWrite {entry : Entry} (lays : AtRest acts initial log cluster)
    (startPos : Nat) :
    Returns component quiet index ((), .append entry) cluster
      (.reconfigureWrite loglet startPos log.last (newChain initial log) log.newId) :=
  .running (poll_reconfigureWrite lays _ startPos) (returns_reconfigureCreate lays)

theorem returns_reconfigureChain {entry : Entry} (lays : AtRest acts initial log cluster)
    (startPos : Nat) :
    Returns component quiet index ((), .append entry) cluster
      (.reconfigureChain loglet startPos log.tail log.last) :=
  .running (poll_reconfigureChain lays _ startPos log.last)
    (returns_reconfigureWrite lays startPos)

theorem returns_reconfigureVersion {entry : Entry} (lays : AtRest acts initial log cluster)
    (startPos : Nat) :
    Returns component quiet index ((), .append entry) cluster
      (.reconfigureVersion loglet startPos log.tail) :=
  .running (poll_reconfigureVersion lays _ startPos log.tail)
    (returns_reconfigureChain lays startPos)

theorem returns_reconfigureSeal {future : Fut} {entry : Entry} (isSealed : log.active.sealed = true)
    (calls : Calls acts initial log cluster index log.last loglet .seal future) :
    Returns component quiet index ((), .append entry) cluster
      (.reconfigureSeal loglet (log.startPos log.last) future) := by
  refine calls.returns (fun _ _ => rfl) rfl fun next later lays same => ?_
  cases same
  rw [seal_sealed_same isSealed] at lays
  exact returns_reconfigureVersion lays _

theorem returns_reconfigure {entry : Entry}
    (isSealed : log.active.sealed = true) (lays : AtRest acts initial log cluster) :
    Returns component quiet index ((), .append entry) cluster (.activeChain .reconfigure) ∧
      Returns component quiet index ((), .append entry) cluster
        (.activeLoglet .reconfigure (log.startPos log.last) (idAt initial log.last)) :=
  returns_active lays .reconfigure fun _ backs =>
    returns_reconfigureSeal isSealed (Calls.start lays (Nat.le_refl _) backs index .seal)

theorem returns_append {future : Fut} {entry : Entry}
    (calls : Calls acts initial current cluster index current.last loglet (.append entry) future) :
    Returns component quiet index ((), .append entry) cluster
      (.append loglet (current.startPos current.last) future) := by
  cases isSealed : current.active.sealed with
  | false => exact returns_append_open isSealed calls
  | true =>
      refine calls.returns (fun _ _ => rfl) (resumeAppend_sealed isSealed _ entry)
        fun next later lays same => ?_
      cases same
      rw [append_sealed_same isSealed] at lays
      exact (returns_reconfigure isSealed lays).1

theorem returns_read {future : Fut} {localPos : Nat}
    (calls : Calls acts initial log cluster index epoch loglet (.read localPos) future) :
    Returns component quiet index ((), .read pos) cluster (.read loglet localPos future) :=
  calls.returns (fun _ _ => rfl) rfl fun _ _ _ impossible => by cases impossible

theorem returns_readLoglets (lays : AtRest acts initial log cluster) (inside : epoch ≤ log.last)
    (localPos : Nat) :
    Returns component quiet index ((), .read pos) cluster
      (.readLoglets localPos (idAt initial epoch)) := by
  obtain ⟨loglet, backs, -⟩ := lays.found inside
  exact .running (poll_readLoglets backs _ localPos)
    (returns_read (Calls.start lays inside backs index _))

theorem returns_trim {future : Fut} {count : Nat} {todo : List ChainSegment}
    (starts : log.startPos count < pos)
    (calls : Calls acts initial (log.trimFirst pos count) cluster index count loglet
      (.trim (log.localTrim pos count)) future)
    (rest : ∀ next : Cluster Unit State, AtRest acts initial (log.trimFirst pos (count + 1)) next →
      Returns component quiet index ((), .trim pos) next (.trimSegments pos todo)) :
    Returns component quiet index ((), .trim pos) cluster
      (.trim pos loglet (log.localTrim pos count) future todo) := by
  have polls : ∀ (cluster : Cluster Unit State) (future : Fut),
      VirtualLog.poll .fresh component cluster index ((), .trim pos)
          ((fun future => .trim pos loglet (log.localTrim pos count) future todo) future) =
        VirtualLog.await component cluster index loglet (.trim (log.localTrim pos count)) future
          (fun future => .trim pos loglet (log.localTrim pos count) future todo)
          (VirtualLog.resumeTrim pos todo) := fun _ _ => rfl
  refine calls.returns polls rfl fun next later lays same => ?_
  cases same
  rw [trimSegment_reached starts] at lays
  exact rest next lays

/-- The segments left to trim, from the last one back. -/
theorem returns_trimSegments {left count : Nat}
    (split : count + left = log.last + 1)
    (lays : AtRest acts initial (log.trimFirst pos count) cluster) :
    Returns component quiet index ((), .trim pos) cluster
      (.trimSegments pos ((chainOf initial log.ends).segments.drop count)) := by
  have ends : (log.trimFirst pos count).last = log.last := congrArg List.length (trimFirst_ends count)
  induction left generalizing count cluster with
  | zero =>
      cases split
      exact .finished (poll_trimSegments_end _)
  | succ left ih =>
      have inside : count ≤ log.last := by omega
      have split' : count + 1 + left = log.last + 1 := by omega
      have ends' : (log.trimFirst pos (count + 1)).last = log.last :=
        congrArg List.length (trimFirst_ends (count + 1))
      by_cases starts : log.startPos count < pos
      · obtain ⟨loglet, backs, -⟩ := lays.found (ends.symm ▸ inside)
        exact .running (poll_trimSegments_call inside starts backs _) (returns_trim starts
          (Calls.start lays (ends.symm ▸ inside) backs index _) fun _ lays' => ih split' lays' ends')
      · refine .running (poll_trimSegments_skip inside starts _) (ih split' ?_ ends')
        rw [trimSegment_skipped starts]
        exact lays

theorem stage_returns {future : VirtualLog.Future Fut}
    (stage : Stage acts initial log cluster index op future) :
    Returns component quiet index ((), op) cluster future := by
  have asking : ∀ {current : SegmentedLog initial} {caller : VirtualLog.Caller},
      Asks log current op caller → AtRest acts initial current cluster →
      Returns component quiet index ((), op) cluster (.activeChain caller) ∧
        Returns component quiet index ((), op) cluster
          (.activeLoglet caller (current.startPos current.last) (idAt initial current.last)) := by
    intro current caller asks lays
    cases caller with
    | append =>
        obtain ⟨entry, rfl⟩ := asks.1
        exact returns_active lays .append fun _ backs =>
          returns_append (Calls.start lays (Nat.le_refl _) backs index _)
    | reconfigure =>
        obtain ⟨⟨entry, rfl⟩, isSealed, rfl⟩ := asks
        exact returns_reconfigure isSealed lays
    | checkTail =>
        exact returns_active lays .checkTail fun _ backs =>
          (Calls.start lays (Nat.le_refl _) backs index .checkTail).returns (fun _ _ => rfl) rfl
            fun _ _ _ impossible => by cases impossible
    | «seal» =>
        exact returns_active lays .seal fun _ backs =>
          (Calls.start lays (Nat.le_refl _) backs index .seal).returns (fun _ _ => rfl) rfl
            fun _ _ _ impossible => by cases impossible
  cases future with
  | activeChain caller =>
      obtain ⟨current, asks, lays⟩ := stage
      exact (asking asks lays).1
  | activeLoglet caller startPos logletId =>
      obtain ⟨current, asks, lays, rfl, rfl⟩ := stage
      exact (asking asks lays).2
  | append loglet startPos future =>
      obtain ⟨current, asks, rfl, calls⟩ := stage
      obtain ⟨entry, rfl⟩ := asks.1
      exact returns_append calls
  | checkTail loglet startPos future =>
      exact stage.2.2.returns (fun _ _ => rfl) (by rw [stage.2.1]; rfl)
        fun _ _ _ impossible => by cases impossible
  | «seal» loglet startPos future =>
      exact stage.2.2.returns (fun _ _ => rfl) rfl fun _ _ _ impossible => by cases impossible
  | reconfigureSeal loglet startPos future =>
      obtain ⟨⟨⟨entry, rfl⟩, isSealed⟩, rfl, calls⟩ := stage
      exact returns_reconfigureSeal isSealed calls
  | reconfigureVersion loglet startPos globalSealPos =>
      obtain ⟨⟨⟨entry, rfl⟩, -⟩, rfl, lays⟩ := stage
      exact returns_reconfigureVersion lays startPos
  | reconfigureChain loglet startPos globalSealPos version =>
      obtain ⟨⟨⟨entry, rfl⟩, -⟩, rfl, rfl, lays⟩ := stage
      exact returns_reconfigureChain lays startPos
  | reconfigureWrite loglet startPos version chain logletId =>
      obtain ⟨⟨⟨entry, rfl⟩, -⟩, rfl, rfl, rfl, lays⟩ := stage
      exact returns_reconfigureWrite lays startPos
  | reconfigureCreate version chain logletId =>
      obtain ⟨⟨⟨entry, rfl⟩, -⟩, rfl, rfl, rfl, before, lays, rfl⟩ := stage
      exact returns_reconfigureCreate lays
  | reconfigureInsert version chain logletId loglet =>
      obtain ⟨⟨⟨entry, rfl⟩, -⟩, rfl, rfl, rfl, before, lays, rfl, rfl⟩ := stage
      exact .running rfl (.running rfl (returns_installVersion lays))
  | installChain chain version =>
      obtain ⟨⟨⟨entry, rfl⟩, -⟩, rfl, rfl, before, lays, rfl⟩ := stage
      exact .running rfl (returns_installVersion lays)
  | installVersion version =>
      obtain ⟨⟨⟨entry, rfl⟩, -⟩, rfl, before, lays, rfl⟩ := stage
      exact returns_installVersion lays
  | syncRead => exact stage.elim
  | syncLoglets todo chain version => exact stage.elim
  | readChain pos =>
      obtain ⟨rfl, lays⟩ := stage
      by_cases early : pos < logPosBegin
      · exact .finished (poll_readChain_none lays early _)
      · obtain ⟨epoch, covers⟩ := log.exists_covers (Nat.not_lt.mp early)
        exact .running (poll_readChain lays covers _)
          (returns_readLoglets lays covers.inside _)
  | readLoglets localPos logletId =>
      obtain ⟨pos, epoch, rfl, covers, rfl, rfl, lays⟩ := stage
      exact returns_readLoglets lays covers.inside _
  | read loglet localPos future =>
      obtain ⟨pos, epoch, rfl, covers, rfl, calls⟩ := stage
      exact returns_read calls
  | trimChain pos =>
      obtain ⟨rfl, lays⟩ := stage
      have every : 0 + (log.last + 1) = log.last + 1 := Nat.zero_add _
      exact .running (poll_trimChain lays _) (returns_trimSegments every lays)
  | trimSegments pos todo =>
      obtain ⟨count, inside, rfl, rfl, lays⟩ := stage
      exact returns_trimSegments (Nat.add_sub_of_le inside) lays
  | trim pos loglet localPos future todo =>
      obtain ⟨count, inside, rfl, rfl, starts, rfl, calls⟩ := stage
      exact returns_trim starts calls fun _ lays =>
        returns_trimSegments (Nat.add_sub_of_le (Nat.succ_le_succ inside)) lays

theorem stage_begin (lays : AtRest acts initial log cluster) (op : LogletOp) :
    Stage acts initial log cluster index op (VirtualLog.begin op) := by
  cases op with
  | append entry => exact ⟨log, ⟨⟨entry, rfl⟩, Or.inl rfl⟩, lays⟩
  | checkTail => exact ⟨log, ⟨rfl, rfl⟩, lays⟩
  | read pos => exact ⟨rfl, lays⟩
  | trim pos => exact ⟨rfl, lays⟩
  | «seal» => exact ⟨log, ⟨rfl, rfl⟩, lays⟩

/-- Between two calls the instance lays out the segmented log. -/
def simulation (acts : ActsAsMemory component quiet state) (initial : String) :
    Simulation (virtualLogComponent .fresh component) (segmentedSpec initial)
      (ClusterEvent.IsQuiet quiet) where
  Idle cluster _ log := AtRest acts initial log cluster
  Busy cluster index log call future := Stage acts initial log cluster index call.2 future
  start lays _ := stage_begin lays _
  poll := by
    rintro cluster index log ⟨⟨⟩, op⟩ future next progress stage polled
    exact stage_poll stage polled
  idle_background := by
    intro cluster index log event next lays permitted ran
    obtain ⟨loglet, inner, found, quiet, moved, rfl⟩ := permitted.cases ran
    exact lays.background quiet moved
  busy_background := by
    intro cluster index log call future event next stage permitted ran
    obtain ⟨loglet, inner, found, quiet, moved, rfl⟩ := permitted.cases ran
    exact stage_background stage quiet moved
  completes := by
    rintro cluster index log ⟨⟨⟩, op⟩ future stage
    exact stage_returns stage

/-- A memory loglet is a memory loglet. -/
def memoryActs : ActsAsMemory memoryComponent (fun _ => False) .new where
  simulation := .ofCompletes (fun tracked _ memory => tracked.loglet = memory) (by
    rintro tracked index memory op rfl -
    exact ⟨_, _, .finished rfl, rfl, rfl⟩)
  steady _ same := same
  fresh := rfl

def nativeActs {n : Nat} (positive : 0 < n) :
    ActsAsMemory (nativeComponent n) NativeLoglet.Event.IsServe (.new n) where
  simulation := NativeLoglet.simulation positive
  steady _ rest := rest
  fresh := NativeLoglet.rest_new n

end SegmentedLog

end Relos
