import Relos.Log.FlatRefinement
import Relos.Log.SegmentRefinement

set_option autoImplicit false

/-! Trims and later segments. A trim reaches the segments there are: one that is opened
below the trim point starts untrimmed. -/

namespace Relos

open Async Epochs

namespace SegmentedLog

variable {initial : String} {log : SegmentedLog initial} {index pos : Nat}

/-- The log after these calls. -/
def after (initial : String) (ops : List LogletOp) : SegmentedLog initial := ops.foldl next new

theorem after_concat (ops : List LogletOp) (op : LogletOp) :
    after initial (ops ++ [op]) = (after initial ops).next op := by
  unfold after
  rw [List.foldl_append]
  rfl

theorem segmentedSpec_after (ops : List LogletOp) :
    (segmentedSpec initial).after new (ops.map ((), ·)) = after initial ops := by
  unfold Sequential.after after
  rw [List.foldl_map]
  rfl

/-- The lowest position that the loglet of a new segment will serve: the start of its segment,
or of the first segment if that has the same id and holds a position. -/
def firstServed (log : SegmentedLog initial) : Nat :=
  if log.newId = initial ∧ logPosBegin < log.reconfigure.startPos 1 then logPosBegin else log.tail

/-- Whenever an append replaces a sealed segment, no trim point is beyond the first position
that the new loglet will serve. -/
def Guarded (initial : String) (ops : List LogletOp) : Prop :=
  ∀ earlier entry, earlier ++ [.append entry] <+: ops →
    (after initial earlier).active.sealed = true →
    ∀ trimPoint, .trim trimPoint ∈ earlier → trimPoint ≤ (after initial earlier).firstServed

theorem Guarded.of_longer {ops longer : List LogletOp} (guarded : Guarded initial longer)
    (more : ops <+: longer) : Guarded initial ops := fun earlier entry before =>
  guarded earlier entry (before.trans more)

theorem Guarded.append_reads {ops reads : List LogletOp} (guarded : Guarded initial ops)
    (only : ∀ op ∈ reads, ∃ pos, op = .read pos) : Guarded initial (ops ++ reads) := by
  induction reads using List.reverseRecOn with
  | nil => rwa [List.append_nil]
  | append_singleton reads op ih =>
      have before := ih fun op member => only op (List.mem_append_left _ member)
      obtain ⟨pos, rfl⟩ := only op (List.mem_append_right _ List.mem_cons_self)
      intro earlier entry made
      rw [← List.append_assoc] at made
      rcases List.prefix_concat_iff.mp made with whole | shorter
      · cases (List.append_inj' whole rfl).2
      · exact before earlier entry shorter

/-- Below the trim point every loglet is trimmed. -/
def Shielded (log : SegmentedLog initial) (trimPoint : Nat) : Prop :=
  ∀ index pos, log.Covers index pos → pos < trimPoint →
    globalToLocal (log.startPos index) pos < (log.loglet index).trimPos

theorem call_covers (op : LogletOp) {other : Nat} :
    (log.call other op).Covers index pos ↔ log.Covers index pos :=
  ⟨fun covers => ⟨covers.inside, covers.starts, covers.ends⟩,
    fun covers => ⟨covers.inside, covers.starts, covers.ends⟩⟩

theorem trimFirst_covers {trimPoint count : Nat}
    (covers : (log.trimFirst trimPoint count).Covers index pos) : log.Covers index pos := by
  have inside := covers.inside
  have starts := covers.starts
  have ends := covers.ends
  unfold last at inside
  unfold startPos at starts
  rw [trimFirst_ends] at inside starts ends
  exact ⟨inside, starts, ends⟩

/-- Calls never lower a trim point. -/
theorem call_trimPos (other : Nat) (op : LogletOp) :
    (log.loglet index).trimPos ≤ ((log.call other op).loglet index).trimPos := by
  by_cases same : idAt initial index = idAt initial other
  · have here : log.loglet index = log.loglet other := congrArg log.loglets same
    rw [call, setLoglet_same same, here]
    exact MemoryLoglet.call_trimPos _ op
  · rw [call, setLoglet_of_ne same]

theorem Shielded.call {trimPoint : Nat} (shielded : log.Shielded trimPoint) (other : Nat)
    (op : LogletOp) : (log.call other op).Shielded trimPoint := by
  intro index pos covers below
  exact Nat.lt_of_lt_of_le (shielded index pos ((call_covers op).mp covers) below)
    (call_trimPos other op)

/-- The position belongs to the new segment, or to its old one. -/
theorem reconfigure_covers (covers : log.reconfigure.Covers index pos) :
    (index ≤ log.last ∧ log.Covers index pos) ∨ log.tail ≤ pos := by
  have inside := covers.inside
  rw [reconfigure_last] at inside
  rcases Nat.lt_succ_iff_lt_or_eq.mp (Nat.lt_succ_of_le inside) with earlier | rfl
  · have bound := Nat.lt_succ_iff.mp earlier
    have starts : log.startPos index ≤ pos := by
      have held := covers.starts
      unfold startPos at held
      rw [reconfigure, startAt_append [log.tail] bound] at held
      exact held
    refine Or.inl ⟨bound, bound, starts, fun endPos found => covers.ends endPos ?_⟩
    rw [reconfigure]
    dsimp only
    rw [List.getElem?_append_left (List.getElem?_eq_some_iff.mp found).1]
    exact found
  · have starts := covers.starts
    rw [← reconfigure_last, reconfigure_startPos] at starts
    exact Or.inr starts

theorem firstServed_le_tail (log : SegmentedLog initial) : log.firstServed ≤ log.tail := by
  unfold firstServed
  split
  · exact Nat.le_trans (log.ordered.startAt_pos (Nat.le_refl _)) log.startPos_le_tail
  · exact Nat.le_refl _

/-- The first segment ends where the second one starts. -/
theorem reconfigure_first {endPos : Nat} (closed : log.reconfigure.ends[0]? = some endPos) :
    log.reconfigure.startPos 1 = endPos :=
  startAt_succ closed

theorem exists_first (log : SegmentedLog initial) :
    ∃ endPos, log.reconfigure.ends[0]? = some endPos := by
  have inside : 0 < log.reconfigure.ends.length := by
    change 0 < log.reconfigure.last
    rw [reconfigure_last]
    exact Nat.succ_pos _
  exact ⟨_, List.getElem?_eq_getElem inside⟩

/-- Of the old segments only the first one can have the new id, and then it is served by the
new loglet from its first position on. -/
theorem Covers.firstServed (covers : log.reconfigure.Covers index pos) (bound : index ≤ log.last)
    (same : idAt initial index = log.newId) : log.firstServed ≤ pos := by
  cases index with
  | zero =>
      obtain ⟨endPos, closed⟩ := log.exists_first
      have holds : logPosBegin < log.reconfigure.startPos 1 := by
        rw [reconfigure_first closed]
        exact Nat.lt_of_le_of_lt covers.positive (covers.ends endPos closed)
      unfold SegmentedLog.firstServed
      rw [if_pos ⟨same.symm, holds⟩]
      exact covers.positive
  | succ index =>
      have equal := generatedId_injective same
      omega

theorem Shielded.reconfigure {trimPoint : Nat} (shielded : log.Shielded trimPoint)
    (guarded : trimPoint ≤ log.firstServed) : log.reconfigure.Shielded trimPoint := by
  intro index pos covers below
  have under : pos < log.firstServed := Nat.lt_of_lt_of_le below guarded
  rcases reconfigure_covers covers with ⟨bound, covers'⟩ | beyond
  · have held := shielded index pos covers' below
    have starts : log.reconfigure.startPos index = log.startPos index :=
      startAt_append [log.tail] bound
    have different : idAt initial index ≠ log.newId := fun same =>
      absurd under (Nat.not_lt.mpr (covers.firstServed bound same))
    rw [starts, reconfigure_loglet different]
    exact held
  · have tail := log.firstServed_le_tail
    omega

theorem Shielded.trimFirst {trimPoint : Nat} (shielded : log.Shielded trimPoint) (trimmed count : Nat) :
    (log.trimFirst trimmed count).Shielded trimPoint := by
  induction count with
  | zero => exact shielded
  | succ count ih =>
      rw [SegmentedLog.trimFirst, trimSegment]
      split
      · exact ih.call count _
      · exact ih

/-- The segments that a trim has come to are trimmed. -/
theorem localTrim_le {trimPoint count : Nat} (inside : index < count)
    (starts : log.startPos index < trimPoint) :
    log.localTrim trimPoint index ≤ ((log.trimFirst trimPoint count).loglet index).trimPos := by
  induction count with
  | zero => exact absurd inside (Nat.not_lt_zero _)
  | succ count ih =>
      by_cases reached : log.startPos count < trimPoint
      · rw [← trimSegment_reached reached]
        rcases Nat.lt_succ_iff_lt_or_eq.mp inside with earlier | rfl
        · exact Nat.le_trans (ih earlier) (call_trimPos count _)
        · rw [SegmentedLog.call, setLoglet_self]
          dsimp only [MemoryLoglet.call]
          rw [MemoryLoglet.trim_trimPos]
          exact Nat.le_max_right _ _
      · rw [trimSegment_skipped reached]
        rcases Nat.lt_succ_iff_lt_or_eq.mp inside with earlier | rfl
        · exact ih earlier
        · exact absurd starts reached

/-- A trim shields what is there. -/
theorem trim_shields {trimPoint : Nat} (fits : trimPoint ≤ logPosMax) :
    (log.next (.trim trimPoint)).Shielded trimPoint := by
  intro index pos covers below
  have covers' := trimFirst_covers covers
  have starts : (log.next (.trim trimPoint)).startPos index = log.startPos index :=
    congrArg (startAt · index) (trimFirst_ends (log.last + 1))
  have trimmed : log.localTrim trimPoint index ≤
      ((log.next (.trim trimPoint)).loglet index).trimPos :=
    localTrim_le (Nat.lt_succ_of_le covers'.inside) (Nat.lt_of_le_of_lt covers'.starts below)
  have reached : pos < min trimPoint (log.ends[index]?.getD logPosMax) := by
    refine Nat.lt_min.mpr ⟨below, ?_⟩
    cases closed : log.ends[index]? with
    | none => exact Nat.lt_of_lt_of_le below fits
    | some endPos => exact covers'.ends endPos closed
  have first := covers'.starts
  rw [starts]
  unfold localTrim globalToLocal at trimmed
  unfold globalToLocal
  omega

/-- Every trim point so far shields. -/
theorem shielded_after {ops : List LogletOp} (guarded : Guarded initial ops)
    (fits : ∀ op ∈ ops, Allowed op) {trimPoint : Nat} (trimmed : .trim trimPoint ∈ ops) :
    (after initial ops).Shielded trimPoint := by
  induction ops using List.reverseRecOn with
  | nil => exact absurd trimmed List.not_mem_nil
  | append_singleton ops op ih =>
      have guarded' : Guarded initial ops := guarded.of_longer (List.prefix_append ops [op])
      have fits' : ∀ op ∈ ops, Allowed op := fun op member =>
        fits op (List.mem_append_left _ member)
      have before := ih guarded' fits'
      rw [after_concat]
      rcases List.mem_append.mp trimmed with earlier | here
      · have shielded := before earlier
        cases op with
        | append entry =>
            rw [next]
            refine Shielded.call ?_ _ _
            unfold ready
            split
            · rename_i isSealed
              exact shielded.reconfigure
                (guarded ops entry (List.prefix_refl _) isSealed trimPoint earlier)
            · exact shielded
        | trim pos => exact shielded.trimFirst pos _
        | «seal» => exact shielded.call _ _
        | checkTail | read => exact shielded
      · cases List.mem_singleton.mp here
        exact trim_shields (fits _ (List.mem_append_right _ List.mem_cons_self))

/-- A read of a shielded position finds nothing. -/
theorem Shielded.read {trimPoint : Nat} (shielded : log.Shielded trimPoint) {result : LogletResult}
    (answers : log.Answers (.read pos) result) (below : pos < trimPoint) (entry : Entry) :
    result ≠ .ok (.entry (some entry)) := by
  rcases answers with ⟨-, rfl⟩ | ⟨index, covers, rfl⟩
  · intro impossible
    cases impossible
  · unfold MemoryLoglet.read
    rw [if_pos (shielded index pos covers below)]
    intro impossible
    cases impossible

/-- The log after an append that replaced a segment. -/
def replaced (log : SegmentedLog initial) (entry : Entry) : SegmentedLog initial :=
  log.reconfigure.call log.reconfigure.last (.append entry)

theorem next_replaced (isSealed : log.active.sealed = true) (entry : Entry) :
    log.next (.append entry) = log.replaced entry := by
  have ready : log.ready = log.reconfigure := if_pos isSealed
  rw [next, ready]
  rfl

/-- The entry is the first one of every segment that has the new id. -/
theorem read_first (same : idAt initial index = log.newId) {entry : Entry}
    (covers : log.reconfigure.Covers index (log.reconfigure.startPos index)) {result : LogletResult}
    (answers : (log.replaced entry).Answers (.read (log.reconfigure.startPos index)) result) :
    result = .ok (.entry (some entry)) := by
  have covers' : (log.replaced entry).Covers index (log.reconfigure.startPos index) :=
    (call_covers _).mpr covers
  have place : globalToLocal ((log.replaced entry).startPos index)
      (log.reconfigure.startPos index) = 1 := by
    change globalToLocal (log.reconfigure.startPos index) (log.reconfigure.startPos index) = 1
    unfold globalToLocal
    omega
  have last : idAt initial index = idAt initial log.reconfigure.last := by
    rw [same, reconfigure_last]
    rfl
  have held : (log.replaced entry).loglet index = (MemoryLoglet.new.call (.append entry)).1 := by
    unfold replaced
    rw [SegmentedLog.call, setLoglet_same last]
    exact congrArg (fun loglet => (MemoryLoglet.call loglet (.append entry)).1) reconfigure_active
  rw [answers_read covers', place, held] at answers
  exact answers

/-- An append that replaces a sealed segment can be read back at once, whatever was trimmed. -/
theorem read_replaced (isSealed : log.active.sealed = true) (entry : Entry) {result : LogletResult}
    (answers : (log.next (.append entry)).Answers (.read log.firstServed) result) :
    result = .ok (.entry (some entry)) := by
  rw [next_replaced isSealed] at answers
  by_cases shared : log.newId = initial ∧ logPosBegin < log.reconfigure.startPos 1
  · have first : log.firstServed = log.reconfigure.startPos 0 := if_pos shared
    have same : idAt initial 0 = log.newId := shared.1.symm
    rw [first] at answers
    refine read_first same ⟨Nat.zero_le _, Nat.le_refl _, fun endPos closed => ?_⟩ answers
    rw [← reconfigure_first closed]
    exact shared.2
  · have first : log.firstServed = log.reconfigure.startPos log.reconfigure.last :=
      (if_neg shared).trans reconfigure_startPos.symm
    have last : idAt initial log.reconfigure.last = log.newId := by
      rw [reconfigure_last]
      rfl
    rw [first] at answers
    refine read_first last ⟨Nat.le_refl _, Nat.le_refl _, fun endPos impossible => ?_⟩ answers
    unfold SegmentedLog.last at impossible
    rw [List.getElem?_eq_none (Nat.le_refl _)] at impossible
    cases impossible

end SegmentedLog

open SegmentedLog

/-! ### Trims on a virtual log over memory loglets -/

namespace SoloLog

abbrev Calling := System SoloLog (Unit × LogletOp) (VirtualLog.Future Unit) LogletResult

/-- One call at a time. -/
abbrev OneByOne (initial : String) :
    Calling → Action (Unit × LogletOp) (ClusterEvent Unit Empty) → Prop :=
  (segmentedSpec initial).permit (ClusterEvent.IsQuiet fun _ => False) .new

/-- The calls of the run are the first of these, and then reads. -/
def MakesThenReads (ops : List LogletOp) (system : Calling) : Prop :=
  ∃ count reads, (∀ op ∈ reads, ∃ pos, op = .read pos) ∧
    system.ops = (ops.take count ++ reads).map ((), ·)

/-- No read finds an entry below a trim point that was returned before. -/
def TrimsKept (system : Calling) : Prop :=
  ∀ trimmer reader trimPoint pos result, trimmer < reader →
    system.Returned trimmer ((), .trim trimPoint) (.ok .unit) →
    system.Returned reader ((), .read pos) result → pos < trimPoint →
    ∀ entry, result ≠ .ok (.entry (some entry))

variable {initial : String} {system : Calling}

theorem answers_of_returned
    (run : soloComponent.machine.Run (OneByOne initial) (.fresh (Cluster.new initial .new)) system)
    {ops : List LogletOp} (called : system.ops = ops.map ((), ·)) {index : Nat} {op : LogletOp}
    {result : LogletResult} (returned : system.Returned index ((), op) result) :
    (after initial (ops.take index)).Answers op result := by
  have idle := atRest_new memoryActs initial
  have served := ((SegmentedLog.simulation memoryActs initial).served idle run).1 _ _ _ returned
  rw [called, ← List.map_take, segmentedSpec_after] at served
  exact served

theorem trims_kept_of_guarded
    (run : soloComponent.machine.Run (OneByOne initial) (.fresh (Cluster.new initial .new)) system)
    {ops : List LogletOp} (called : system.ops = ops.map ((), ·)) (guarded : Guarded initial ops)
    (fits : ∀ op ∈ ops, Allowed op) : TrimsKept system := by
  intro trimmer reader trimPoint pos result before trims reads below entry
  have answers := answers_of_returned run called reads
  have trimmed : .trim trimPoint ∈ ops.take reader := by
    have found := trims.called
    rw [called, List.getElem?_map] at found
    obtain ⟨op, held, same⟩ := Option.map_eq_some_iff.mp found
    cases same
    have kept : (ops.take reader)[trimmer]? = some (.trim trimPoint) := by
      rw [List.getElem?_take_of_lt before]
      exact held
    exact List.mem_of_getElem? kept
  have shielded := shielded_after (guarded.of_longer (List.take_prefix reader ops))
    (fun op member => fits op (List.mem_of_mem_take member)) trimmed
  exact shielded.read answers below entry

/-- An append, and a read of the first position that a new loglet serves. -/
def appendRead (initial : String) (earlier : List LogletOp) (entry : Entry) : List LogletOp :=
  earlier ++ [.append entry] ++ [.read (after initial earlier).firstServed]

theorem appendRead_fits {earlier : List LogletOp} {entry : Entry}
    (fits : ∀ op ∈ earlier, Allowed op) : ∀ op ∈ appendRead initial earlier entry, Allowed op := by
  intro op member
  rcases List.mem_append.mp member with inside | last
  · rcases List.mem_append.mp inside with inside | last
    · exact fits op inside
    · cases List.mem_singleton.mp last
      trivial
  · cases List.mem_singleton.mp last
    trivial

/-- Any calls can be made one by one. -/
theorem exists_made (initial : String) {ops : List LogletOp}
    (fits : ∀ op ∈ ops, Allowed op) :
    ∃ system, soloComponent.machine.Run (OneByOne initial) (.fresh (Cluster.new initial .new)) system ∧
      system.Settled ∧ system.ops = ops.map ((), ·) := by
  refine (SegmentedLog.simulation memoryActs initial).exists_run (atRest_new memoryActs initial)
    (ops.map ((), ·)) fun before op rest split => ?_
  have member : op ∈ ops.map ((), ·) := by
    rw [split]
    exact List.mem_append_right _ List.mem_cons_self
  obtain ⟨op', inside, rfl⟩ := List.mem_map.mp member
  exact fits op' inside

/-- An append beyond the guard brings an entry back below a trim point. -/
theorem exists_unkept {earlier : List LogletOp} (entry : Entry) {trimPoint : Nat}
    (fits : ∀ op ∈ earlier, Allowed op) (isSealed : (after initial earlier).active.sealed = true)
    (trimmed : .trim trimPoint ∈ earlier) (beyond : (after initial earlier).firstServed < trimPoint) :
    ∃ system, soloComponent.machine.Run (OneByOne initial) (.fresh (Cluster.new initial .new)) system ∧
      system.ops = (appendRead initial earlier entry).map ((), ·) ∧ ¬ TrimsKept system := by
  obtain ⟨system, run, settled, called⟩ :=
    exists_made initial (appendRead_fits fits : ∀ op ∈ appendRead initial earlier entry, Allowed op)
  refine ⟨system, run, called, fun kept => ?_⟩
  have length : (earlier ++ [LogletOp.append entry]).length = earlier.length + 1 :=
    List.length_append
  obtain ⟨trimmer, inside, found⟩ := List.mem_iff_getElem.mp trimmed
  have trims : system.ops[trimmer]? = some ((), .trim trimPoint) := by
    rw [called, appendRead, List.append_assoc, List.getElem?_map, List.getElem?_append_left inside,
      List.getElem?_eq_getElem inside, found]
    rfl
  have reads : system.ops[earlier.length + 1]? =
      some ((), .read (after initial earlier).firstServed) := by
    rw [called, appendRead, List.getElem?_map, ← length, List.getElem?_concat_length]
    rfl
  obtain ⟨trimResult, trimmed'⟩ := settled.returned trims
  obtain ⟨result, read⟩ := settled.returned reads
  have ok : trimResult = .ok .unit := answers_of_returned run called trimmed'
  have answers := answers_of_returned run called read
  have first : (appendRead initial earlier entry).take (earlier.length + 1) =
      earlier ++ [.append entry] := List.take_left' length
  rw [first, after_concat] at answers
  rw [ok] at trimmed'
  exact kept trimmer _ trimPoint _ result (Nat.lt_succ_of_lt inside) trimmed' read beyond entry
    (read_replaced isSealed entry answers)

end SoloLog

open SoloLog

/-- Trims stay in force exactly if no append replaces a sealed segment while a trim point
is beyond the first position that the new loglet will serve. -/
theorem trims_kept_iff (initial : String) (ops : List LogletOp) (fits : ∀ op ∈ ops, Allowed op) :
    (∀ system,
      soloComponent.machine.Run (OneByOne initial) (.fresh (Cluster.new initial .new)) system →
      MakesThenReads ops system → TrimsKept system) ↔ Guarded initial ops := by
  constructor
  · intro kept earlier entry before isSealed trimPoint trimmed
    by_contra beyond
    have fits' : ∀ op ∈ earlier, Allowed op := fun op member =>
      fits op (before.subset (List.mem_append_left _ member))
    obtain ⟨system, run, called, lost⟩ :=
      exists_unkept entry fits' isSealed trimmed (Nat.not_le.mp beyond)
    refine lost (kept system run ⟨(earlier ++ [LogletOp.append entry]).length,
      [.read (after initial earlier).firstServed], ?_, ?_⟩)
    · intro op member
      exact ⟨_, List.mem_singleton.mp member⟩
    · rw [← List.prefix_iff_eq_take.mp before]
      exact called
  · intro guarded system run ⟨count, reads, only, called⟩
    have guarded' := (guarded.of_longer (List.take_prefix count ops)).append_reads only
    refine trims_kept_of_guarded run called guarded' fun op member => ?_
    rcases List.mem_append.mp member with made | read
    · exact fits op (List.mem_of_mem_take made)
    · obtain ⟨pos, rfl⟩ := only op read
      trivial

/-- The trim point is the tail when the segment is replaced. -/
def trimmedAtTail : List LogletOp :=
  [.append (.new [1]), .trim 2, .seal, .append (.new [2])]

theorem guarded_trimmedAtTail : Guarded "main" trimmedAtTail := by
  intro earlier entry before isSealed
  obtain ⟨rest, same⟩ := before
  rcases earlier with _ | ⟨first, _ | ⟨second, _ | ⟨third, _ | ⟨fourth, more⟩⟩⟩⟩
  · cases isSealed
  · cases same
  · cases same
  · cases same
    intro trimPoint trimmed
    have place : trimPoint = 2 := by simpa using trimmed
    rw [place]
    decide
  · simp [trimmedAtTail] at same

theorem trims_kept_at_tail : ∃ system,
    soloComponent.machine.Run (OneByOne "main") (.fresh (Cluster.new "main" .new)) system ∧
      system.Returned 4 ((), .read 1) (.error (.trimmed 1)) ∧ TrimsKept system := by
  obtain ⟨system, run, seen⟩ := Machine.exists_run_of_execute soloComponent.machine (OneByOne "main")
    (.fresh (Cluster.new "main" .new))
    [.start ((), .append (.new [1])) :: List.replicate 3 (.poll 0),
      .start ((), .trim 2) :: List.replicate 4 (.poll 1),
      .start ((), .seal) :: List.replicate 3 (.poll 2),
      .start ((), .append (.new [2])) :: List.replicate 16 (.poll 3),
      .start ((), .read 1) :: List.replicate 3 (.poll 4)].flatten
    (fun system => (system.ops, system.calls[4]?))
    ((trimmedAtTail ++ [LogletOp.read 1]).map ((), ·),
      some ⟨((), .read 1), .finished (.error (.trimmed 1))⟩) (by decide +kernel)
  obtain ⟨called, returned⟩ := Prod.mk.inj seen
  refine ⟨system, run, returned, (trims_kept_iff "main" trimmedAtTail
    (by decide)).mpr guarded_trimmedAtTail system run ⟨4, [.read 1], ?_, called⟩⟩
  intro op member
  exact ⟨1, List.mem_singleton.mp member⟩

/-- The log is trimmed ahead of its tail, and the segment replaced. -/
theorem not_trims_kept : ¬ ∀ system,
    soloComponent.machine.Run (OneByOne "main") (.fresh (Cluster.new "main" .new)) system →
      TrimsKept system := by
  intro kept
  obtain ⟨system, run, seen⟩ := Machine.exists_run_of_execute soloComponent.machine (OneByOne "main")
    (.fresh (Cluster.new "main" .new))
    [.start ((), .trim 5) :: List.replicate 4 (.poll 0),
      .start ((), .seal) :: List.replicate 3 (.poll 1),
      .start ((), .append (.new [1])) :: List.replicate 16 (.poll 2),
      .start ((), .read 1) :: List.replicate 3 (.poll 3)].flatten
    (fun system => (system.calls[0]?, system.calls[3]?))
    (some ⟨((), .trim 5), .finished (.ok .unit)⟩,
      some ⟨((), .read 1), .finished (.ok (.entry (some (.new [1]))))⟩) (by decide +kernel)
  obtain ⟨trims, reads⟩ := Prod.mk.inj seen
  exact kept system run 0 3 5 1 _ (by decide) trims reads (by decide) (.new [1]) rfl

end Relos
