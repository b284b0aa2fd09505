import Relos.Log.CheckedPositions

set_option autoImplicit false

/-! Why no position overflows: the active loglet of an instance ends at the tail of what
was appended, whatever the initial loglet is called, and no loglet is longer. -/

namespace Relos

open Async Epochs

namespace MemoryLoglet

theorem call_pos {loglet : MemoryLoglet} {op : LogletOp} {pos : Nat}
    (answered : (loglet.call op).2 = .ok (.pos pos)) : pos = loglet.tail := by
  cases op with
  | append entry =>
      dsimp only [call] at answered
      cases isSealed : loglet.sealed with
      | true =>
          rw [append_sealed isSealed] at answered
          cases answered
      | false =>
          rw [append_open isSealed] at answered
          cases answered
          rfl
  | read localPos =>
      dsimp only [call] at answered
      cases found : loglet.read localPos with
      | ok entry =>
          rw [found] at answered
          cases answered
      | error error =>
          rw [found] at answered
          cases answered
  | checkTail | «seal» =>
      cases answered
      rfl
  | trim localPos => cases answered

/-- Only appends make a loglet longer. -/
theorem call_length (loglet : MemoryLoglet) {op : LogletOp} (other : ¬ op.IsAppend) :
    (loglet.call op).1.entries.length = loglet.entries.length := by
  cases op with
  | append entry => exact absurd trivial other
  | trim pos => exact loglet.trim_length pos
  | checkTail | read | «seal» => rfl

end MemoryLoglet

namespace SoloLog

/-- Loglets hold at most so many entries, and those not created yet hold none. -/
structure Rooms (cluster : SoloLog) (count : Nat) : Prop where
  length : ∀ loglet, (cluster.heap loglet).loglet.entries.length ≤ count
  trimPos : ∀ loglet, logPosBegin ≤ (cluster.heap loglet).loglet.trimPos
  created : ∀ (logletId : String) (loglet : LogletRef),
    (cluster.logs ()).loglets[logletId]? = some loglet → loglet.serial < cluster.nextSerial
  untouched : ∀ loglet, cluster.nextSerial ≤ loglet.serial → (cluster.heap loglet).loglet = .new

/-- The loglet takes the appends, and it ends where `count` entries do. -/
structure Front (initial : String) (count : Nat) (ends : List Nat) (cluster : SoloLog)
    (loglet : LogletRef) : Prop where
  found : (cluster.logs ()).loglets[idAt initial ends.length]? = some loglet
  reaches : startAt ends ends.length + (cluster.heap loglet).loglet.entries.length =
    count + logPosBegin

/-- What the MetaStore holds, and the loglets. -/
structure Solid (initial : String) (count : Nat) (ends : List Nat) (cluster : SoloLog) : Prop where
  working : cluster.factoryError = none
  metaStore : cluster.metaStore = { chain := chainOf initial ends, version := ends.length }
  ordered : Ordered ends
  rooms : Rooms cluster count

/-- The instance has cached what the MetaStore holds. -/
structure Cut (initial : String) (count : Nat) (ends : List Nat) (cluster : SoloLog) : Prop
    extends Solid initial count ends cluster where
  chain : (cluster.logs ()).chain = chainOf initial ends
  version : (cluster.logs ()).chainVersion = ends.length
  front : ∃ loglet, Front initial count ends cluster loglet

theorem Cut.new (initial : String) : Cut initial 0 [] (Cluster.new initial .new) where
  working := rfl
  metaStore := rfl
  ordered := .nil
  rooms := by
    refine ⟨fun _ => Nat.le_refl _, fun _ => Nat.le_refl _, fun logletId loglet found => ?_,
      fun _ _ => rfl⟩
    unfold Cluster.new at found ⊢
    dsimp only at found ⊢
    rw [Std.ExtTreeMap.getElem?_insert] at found
    split at found
    · cases found
      exact Nat.one_pos
    · cases found
  chain := rfl
  version := rfl
  front := ⟨⟨initial, 0⟩, Std.ExtTreeMap.getElem?_insert_self, rfl⟩

variable {initial : String} {count : Nat} {ends : List Nat} {cluster next : SoloLog}
  {loglet : LogletRef} {index : Nat} {op : LogletOp} {state : TrackedLoglet}

/-- Positions given to a call are 64-bit ones. -/
def Fits : LogletOp → Prop
  | .read pos | .trim pos => pos ≤ logPosMax
  | .append _ | .checkTail | .seal => True

instance (op : LogletOp) : Decidable (Fits op) :=
  match op with
  | .read pos | .trim pos => inferInstanceAs (Decidable (pos ≤ logPosMax))
  | .append _ | .checkTail | .seal => isTrue trivial

/-! ### One loglet changes -/

theorem Rooms.setHeap (rooms : Rooms cluster count) {count' : Nat} (more : count ≤ count')
    (created : loglet.serial < cluster.nextSerial) (length : state.loglet.entries.length ≤ count')
    (trimPos : logPosBegin ≤ state.loglet.trimPos) : Rooms (cluster.setHeap loglet state) count' := by
  refine ⟨fun other => ?_, fun other => ?_, rooms.created, fun other later => ?_⟩
  · by_cases same : other = loglet
    · subst same
      rw [setHeap_self]
      exact length
    · rw [setHeap_of_ne same]
      exact Nat.le_trans (rooms.length other) more
  · by_cases same : other = loglet
    · subst same
      rw [setHeap_self]
      exact trimPos
    · rw [setHeap_of_ne same]
      exact rooms.trimPos other
  · have different : other ≠ loglet := by
      intro same
      subst same
      exact absurd created (Nat.not_lt.mpr later)
    rw [setHeap_of_ne different]
    exact rooms.untouched other later

theorem Front.setHeap {other : LogletRef} (front : Front initial count ends cluster other)
    (same : state.loglet.entries.length = (cluster.heap loglet).loglet.entries.length) :
    Front initial count ends (cluster.setHeap loglet state) other := by
  refine ⟨front.found, ?_⟩
  by_cases here : other = loglet
  · subst here
    rw [setHeap_self, same]
    exact front.reaches
  · rw [setHeap_of_ne here]
    exact front.reaches

/-- A call that appends nothing. -/
theorem Cut.call (cut : Cut initial count ends cluster) (created : loglet.serial < cluster.nextSerial)
    (index : Nat) (other : ¬ op.IsAppend) :
    Cut initial count ends (cluster.setHeap loglet ((cluster.heap loglet).call index op).1) := by
  have length := (cluster.heap loglet).loglet.call_length other
  have trimPos := (cluster.heap loglet).loglet.call_trimPos op
  obtain ⟨active, front⟩ := cut.front
  refine ⟨⟨cut.working, cut.metaStore, cut.ordered, ?_⟩, cut.chain, cut.version, active, ?_⟩
  · refine cut.rooms.setHeap (Nat.le_refl _) created ?_ ?_
    · exact Nat.le_trans (Nat.le_of_eq length) (cut.rooms.length loglet)
    · exact Nat.le_trans (cut.rooms.trimPos loglet) trimPos
  · exact front.setHeap length

theorem Cut.append (cut : Cut initial count ends cluster)
    (front : Front initial count ends cluster loglet)
    (isOpen : (cluster.heap loglet).loglet.sealed = false) (index : Nat) (entry : Entry) :
    Cut initial (count + 1) ends
      (cluster.setHeap loglet ((cluster.heap loglet).call index (.append entry)).1) := by
  have length : ((cluster.heap loglet).call index (.append entry)).1.loglet.entries.length =
      (cluster.heap loglet).loglet.entries.length + 1 := by
    rw [TrackedLoglet.append_open isOpen]
    exact List.length_append
  have trimPos := (cluster.heap loglet).loglet.call_trimPos (.append entry)
  have reaches := front.reaches
  refine ⟨⟨cut.working, cut.metaStore, cut.ordered, ?_⟩, cut.chain, cut.version, loglet,
    front.found, ?_⟩
  · refine cut.rooms.setHeap (Nat.le_succ _) (cut.rooms.created _ _ front.found) ?_ ?_
    · have bound := cut.rooms.length loglet
      omega
    · exact Nat.le_trans (cut.rooms.trimPos loglet) trimPos
  · rw [setHeap_self, length]
    omega

/-! ### Where a call stands -/

def Staged (initial : String) (count : Nat) (op : LogletOp) (cluster : SoloLog) :
    VirtualLog.Future Unit → Prop
  | .activeChain caller => Asks op caller ∧ ∃ ends, Cut initial count ends cluster
  | .activeLoglet caller startPos logletId => Asks op caller ∧ ∃ ends, Cut initial count ends cluster ∧
      startPos = activeStart ends ∧ logletId = idAt initial ends.length
  | .append loglet startPos _ => Asks op .append ∧ ∃ ends, Cut initial count ends cluster ∧
      startPos = activeStart ends ∧ Front initial count ends cluster loglet
  | .checkTail loglet startPos _ => op = .checkTail ∧ ∃ ends, Cut initial count ends cluster ∧
      startPos = activeStart ends ∧ Front initial count ends cluster loglet
  | .seal loglet startPos _ => op = .seal ∧ ∃ ends, Cut initial count ends cluster ∧
      startPos = activeStart ends ∧ Front initial count ends cluster loglet
  | .reconfigureSeal loglet startPos _ => op.IsAppend ∧ ∃ ends, Cut initial count ends cluster ∧
      startPos = activeStart ends ∧ Front initial count ends cluster loglet
  | .reconfigureVersion _ _ globalSealPos => op.IsAppend ∧ ∃ ends, Cut initial count ends cluster ∧
      globalSealPos = count + logPosBegin
  | .reconfigureChain _ _ globalSealPos version => op.IsAppend ∧ ∃ ends,
      Cut initial count ends cluster ∧ globalSealPos = count + logPosBegin ∧ version = ends.length
  | .reconfigureWrite _ _ version newChain newLogletId => op.IsAppend ∧ ∃ ends,
      Cut initial count ends cluster ∧ version = ends.length ∧
      newChain = chainOf initial (ends ++ [count + logPosBegin]) ∧
      newLogletId = idAt initial (ends.length + 1)
  | .reconfigureCreate version newChain newLogletId => op.IsAppend ∧ ∃ ends,
      Solid initial count ends cluster ∧ activeStart ends = count + logPosBegin ∧
      version + 1 = ends.length ∧ newChain = chainOf initial ends ∧
      newLogletId = idAt initial ends.length
  | .reconfigureInsert version newChain newLogletId newLoglet => op.IsAppend ∧ ∃ ends,
      Solid initial count ends cluster ∧ activeStart ends = count + logPosBegin ∧
      version + 1 = ends.length ∧ newChain = chainOf initial ends ∧
      newLogletId = idAt initial ends.length ∧ newLoglet.serial < cluster.nextSerial ∧
      (cluster.heap newLoglet).loglet = .new
  | .installChain newChain newVersion => op.IsAppend ∧ ∃ ends, Solid initial count ends cluster ∧
      (∃ loglet, Front initial count ends cluster loglet) ∧ newChain = chainOf initial ends ∧
      newVersion = ends.length
  | .installVersion newVersion => op.IsAppend ∧ ∃ ends, Solid initial count ends cluster ∧
      (∃ loglet, Front initial count ends cluster loglet) ∧
      (cluster.logs ()).chain = chainOf initial ends ∧ newVersion = ends.length
  | .syncRead | .syncLoglets _ _ _ => False
  | .readChain pos => ¬ op.IsAppend ∧ pos ≤ logPosMax ∧ ∃ ends, Cut initial count ends cluster
  | .readLoglets _ _ => ¬ op.IsAppend ∧ ∃ ends, Cut initial count ends cluster
  | .read loglet _ _ => ¬ op.IsAppend ∧ loglet.serial < cluster.nextSerial ∧
      ∃ ends, Cut initial count ends cluster
  | .trimChain pos => ¬ op.IsAppend ∧ pos ≤ logPosMax ∧ ∃ ends, Cut initial count ends cluster
  | .trimSegments pos todo => ¬ op.IsAppend ∧ pos ≤ logPosMax ∧ ∃ ends,
      Cut initial count ends cluster ∧ ∀ segment ∈ todo, segment ∈ (chainOf initial ends).segments
  | .trim pos loglet _ _ todo => ¬ op.IsAppend ∧ pos ≤ logPosMax ∧
      loglet.serial < cluster.nextSerial ∧ ∃ ends,
      Cut initial count ends cluster ∧ ∀ segment ∈ todo, segment ∈ (chainOf initial ends).segments

theorem staged_begin (cut : Cut initial count ends cluster) (fits : Fits op) :
    Staged initial count op cluster (VirtualLog.begin op) := by
  cases op with
  | append entry => exact ⟨trivial, ends, cut⟩
  | checkTail => exact ⟨rfl, ends, cut⟩
  | read pos => exact ⟨id, fits, ends, cut⟩
  | trim pos => exact ⟨id, fits, ends, cut⟩
  | «seal» => exact ⟨rfl, ends, cut⟩

theorem Front.unique {other : LogletRef} (front : Front initial count ends cluster loglet)
    (front' : Front initial count ends cluster other) : loglet = other :=
  Option.some.inj (front.found.symm.trans front'.found)

theorem Rooms.bounded (rooms : Rooms cluster count) (room : count + 2 ≤ logPosMax)
    (loglet : LogletRef) : (cluster.heap loglet).loglet.Bounded := by
  have length := rooms.length loglet
  refine ⟨?_, rooms.trimPos loglet⟩
  simp only [logPosBegin]
  omega

/-- The tail of the active loglet is the one of the log. -/
theorem Front.globalTail (front : Front initial count ends cluster loglet) {localPos : Nat}
    (answered : ((cluster.heap loglet).call index op).2 = .ok (.pos localPos)) :
    activeStart ends + localPos = count + 2 ∧
      localToGlobal (activeStart ends) localPos = count + logPosBegin := by
  have tail : localPos = (cluster.heap loglet).loglet.tail := MemoryLoglet.call_pos answered
  have reaches := front.reaches
  change activeStart ends + _ = _ at reaches
  unfold MemoryLoglet.tail at tail
  simp only [logPosBegin] at tail reaches
  constructor
  · omega
  · unfold localToGlobal
    simp only [logPosBegin]
    omega

theorem Cut.checked (cut : Cut initial count ends cluster)
    (front : Front initial count ends cluster loglet) (room : count + 2 ≤ logPosMax) {localPos : Nat}
    (answered : ((cluster.heap loglet).call index op).2 = .ok (.pos localPos)) :
    checkedLocalToGlobal (activeStart ends) localPos =
      some (localToGlobal (activeStart ends) localPos) := by
  have sum := (front.globalTail answered).1
  have fits : activeStart ends + localPos ≤ logPosMax := by omega
  exact checkedLocalToGlobal_eq fits (cut.ordered.startAt_pos (Nat.le_refl _))

/-- Segments of the chain start at a position, and not after their end. -/
theorem Cut.segment (cut : Cut initial count ends cluster) {segment : ChainSegment}
    (member : segment ∈ (chainOf initial ends).segments) :
    1 ≤ segment.startPos ∧ ∀ endPos, segment.endPos = some endPos → segment.startPos ≤ endPos := by
  obtain ⟨index, inside, rfl⟩ := mem_chainOf member
  refine ⟨cut.ordered.startAt_pos inside, fun endPos closed => ?_⟩
  have closes : ends[index]? = some endPos := closed
  have before := (List.getElem?_eq_some_iff.mp closes).1
  have step := cut.ordered.step index before
  rw [startAt_succ closes] at step
  exact step

/-- No poll of a call panics. -/
theorem staged_checked {future : VirtualLog.Future Unit} (room : count + 2 ≤ logPosMax)
    (staged : Staged initial count op cluster future) :
    VirtualLog.checkedPoll cluster index ((), op) future =
      some (VirtualLog.poll .fresh memoryComponent cluster index ((), op) future) := by
  cases future with
  | append loglet startPos future =>
      obtain ⟨-, ends, cut, rfl, front⟩ := staged
      exact VirtualLog.checkedAwait_eq (cut.rooms.bounded room loglet) (.append loglet (activeStart ends))
        (VirtualLog.checkedResume_eq fun localPos answered =>
          ⟨by rw [answered]; rfl, cut.checked front room answered⟩)
  | checkTail loglet startPos future =>
      obtain ⟨-, ends, cut, rfl, front⟩ := staged
      exact VirtualLog.checkedAwait_eq (cut.rooms.bounded room loglet) (.checkTail loglet (activeStart ends))
        (VirtualLog.checkedResume_eq fun localPos answered =>
          ⟨by rw [answered]; rfl, cut.checked front room answered⟩)
  | «seal» loglet startPos future =>
      obtain ⟨-, ends, cut, rfl, front⟩ := staged
      exact VirtualLog.checkedAwait_eq (cut.rooms.bounded room loglet) (.«seal» loglet (activeStart ends))
        (VirtualLog.checkedResume_eq fun localPos answered =>
          ⟨by rw [answered]; rfl, cut.checked front room answered⟩)
  | reconfigureSeal loglet startPos future =>
      obtain ⟨-, ends, cut, rfl, front⟩ := staged
      exact VirtualLog.checkedAwait_eq (cut.rooms.bounded room loglet) (.reconfigureSeal loglet (activeStart ends))
        (VirtualLog.checkedResume_eq fun localPos answered =>
          ⟨by rw [answered]; rfl, cut.checked front room answered⟩)
  | readChain pos =>
      obtain ⟨-, fits, ends, cut⟩ := staged
      dsimp only [VirtualLog.checkedPoll, VirtualLog.poll]
      rw [cut.chain]
      cases found : (chainOf initial ends).findSegment pos with
      | none => rfl
      | some segment =>
          obtain ⟨index, inside, rfl, starts, -⟩ := findSegment_some found
          have checked : checkedGlobalToLocal (segmentAt initial ends index).startPos pos = _ :=
            checkedGlobalToLocal_eq starts fits (cut.ordered.startAt_pos inside)
          dsimp only
          rw [checked]
          rfl
  | read loglet localPos future =>
      obtain ⟨-, -, ends, cut⟩ := staged
      exact VirtualLog.checkedAwait_plain (cut.rooms.bounded room loglet)
        (fun result => some (.finished result)) (.read loglet localPos)
  | trimSegments pos todo =>
      cases todo with
      | nil => rfl
      | cons segment todo =>
          obtain ⟨-, fits, ends, cut, members⟩ := staged
          obtain ⟨positive, closes⟩ := cut.segment (members segment List.mem_cons_self)
          dsimp only [VirtualLog.checkedPoll, VirtualLog.poll]
          by_cases starts : segment.startPos < pos
          · have below : segment.startPos ≤ min pos (segment.endPos.getD logPosMax) := by
              cases closed : segment.endPos with
              | none =>
                  rw [Option.getD_none]
                  omega
              | some endPos =>
                  have after := closes endPos closed
                  rw [Option.getD_some]
                  omega
            have fits' : min pos (segment.endPos.getD logPosMax) ≤ logPosMax :=
              Nat.le_trans (Nat.min_le_left _ _) fits
            rw [if_pos starts, if_pos starts, checkedGlobalToLocal_eq below fits' positive]
            cases (cluster.logs ()).loglets[segment.logletId]? <;> rfl
          · rw [if_neg starts, if_neg starts]
  | trim pos loglet localPos future todo =>
      obtain ⟨-, -, -, ends, cut, -⟩ := staged
      exact VirtualLog.checkedAwait_plain (cut.rooms.bounded room loglet)
        (VirtualLog.resumeTrim pos todo) (fun future => .trim pos loglet localPos future todo)
  | activeChain | activeLoglet | reconfigureVersion | reconfigureChain | reconfigureWrite
  | reconfigureCreate | reconfigureInsert | syncRead | syncLoglets | installChain | installVersion
  | readLoglets | trimChain => rfl

/-! ### What a poll leaves -/

/-- What a call leaves that returns. -/
def Left (initial : String) (count : Nat) (op : LogletOp) (cluster : SoloLog)
    (result : LogletResult) : Prop :=
  ∃ ends, Cut initial (count + (acknowledged [⟨((), op), .finished result⟩]).length) ends cluster

theorem Cut.left (cut : Cut initial count ends cluster) (other : ¬ op.IsAppend)
    (result : LogletResult) : Left initial count op cluster result := by
  refine ⟨ends, ?_⟩
  rw [acknowledged_other other]
  exact cut

/-- The write of a reconfiguration. -/
theorem Cut.write (cut : Cut initial count ends cluster) (installed : List LogChain) :
    Solid initial count (ends ++ [count + logPosBegin]) { cluster with
      metaStore := { chain := chainOf initial (ends ++ [count + logPosBegin])
                     version := cluster.metaStore.version + 1 }
      installed := installed } := by
  obtain ⟨loglet, front⟩ := cut.front
  have reaches := front.reaches
  refine ⟨cut.working, ?_, ?_, cut.rooms.length, cut.rooms.trimPos, cut.rooms.created,
    cut.rooms.untouched⟩
  · rw [cut.metaStore, List.length_append]
    rfl
  · refine cut.ordered.concat ?_
    omega

theorem Solid.create (solid : Solid initial count ends cluster) :
    Solid initial count ends { cluster with nextSerial := cluster.nextSerial + 1 } :=
  ⟨solid.working, solid.metaStore, solid.ordered, solid.rooms.length, solid.rooms.trimPos,
    fun logletId loglet found => Nat.lt_succ_of_lt (solid.rooms.created logletId loglet found),
    fun loglet later => solid.rooms.untouched loglet (Nat.le_of_succ_le later)⟩

/-- A write to what the instance has cached. -/
theorem Solid.setLog (solid : Solid initial count ends cluster) {log : VirtualLog}
    (created : ∀ (logletId : String) (loglet : LogletRef), log.loglets[logletId]? = some loglet →
      loglet.serial < cluster.nextSerial) :
    Solid initial count ends (cluster.setLog () log) := by
  refine ⟨solid.working, solid.metaStore, solid.ordered, solid.rooms.length, solid.rooms.trimPos,
    fun logletId loglet found => ?_, solid.rooms.untouched⟩
  simp only [Cluster.setLog, Function.update_self] at found
  exact created logletId loglet found

theorem Front.setLog (front : Front initial count ends cluster loglet) {log : VirtualLog}
    (same : log.loglets = (cluster.logs ()).loglets) :
    Front initial count ends (cluster.setLog () log) loglet := by
  refine ⟨?_, front.reaches⟩
  rw [setLog_logs, same]
  exact front.found

/-- A new loglet becomes the active one. -/
theorem Solid.insert (solid : Solid initial count ends cluster)
    (starts : activeStart ends = count + logPosBegin)
    (created : loglet.serial < cluster.nextSerial) (empty : (cluster.heap loglet).loglet = .new) :
    Solid initial count ends (cluster.insertLoglet () (idAt initial ends.length) loglet) ∧
      Front initial count ends (cluster.insertLoglet () (idAt initial ends.length) loglet)
        loglet := by
  constructor
  · refine solid.setLog fun logletId other found => ?_
    dsimp only at found
    rw [Std.ExtTreeMap.getElem?_insert] at found
    split at found
    · cases found
      exact created
    · exact solid.rooms.created logletId other found
  · constructor
    · unfold Cluster.insertLoglet
      rw [setLog_logs]
      exact Std.ExtTreeMap.getElem?_insert_self
    · have length : ((cluster.insertLoglet () (idAt initial ends.length) loglet).heap
          loglet).loglet.entries.length = 0 := congrArg (fun held => held.entries.length) empty
      rw [length]
      exact starts

theorem Front.caller (front : Front initial count ends cluster loglet)
    (cut : Cut initial count ends cluster) {caller : VirtualLog.Caller} (asks : Asks op caller) :
    Staged initial count op cluster (caller.proceed memoryComponent op loglet (activeStart ends)) := by
  cases caller with
  | append | checkTail | «seal» | reconfigure => exact ⟨asks, ends, cut, rfl, front⟩

theorem staged_append {progress : Progress (VirtualLog.Future Unit) LogletResult} {future : Unit}
    {entry : Entry} (cut : Cut initial count ends cluster)
    (front : Front initial count ends cluster loglet)
    (polled : VirtualLog.poll .fresh memoryComponent cluster index ((), .append entry)
      (.append loglet (activeStart ends) future) = some (next, progress)) :
    progress.Holds (Staged initial count (.append entry) next)
      (Left initial count (.append entry) next) := by
  obtain ⟨resumed, rfl⟩ :=
    await_memory_cases loglet (.append entry) (VirtualLog.resumeAppend (activeStart ends)) polled
  cases isSealed : (cluster.heap loglet).loglet.sealed with
  | false =>
      have grown := cut.append front isSealed index entry
      rw [TrackedLoglet.append_open isSealed] at resumed
      cases resumed
      exact ⟨ends, grown⟩
  | true =>
      rw [TrackedLoglet.append_sealed isSealed] at resumed ⊢
      cases resumed
      rw [setHeap_same]
      exact ⟨trivial, ends, cut⟩

/-- One poll of a call. -/
theorem staged_poll {future : VirtualLog.Future Unit}
    {progress : Progress (VirtualLog.Future Unit) LogletResult}
    (staged : Staged initial count op cluster future)
    (polled : VirtualLog.poll .fresh memoryComponent cluster index ((), op) future =
      some (next, progress)) :
    progress.Holds (Staged initial count op next) (Left initial count op next) := by
  cases future with
  | activeChain caller =>
      obtain ⟨asks, ends, cut⟩ := staged
      simp only [VirtualLog.poll, cut.chain, activeSegment_chainOf] at polled
      cases polled
      exact ⟨asks, ends, cut, rfl, rfl⟩
  | activeLoglet caller startPos logletId =>
      obtain ⟨asks, ends, cut, rfl, rfl⟩ := staged
      obtain ⟨loglet, front⟩ := cut.front
      simp only [VirtualLog.poll, front.found] at polled
      cases polled
      exact front.caller cut asks
  | append loglet startPos future =>
      obtain ⟨asks, ends, cut, rfl, front⟩ := staged
      cases op with
      | append entry => exact staged_append cut front polled
      | checkTail | read | trim | «seal» => exact asks.elim
  | checkTail loglet startPos future =>
      obtain ⟨rfl, ends, cut, rfl, front⟩ := staged
      obtain ⟨resumed, rfl⟩ :=
        await_memory_cases loglet .checkTail (VirtualLog.resumeGlobal (activeStart ends)) polled
      cases resumed
      exact (cut.call (cut.rooms.created _ _ front.found) index id).left id _
  | «seal» loglet startPos future =>
      obtain ⟨rfl, ends, cut, rfl, front⟩ := staged
      obtain ⟨resumed, rfl⟩ :=
        await_memory_cases loglet .seal (VirtualLog.resumeGlobal (activeStart ends)) polled
      cases resumed
      exact (cut.call (cut.rooms.created _ _ front.found) index id).left id _
  | reconfigureSeal loglet startPos future =>
      obtain ⟨appends, ends, cut, rfl, front⟩ := staged
      obtain ⟨resumed, rfl⟩ :=
        await_memory_cases loglet .seal (VirtualLog.resumeReconfigure loglet (activeStart ends)) polled
      cases resumed
      have answered : ((cluster.heap loglet).call index .seal).2 =
        .ok (.pos (cluster.heap loglet).loglet.tail) := rfl
      exact ⟨appends, ends, cut.call (cut.rooms.created _ _ front.found) index id,
        (front.globalTail answered).2⟩
  | reconfigureVersion loglet startPos globalSealPos =>
      obtain ⟨appends, ends, cut, rfl⟩ := staged
      cases polled
      exact ⟨appends, ends, cut, rfl, cut.version⟩
  | reconfigureChain loglet startPos globalSealPos version =>
      obtain ⟨appends, ends, cut, rfl, rfl⟩ := staged
      cases polled
      refine ⟨appends, ends, cut, rfl, ?_, ?_⟩
      · rw [cut.chain, generateLogletId_chainOf, chainOf_extend]
      · rw [cut.chain, generateLogletId_chainOf]
  | reconfigureWrite loglet startPos version newChain newLogletId =>
      obtain ⟨appends, ends, cut, rfl, rfl, rfl⟩ := staged
      have current : ¬ cluster.metaStore.version ≠ ends.length := by
        rw [cut.metaStore]
        exact not_not_intro rfl
      have length : (ends ++ [count + logPosBegin]).length = ends.length + 1 := List.length_append
      simp only [VirtualLog.poll, MemoryMetaStore.write, if_neg current] at polled
      cases polled
      refine ⟨appends, _, cut.write _, ?_, length.symm, rfl, ?_⟩
      · unfold activeStart
        rw [length]
        exact startAt_succ List.getElem?_concat_length
      · rw [length]
  | reconfigureCreate version newChain newLogletId =>
      obtain ⟨appends, ends, solid, starts, same, rfl, rfl⟩ := staged
      simp only [VirtualLog.poll, create_fresh solid.working] at polled
      cases polled
      exact ⟨appends, ends, solid.create, starts, same, rfl, rfl, Nat.lt_succ_self _,
        solid.rooms.untouched _ (Nat.le_refl _)⟩
  | reconfigureInsert version newChain newLogletId newLoglet =>
      obtain ⟨appends, ends, solid, starts, same, rfl, rfl, created, empty⟩ := staged
      cases polled
      obtain ⟨inserted, front⟩ := solid.insert starts created empty
      exact ⟨appends, ends, inserted, ⟨newLoglet, front⟩, rfl, same⟩
  | syncRead => exact staged.elim
  | syncLoglets todo newChain newVersion => exact staged.elim
  | installChain newChain newVersion =>
      obtain ⟨appends, ends, solid, ⟨loglet, front⟩, rfl, rfl⟩ := staged
      cases polled
      refine ⟨appends, ends, solid.setLog solid.rooms.created, ⟨loglet, front.setLog rfl⟩, ?_, rfl⟩
      unfold Cluster.setChain
      rw [setLog_logs]
  | installVersion newVersion =>
      obtain ⟨appends, ends, solid, ⟨loglet, front⟩, chain, rfl⟩ := staged
      cases polled
      refine ⟨appends, ends, solid.setLog solid.rooms.created, ?_, ?_, loglet, front.setLog rfl⟩
      · unfold Cluster.setVersion
        rw [setLog_logs]
        exact chain
      · unfold Cluster.setVersion
        rw [setLog_logs]
  | readChain pos =>
      obtain ⟨other, -, ends, cut⟩ := staged
      simp only [VirtualLog.poll] at polled
      split at polled
      · cases polled
        exact cut.left other _
      · cases polled
        exact ⟨other, ends, cut⟩
  | readLoglets localPos logletId =>
      obtain ⟨other, ends, cut⟩ := staged
      simp only [VirtualLog.poll] at polled
      split at polled
      · cases polled
        exact cut.left other _
      · rename_i loglet found
        cases polled
        exact ⟨other, cut.rooms.created logletId loglet found, ends, cut⟩
  | read loglet localPos future =>
      obtain ⟨other, created, ends, cut⟩ := staged
      obtain ⟨resumed, rfl⟩ :=
        await_memory_cases loglet (.read localPos) (fun result => some (.finished result)) polled
      cases resumed
      exact (cut.call created index id).left other _
  | trimChain pos =>
      obtain ⟨other, fits, ends, cut⟩ := staged
      cases polled
      refine ⟨other, fits, ends, cut, fun segment member => ?_⟩
      rw [cut.chain] at member
      exact member
  | trimSegments pos todo =>
      obtain ⟨other, fits, ends, cut, members⟩ := staged
      cases todo with
      | nil =>
          cases polled
          exact cut.left other _
      | cons segment todo =>
          have rest : ∀ segment ∈ todo, segment ∈ (chainOf initial ends).segments :=
            fun segment member => members segment (List.mem_cons_of_mem _ member)
          simp only [VirtualLog.poll] at polled
          split at polled
          · split at polled
            · cases polled
              exact ⟨other, fits, ends, cut, rest⟩
            · rename_i loglet found
              cases polled
              exact ⟨other, fits, cut.rooms.created _ loglet found, ends, cut, rest⟩
          · cases polled
            exact ⟨other, fits, ends, cut, rest⟩
  | trim pos loglet localPos future todo =>
      obtain ⟨other, fits, created, ends, cut, rest⟩ := staged
      obtain ⟨resumed, rfl⟩ :=
        await_memory_cases loglet (.trim localPos) (VirtualLog.resumeTrim pos todo) polled
      cases resumed
      exact ⟨other, fits, ends, cut.call created index id, rest⟩

/-! ### Runs -/

/-- The count is what the calls before have appended. -/
def positionRules (initial : String) :
    CallRules soloComponent (fun call => Fits call.2) (fun _ _ _ => True) (fun _ => False) where
  Idle history cluster := ∃ ends, Cut initial (acknowledged history).length ends cluster
  Busy history _ call cluster future :=
    Staged initial (acknowledged history).length call.2 cluster future
  Done history _ call cluster result :=
    Left initial (acknowledged history).length call.2 cluster result
  start := by
    rintro history cluster ⟨⟨⟩, op⟩ ⟨ends, cut⟩ fits
    exact staged_begin cut fits
  poll := by
    rintro history first ⟨⟨⟩, op⟩ cluster future next progress staged - polled
    exact staged_poll staged polled
  ended := by
    rintro history first ⟨⟨⟩, op⟩ cluster result ⟨ends, cut⟩
    refine ⟨ends, ?_⟩
    unfold acknowledged at cut ⊢
    rw [List.filterMap_append, List.length_append]
    exact cut
  idle_background _ impossible := impossible.elim
  busy_background _ impossible := impossible.elim
  done_background _ impossible := impossible.elim

/-- While what was appended and two more positions fit in 64 bits, no poll of a call
overflows or looks beyond the entries of a loglet. -/
theorem positions_fit {initial : String}
    {system : System SoloLog (Unit × LogletOp) (VirtualLog.Future Unit) LogletResult}
    (run : soloComponent.machine.Run
      (OneByOne (fun call => Fits call.2) (fun _ _ _ => True) fun _ => False)
      (.fresh (Cluster.new initial .new)) system)
    (room : (acknowledged system.calls).length + 2 ≤ logPosMax) {index : Nat} {op : LogletOp}
    {future : VirtualLog.Future Unit} (pending : system.Pending index ((), op) future) :
    VirtualLog.checkedPoll system.shared index ((), op) future =
      some (VirtualLog.poll .fresh memoryComponent system.shared index ((), op) future) := by
  have idle : (positionRules initial).Idle [] (Cluster.new initial .new) := ⟨[], Cut.new initial⟩
  obtain ⟨earlier, first, rfl, same, staged⟩ := ((CallRules.Stands.fresh idle).run run).busy pending
  refine staged_checked ?_ staged
  unfold acknowledged at room ⊢
  rw [same, List.filterMap_append] at room
  simpa using room

/-- A read of the last position after a trim up to it. -/
theorem positions_fit_last :
    ∃ system : System SoloLog (Unit × LogletOp) (VirtualLog.Future Unit) LogletResult,
      system.Pending 2 ((), .read logPosMax) (.read ⟨"main", 0⟩ logPosMax ()) ∧
      VirtualLog.checkedPoll system.shared 2 ((), .read logPosMax)
          (.read ⟨"main", 0⟩ logPosMax ()) =
        some (VirtualLog.poll .fresh memoryComponent system.shared 2 ((), .read logPosMax)
          (.read ⟨"main", 0⟩ logPosMax ())) := by
  obtain ⟨system, run, seen⟩ := Machine.exists_run_of_execute soloComponent.machine
    (OneByOne (fun call => Fits call.2) (fun _ _ _ => True) fun _ => False)
    (.fresh (Cluster.new "main" .new))
    [.start ((), .append (.new [1])) :: List.replicate 3 (.poll 0),
      .start ((), .trim logPosMax) :: List.replicate 4 (.poll 1),
      .start ((), .read logPosMax) :: List.replicate 2 (.poll 2)].flatten
    System.calls
    [⟨((), .append (.new [1])), .finished (.ok (.pos 1))⟩,
      ⟨((), .trim logPosMax), .finished (.ok .unit)⟩,
      ⟨((), .read logPosMax), .running (.read ⟨"main", 0⟩ logPosMax ())⟩] (by decide +kernel)
  have room : (acknowledged system.calls).length + 2 ≤ logPosMax := by
    rw [seen]
    decide
  have pending : system.Pending 2 ((), .read logPosMax) (.read ⟨"main", 0⟩ logPosMax ()) :=
    congrArg (fun calls => calls[2]?) seen
  exact ⟨system, pending, positions_fit run room pending⟩

end SoloLog

end Relos
