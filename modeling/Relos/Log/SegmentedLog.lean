import Relos.Async.Sequential
import Relos.Log.Epochs
import Relos.Log.MemoryLoglet
import Mathlib.Logic.Function.Basic

set_option autoImplicit false

/-! A log cut into segments, each served by a memory loglet: what a virtual log does when it
is used one call at a time. Two segments of one id have one loglet. -/

namespace Relos

open Async Epochs

/-- `ends` are the positions at which segments were closed. -/
structure SegmentedLog (initial : String) where
  ends : List Nat
  ordered : Ordered ends
  loglets : String → MemoryLoglet

namespace SegmentedLog

variable {initial : String}

def new : SegmentedLog initial := { ends := [], ordered := .nil, loglets := fun _ => .new }

def last (log : SegmentedLog initial) : Nat := log.ends.length

def startPos (log : SegmentedLog initial) (index : Nat) : Nat := startAt log.ends index

def loglet (log : SegmentedLog initial) (index : Nat) : MemoryLoglet :=
  log.loglets (idAt initial index)

def active (log : SegmentedLog initial) : MemoryLoglet := log.loglet log.last

def tail (log : SegmentedLog initial) : Nat :=
  localToGlobal (log.startPos log.last) log.active.tail

def setLoglet (log : SegmentedLog initial) (index : Nat) (loglet : MemoryLoglet) :
    SegmentedLog initial :=
  { log with loglets := Function.update log.loglets (idAt initial index) loglet }

/-- One call to the loglet of a segment. -/
def call (log : SegmentedLog initial) (index : Nat) (op : LogletOp) : SegmentedLog initial :=
  log.setLoglet index ((log.loglet index).call op).1

theorem startPos_le_tail (log : SegmentedLog initial) : log.startPos log.last ≤ log.tail := by
  unfold tail localToGlobal MemoryLoglet.tail
  simp only [logPosBegin]
  omega

/-- The id of the next segment. -/
def newId (log : SegmentedLog initial) : String := idAt initial (log.last + 1)

/-- The sealed active segment is closed at its tail. A loglet that already has the new id
gives way to the new one. -/
def reconfigure (log : SegmentedLog initial) : SegmentedLog initial where
  ends := log.ends ++ [log.tail]
  ordered := log.ordered.concat log.startPos_le_tail
  loglets := Function.update log.loglets log.newId .new

/-- The log that an append is made to. -/
def ready (log : SegmentedLog initial) : SegmentedLog initial :=
  if log.active.sealed then log.reconfigure else log

/-- The trim that a segment receives. -/
def localTrim (log : SegmentedLog initial) (pos index : Nat) : Nat :=
  globalToLocal (log.startPos index) (min pos (log.ends[index]?.getD logPosMax))

def trimSegment (log : SegmentedLog initial) (pos index : Nat) : SegmentedLog initial :=
  if log.startPos index < pos then log.call index (.trim (log.localTrim pos index)) else log

/-- The first segments are trimmed. -/
def trimFirst (log : SegmentedLog initial) (pos : Nat) : Nat → SegmentedLog initial
  | 0 => log
  | count + 1 => (log.trimFirst pos count).trimSegment pos count

def next (log : SegmentedLog initial) : LogletOp → SegmentedLog initial
  | .append entry => log.ready.call log.ready.last (.append entry)
  | .trim pos => log.trimFirst pos (log.last + 1)
  | .seal => log.call log.last .seal
  | .checkTail | .read _ => log

/-- The position belongs to the segment. -/
structure Covers (log : SegmentedLog initial) (index pos : Nat) : Prop where
  inside : index ≤ log.last
  starts : log.startPos index ≤ pos
  ends : ∀ endPos, log.ends[index]? = some endPos → pos < endPos

def noSegment (pos : Nat) : LogletResult :=
  .error (.internal s!"no segment found for position {pos}")

def Answers (log : SegmentedLog initial) : LogletOp → LogletResult → Prop
  | .append _, result | .checkTail, result | .seal, result => result = .ok (.pos log.tail)
  | .read pos, result => (pos < logPosBegin ∧ result = noSegment pos) ∨ ∃ index,
      log.Covers index pos ∧
        result = ((log.loglet index).read (globalToLocal (log.startPos index) pos)).map .entry
  | .trim _, result => result = .ok .unit

/-- A trim point is a position, so it fits in 64 bits. -/
def Allowed : LogletOp → Prop
  | .trim pos => pos ≤ logPosMax
  | .append _ | .checkTail | .read _ | .seal => True

instance (op : LogletOp) : Decidable (Allowed op) :=
  match op with
  | .trim pos => inferInstanceAs (Decidable (pos ≤ logPosMax))
  | .append _ | .checkTail | .read _ | .seal => isTrue trivial

variable {log : SegmentedLog initial} {index pos : Nat}

/-! ### Segments -/

@[simp] theorem trimSegment_ends : (log.trimSegment pos index).ends = log.ends := by
  unfold trimSegment
  split <;> rfl

@[simp] theorem trimFirst_ends (count : Nat) : (log.trimFirst pos count).ends = log.ends := by
  induction count with
  | zero => rfl
  | succ count ih => exact trimSegment_ends.trans ih

theorem setLoglet_same {other : Nat} (same : idAt initial other = idAt initial index)
    (loglet : MemoryLoglet) : (log.setLoglet index loglet).loglet other = loglet := by
  unfold SegmentedLog.loglet setLoglet
  rw [same]
  exact Function.update_self ..

theorem setLoglet_self (loglet : MemoryLoglet) : (log.setLoglet index loglet).loglet index = loglet :=
  setLoglet_same rfl loglet

theorem setLoglet_of_ne {other : Nat} (different : idAt initial other ≠ idAt initial index)
    (loglet : MemoryLoglet) : (log.setLoglet index loglet).loglet other = log.loglet other :=
  Function.update_of_ne different ..

/-- A call that leaves its loglet as it is. -/
theorem call_same {op : LogletOp} (same : ((log.loglet index).call op).1 = log.loglet index) :
    log.call index op = log := by
  unfold call setLoglet
  rw [same]
  unfold SegmentedLog.loglet
  rw [Function.update_eq_self]

/-- Every position lies in a segment, and in one only. -/
theorem exists_covers (log : SegmentedLog initial) (positive : logPosBegin ≤ pos) :
    ∃ index, log.Covers index pos := by
  obtain ⟨index, inside, starts, ends⟩ := exists_epoch log.ends positive
  exact ⟨index, inside, starts, ends⟩

theorem Covers.unique {other : Nat} (covers : log.Covers index pos) (covers' : log.Covers other pos) :
    index = other := by
  have apart : ∀ {left right : Nat}, log.Covers left pos → log.Covers right pos → ¬ left < right := by
    intro left right before after less
    have closed : left < log.ends.length := Nat.lt_of_lt_of_le less after.inside
    have bound := before.ends _ (List.getElem?_eq_getElem closed)
    have ordered := log.ordered.startAt_mono less after.inside
    rw [startAt_succ (List.getElem?_eq_getElem closed)] at ordered
    have starts := after.starts
    unfold startPos at starts
    omega
  exact Nat.le_antisymm (Nat.not_lt.mp (apart covers' covers)) (Nat.not_lt.mp (apart covers covers'))

theorem Covers.positive (covers : log.Covers index pos) : logPosBegin ≤ pos :=
  Nat.le_trans (log.ordered.startAt_pos covers.inside) covers.starts

/-- What a read of a position answers. -/
theorem answers_read {result : LogletResult} (covers : log.Covers index pos) :
    log.Answers (.read pos) result ↔
      result = ((log.loglet index).read (globalToLocal (log.startPos index) pos)).map .entry := by
  constructor
  · rintro (⟨early, -⟩ | ⟨other, covers', same⟩)
    · exact absurd covers.positive (Nat.not_le.mpr early)
    · rw [same, covers'.unique covers]
  · exact fun same => Or.inr ⟨index, covers, same⟩

/-! ### Reconfiguration -/

theorem reconfigure_last : log.reconfigure.last = log.last + 1 := List.length_append

theorem reconfigure_startPos : log.reconfigure.startPos log.reconfigure.last = log.tail := by
  rw [reconfigure_last]
  exact startAt_succ List.getElem?_concat_length

/-- A segment of the new id is served by the new loglet. -/
theorem reconfigure_same (same : idAt initial index = log.newId) :
    log.reconfigure.loglet index = .new := by
  unfold SegmentedLog.loglet reconfigure
  rw [same]
  exact Function.update_self ..

theorem reconfigure_active : log.reconfigure.active = .new := by
  unfold active
  rw [reconfigure_last]
  exact reconfigure_same rfl

theorem reconfigure_loglet (different : idAt initial index ≠ log.newId) :
    log.reconfigure.loglet index = log.loglet index :=
  Function.update_of_ne different ..

theorem reconfigure_tail : log.reconfigure.tail = log.tail := by
  unfold tail
  rw [reconfigure_startPos, reconfigure_active]
  rfl

theorem ready_tail : log.ready.tail = log.tail := by
  unfold ready
  split
  · exact reconfigure_tail
  · rfl

theorem ready_open : log.ready.active.sealed = false := by
  unfold ready
  split
  · rw [reconfigure_active]
    rfl
  · rename_i isOpen
    exact Bool.eq_false_iff.mpr isOpen

end SegmentedLog

/-- The calls of one instance, answered by a segmented log. -/
def segmentedSpec (initial : String) :
    Sequential (SegmentedLog initial) (Unit × LogletOp) LogletResult where
  next log call := log.next call.2
  Allowed _ call := SegmentedLog.Allowed call.2
  Answers log call := log.Answers call.2

instance {initial : String} (log : SegmentedLog initial) (call : Unit × LogletOp) :
    Decidable ((segmentedSpec initial).Allowed log call) :=
  inferInstanceAs (Decidable (SegmentedLog.Allowed call.2))

end Relos
