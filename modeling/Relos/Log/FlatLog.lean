import Relos.Async.Sequential
import Relos.Log.Epochs
import Relos.Log.MemoryLoglet

set_option autoImplicit false

/-! One log that is never sealed, and the part of it that a memory loglet holds. -/

namespace Relos

open Async

structure FlatLog where
  entries : List Entry
  trimPoint : Nat
deriving DecidableEq

namespace FlatLog

def new : FlatLog := { entries := [], trimPoint := logPosBegin }

def tail (log : FlatLog) : Nat := log.entries.length + logPosBegin

def next (log : FlatLog) : LogletOp → FlatLog
  | .append entry => { log with entries := log.entries ++ [entry] }
  | .trim pos => { log with trimPoint := max log.trimPoint pos }
  | .checkTail | .read _ | .seal => log

/-- A trim point is a position, so it fits in 64 bits. -/
def Allowed (log : FlatLog) : LogletOp → Prop
  | .read pos => logPosBegin ≤ pos
  | .trim pos => pos ≤ log.tail ∧ pos ≤ logPosMax
  | .append _ | .checkTail | .seal => True

def Answers (log : FlatLog) : LogletOp → LogletResult → Prop
  | .append _, result | .checkTail, result | .seal, result => result = .ok (.pos log.tail)
  | .read pos, result =>
      if pos < log.trimPoint then ∃ trimmed, result = .error (.trimmed trimmed)
      else result = .ok (.entry log.entries[pos - logPosBegin]?)
  | .trim _, result => result = .ok .unit

instance (log : FlatLog) (op : LogletOp) : Decidable (log.Allowed op) :=
  match op with
  | .read pos => inferInstanceAs (Decidable (logPosBegin ≤ pos))
  | .trim pos => inferInstanceAs (Decidable (pos ≤ log.tail ∧ pos ≤ logPosMax))
  | .append _ | .checkTail | .seal => isTrue trivial

/-- What a loglet holds of the positions from `startPos` on, below `limit`. -/
structure Part (log : FlatLog) (startPos limit : Nat) (loglet : MemoryLoglet) : Prop where
  begins : logPosBegin ≤ startPos
  length : startPos + loglet.entries.length = limit
  inside : limit ≤ log.tail
  started : logPosBegin ≤ loglet.trimPos
  trimPos : loglet.trimPos ≤ loglet.tail
  trimPoint : log.trimPoint ≤ log.tail
  trimmed : ∀ slot, slot < loglet.entries.length →
    (slot + logPosBegin < loglet.trimPos ↔ startPos + slot < log.trimPoint)
  kept : ∀ slot, slot < loglet.entries.length → log.trimPoint ≤ startPos + slot →
    loglet.entries[slot]? = some log.entries[startPos + slot - logPosBegin]?

variable {log : FlatLog} {startPos limit : Nat} {loglet : MemoryLoglet}

/-- A loglet that is opened at the tail. -/
theorem Part.new (trimPoint : log.trimPoint ≤ log.tail) : log.Part log.tail log.tail .new where
  begins := Nat.le_add_left _ _
  length := rfl
  inside := Nat.le_refl _
  started := Nat.le_refl _
  trimPos := Nat.le_refl _
  trimPoint := trimPoint
  trimmed _ impossible := absurd impossible (Nat.not_lt_zero _)
  kept _ impossible := absurd impossible (Nat.not_lt_zero _)

theorem Part.of_seal (part : log.Part startPos limit loglet) (isSealed : Bool) :
    log.Part startPos limit { loglet with sealed := isSealed } :=
  ⟨part.begins, part.length, part.inside, part.started, part.trimPos, part.trimPoint,
    part.trimmed, part.kept⟩

/-- The positions of the loglet and of the log. -/
theorem Part.globalTail (part : log.Part startPos limit loglet) :
    localToGlobal startPos loglet.tail = limit := by
  have length := part.length
  have begins := part.begins
  unfold localToGlobal MemoryLoglet.tail
  simp only [logPosBegin] at begins ⊢
  omega

theorem Part.read (part : log.Part startPos limit loglet) {pos : Nat} (above : startPos ≤ pos)
    (below : pos < limit ∨ limit = log.tail) :
    log.Answers (.read pos) ((loglet.read (globalToLocal startPos pos)).map .entry) := by
  have begins := part.begins
  have length := part.length
  have trimPos := part.trimPos
  have trimPoint := part.trimPoint
  unfold MemoryLoglet.tail at trimPos
  unfold FlatLog.tail at trimPoint below
  simp only [logPosBegin] at begins trimPos trimPoint below
  have place : globalToLocal startPos pos = pos - startPos + 1 := rfl
  unfold Answers MemoryLoglet.read MemoryLoglet.tail
  rw [place]
  simp only [logPosBegin, Nat.add_sub_cancel]
  by_cases held : pos - startPos < loglet.entries.length
  · have trimmed := part.trimmed _ held
    have kept := part.kept _ held
    rw [Nat.add_sub_cancel' above] at trimmed kept
    simp only [logPosBegin] at trimmed kept
    by_cases gone : pos < log.trimPoint
    · rw [if_pos gone, if_pos (trimmed.mpr gone)]
      exact ⟨_, rfl⟩
    · rw [if_neg gone, if_neg fun early => gone (trimmed.mp early), if_neg (by omega),
        kept (Nat.not_lt.mp gone)]
      rfl
  · have beyond : log.entries.length ≤ pos - 1 := by omega
    rw [if_neg (by omega), if_neg (by omega), if_pos (by omega), List.getElem?_eq_none beyond]
    rfl

/-- An append to another loglet. -/
theorem Part.grow (part : log.Part startPos limit loglet) (entry : Entry) :
    (log.next (.append entry)).Part startPos limit loglet := by
  have tail : (log.next (.append entry)).tail = log.tail + 1 := by
    simp only [next, FlatLog.tail, List.length_append, List.length_singleton]
    omega
  refine ⟨part.begins, part.length, ?_, part.started, part.trimPos, ?_, part.trimmed, ?_⟩
  · rw [tail]
    exact Nat.le_succ_of_le part.inside
  · rw [tail]
    exact Nat.le_succ_of_le part.trimPoint
  · intro slot held above
    have begins := part.begins
    have length := part.length
    have inside := part.inside
    unfold FlatLog.tail at inside
    simp only [logPosBegin] at begins inside
    rw [part.kept slot held above]
    simp only [next, logPosBegin]
    rw [List.getElem?_append_left (by omega)]

theorem Part.append (part : log.Part startPos log.tail loglet) (entry : Entry) :
    (log.next (.append entry)).Part startPos (log.next (.append entry)).tail
      { loglet with entries := loglet.entries ++ [some entry] } := by
  have begins := part.begins
  have length := part.length
  have trimPos := part.trimPos
  have trimPoint := part.trimPoint
  unfold MemoryLoglet.tail at trimPos
  unfold FlatLog.tail at length trimPoint
  simp only [logPosBegin] at begins length trimPos trimPoint
  refine ⟨part.begins, ?_, Nat.le_refl _, part.started, ?_, ?_, ?_, ?_⟩
  · simp only [next, FlatLog.tail, List.length_append, List.length_singleton, logPosBegin]
    omega
  · simp only [MemoryLoglet.tail, List.length_append, List.length_singleton, logPosBegin]
    omega
  · simp only [next, FlatLog.tail, List.length_append, List.length_singleton, logPosBegin]
    omega
  · intro slot held
    simp only [List.length_append, List.length_singleton] at held
    rcases Nat.lt_succ_iff_lt_or_eq.mp held with earlier | rfl
    · exact part.trimmed slot earlier
    · simp only [next, logPosBegin]
      omega
  · intro slot held above
    simp only [List.length_append, List.length_singleton] at held
    rcases Nat.lt_succ_iff_lt_or_eq.mp held with earlier | rfl
    · dsimp only
      rw [List.getElem?_append_left earlier]
      exact (part.grow entry).kept slot earlier above
    · have place : startPos + loglet.entries.length - 1 = log.entries.length := by omega
      simp only [next, logPosBegin]
      rw [place, List.getElem?_concat_length, List.getElem?_concat_length]

/-- A trim below the loglet. -/
theorem Part.skip (part : log.Part startPos limit loglet) {pos : Nat} (allowed : pos ≤ log.tail)
    (below : pos ≤ startPos) : (log.next (.trim pos)).Part startPos limit loglet := by
  refine ⟨part.begins, part.length, part.inside, part.started, part.trimPos,
    Nat.max_le.mpr ⟨part.trimPoint, allowed⟩, ?_, ?_⟩
  · intro slot held
    have trimmed := part.trimmed slot held
    simp only [next]
    omega
  · intro slot held above
    simp only [next] at above
    exact part.kept slot held (by omega)

/-- A trim, as `VirtualLog::trim` passes it on. -/
theorem Part.trim (part : log.Part startPos limit loglet) {pos : Nat} (allowed : pos ≤ log.tail)
    (above : startPos < pos) : (log.next (.trim pos)).Part startPos limit
      (loglet.trim (globalToLocal startPos (min pos limit))) := by
  have begins := part.begins
  have length := part.length
  have trimPos := part.trimPos
  unfold MemoryLoglet.tail at trimPos
  simp only [logPosBegin] at begins trimPos
  have lengthEq := loglet.trim_length (globalToLocal startPos (min pos limit))
  have trimPosEq := loglet.trim_trimPos (globalToLocal startPos (min pos limit))
  have place : globalToLocal startPos (min pos limit) = min pos limit - startPos + 1 := rfl
  refine ⟨part.begins, ?_, part.inside, ?_, ?_, Nat.max_le.mpr ⟨part.trimPoint, allowed⟩, ?_, ?_⟩
  · rw [lengthEq]
    exact length
  · rw [trimPosEq]
    exact Nat.le_trans part.started (Nat.le_max_left _ _)
  · unfold MemoryLoglet.tail
    rw [lengthEq, trimPosEq, place]
    simp only [logPosBegin]
    omega
  · intro slot held
    rw [lengthEq] at held
    have trimmed := part.trimmed slot held
    rw [trimPosEq, place]
    simp only [next, logPosBegin] at trimmed ⊢
    omega
  · intro slot held later
    rw [lengthEq] at held
    simp only [next] at later
    have kept := part.kept slot held (by omega)
    by_cases moves : loglet.trimPos < globalToLocal startPos (min pos limit)
    · rcases MemoryLoglet.trim_entries _ moves slot with same | ⟨early, -⟩
      · rw [same]
        exact kept
      · rw [place] at early
        simp only [logPosBegin] at early
        omega
    · unfold MemoryLoglet.trim
      rw [if_neg moves]
      exact kept

/-- A whole loglet that is not sealed answers as the log. -/
theorem Part.call (part : log.Part logPosBegin log.tail loglet) (isOpen : loglet.sealed = false)
    {op : LogletOp} (allowed : log.Allowed op) (notSeal : op ≠ .seal) :
    log.Answers op (loglet.call op).2 ∧
      (log.next op).Part logPosBegin (log.next op).tail (loglet.call op).1 ∧
      (loglet.call op).1.sealed = false := by
  have tail : loglet.tail = log.tail := by
    have length := part.length
    unfold MemoryLoglet.tail
    omega
  cases op with
  | append entry =>
      dsimp only [MemoryLoglet.call]
      rw [MemoryLoglet.append_open isOpen, tail]
      exact ⟨rfl, part.append entry, isOpen⟩
  | checkTail =>
      refine ⟨?_, part, isOpen⟩
      dsimp only [MemoryLoglet.call, MemoryLoglet.checkTail]
      rw [tail]
      rfl
  | read pos =>
      have answers := part.read allowed (Or.inr rfl)
      have place : globalToLocal logPosBegin pos = pos := Nat.sub_add_cancel allowed
      rw [place] at answers
      exact ⟨answers, part, isOpen⟩
  | trim pos =>
      refine ⟨rfl, ?_, ?_⟩
      · dsimp only [MemoryLoglet.call]
        by_cases above : logPosBegin < pos
        · have trimmed := part.trim allowed.1 above
          have place : globalToLocal logPosBegin (min pos log.tail) = pos := by
            have bound := allowed.1
            unfold globalToLocal
            simp only [logPosBegin] at above ⊢
            omega
          rw [place] at trimmed
          exact trimmed
        · have skipped := part.skip allowed.1 (Nat.not_lt.mp above)
          have unchanged : loglet.trim pos = loglet := by
            have started := part.started
            unfold MemoryLoglet.trim
            exact if_neg (by omega)
          rw [unchanged]
          exact skipped
      · dsimp only [MemoryLoglet.call, MemoryLoglet.trim]
        split <;> exact isOpen
  | «seal» => exact absurd rfl notSeal

/-- The calls of a log that is never sealed. -/
def unsealedSpec : Sequential FlatLog LogletOp LogletResult where
  next := next
  Allowed log op := log.Allowed op ∧ op ≠ .seal
  Answers := Answers

def unsealed : Simulation memoryComponent unsealedSpec fun _ => False :=
  .ofCompletes (fun tracked _ log => log.Part logPosBegin log.tail tracked.loglet ∧
      tracked.loglet.sealed = false) (by
    rintro tracked index log op ⟨part, isOpen⟩ ⟨allowed, notSeal⟩
    exact ⟨_, _, .finished rfl, part.call isOpen allowed notSeal⟩)

end FlatLog

/-- One memory loglet that is never sealed is the flat log. -/
theorem memoryLoglet_flatLog {system : System TrackedLoglet LogletOp Unit LogletResult}
    (run : memoryComponent.machine.Run (FlatLog.unsealedSpec.permit (fun _ => False) .new)
      (.fresh .new) system) : FlatLog.unsealedSpec.Served .new system :=
  (FlatLog.unsealed.served ⟨.new (Nat.le_refl _), rfl⟩ run).1

end Relos
