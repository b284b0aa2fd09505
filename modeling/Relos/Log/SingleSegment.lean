import Relos.Async.Implementation
import Relos.Log.SegmentRefinement

set_option autoImplicit false

/-! The log of one engine. An apply loop appends, asks for the tail and reads, so that its log
is never sealed, and a virtual log that nobody else uses stays with its first segment. -/

namespace Relos

open Async Epochs

/-- What an apply loop asks of its log. -/
def LogletOp.ByLoop : LogletOp → Prop
  | .append _ | .checkTail => True
  | .read pos => logPosBegin ≤ pos
  | .trim _ | .seal => False

/-- A memory loglet as the log of an apply loop. -/
def loopSpec {Op : Type} (asks : Op → LogletOp) : Sequential MemoryLoglet Op LogletResult where
  next memory op := (memory.call (asks op)).1
  Allowed _ op := (asks op).ByLoop
  Answers memory op result := result = (memory.call (asks op)).2

namespace SegmentedLog

/-- The log has one open segment, which holds the memory loglet. -/
structure Single {initial : String} (log : SegmentedLog initial) (memory : MemoryLoglet) : Prop where
  ends : log.ends = []
  loglet : log.loglet 0 = memory
  isOpen : memory.sealed = false

variable {initial : String} {log : SegmentedLog initial} {memory : MemoryLoglet}

theorem Single.new : Single (.new : SegmentedLog initial) .new := ⟨rfl, rfl, rfl⟩

theorem Single.last (single : Single log memory) : log.last = 0 := by
  unfold SegmentedLog.last
  rw [single.ends]
  rfl

theorem Single.active (single : Single log memory) : log.active = memory := by
  unfold SegmentedLog.active
  rw [single.last]
  exact single.loglet

theorem Single.startPos (single : Single log memory) : log.startPos 0 = logPosBegin := by
  unfold SegmentedLog.startPos
  rw [single.ends]
  rfl

/-- Positions of the log are positions of its segment. -/
theorem Single.tail (single : Single log memory) : log.tail = memory.tail := by
  unfold SegmentedLog.tail
  rw [single.last, single.startPos, single.active]
  unfold localToGlobal MemoryLoglet.tail
  simp only [logPosBegin]
  omega

theorem Single.ready (single : Single log memory) : log.ready = log := by
  unfold SegmentedLog.ready
  rw [single.active, single.isOpen]
  rfl

theorem Single.covers (single : Single log memory) {pos : Nat} (positive : logPosBegin ≤ pos) :
    log.Covers 0 pos where
  inside := Nat.zero_le _
  starts := by
    rw [single.startPos]
    exact positive
  ends endPos closed := by
    rw [single.ends] at closed
    cases closed

theorem Single.append (single : Single log memory) (entry : Entry) :
    Single (log.call 0 (.append entry)) (memory.call (.append entry)).1 where
  ends := single.ends
  loglet := by
    unfold SegmentedLog.call
    rw [setLoglet_self, single.loglet]
  isOpen := by
    dsimp only [MemoryLoglet.call]
    rw [MemoryLoglet.append_open single.isOpen]
    exact single.isOpen

variable {State Fut Event : Type} {component : LogletComponent State Fut Event} {quiet : Event → Prop}
  {state : State}

end SegmentedLog

end Relos
