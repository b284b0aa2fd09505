import Relos.Async.OneByOne
import Relos.Log.FlatRefinement

set_option autoImplicit false

/-! The arithmetic on positions as a build with overflow checks does it: `none` is the
panic of an addition, a subtraction or an index out of range. -/

namespace Relos

open Async Epochs

def checkedAdd (left right : Nat) : Option Nat :=
  if left + right ≤ logPosMax then some (left + right) else none

def checkedSub (left right : Nat) : Option Nat :=
  if right ≤ left then some (left - right) else none

theorem checkedAdd_eq {left right : Nat} (fits : left + right ≤ logPosMax) :
    checkedAdd left right = some (left + right) := if_pos fits

theorem checkedSub_eq {left right : Nat} (below : right ≤ left) :
    checkedSub left right = some (left - right) := if_pos below

def checkedLocalToGlobal (segmentStart localPos : Nat) : Option Nat :=
  (checkedAdd segmentStart localPos).bind fun sum => checkedSub sum 1

def checkedGlobalToLocal (segmentStart globalPos : Nat) : Option Nat :=
  (checkedSub globalPos segmentStart).bind fun difference => checkedAdd difference 1

theorem checkedLocalToGlobal_eq {segmentStart localPos : Nat}
    (fits : segmentStart + localPos ≤ logPosMax) (positive : 1 ≤ segmentStart) :
    checkedLocalToGlobal segmentStart localPos = some (localToGlobal segmentStart localPos) := by
  unfold checkedLocalToGlobal
  rw [checkedAdd_eq fits]
  exact checkedSub_eq (Nat.le_add_right_of_le positive)

theorem checkedGlobalToLocal_eq {segmentStart globalPos : Nat} (starts : segmentStart ≤ globalPos)
    (fits : globalPos ≤ logPosMax) (positive : 1 ≤ segmentStart) :
    checkedGlobalToLocal segmentStart globalPos = some (globalToLocal segmentStart globalPos) := by
  unfold checkedGlobalToLocal
  rw [checkedSub_eq starts]
  have room : globalPos - segmentStart + 1 ≤ logPosMax := by omega
  exact checkedAdd_eq room

/-! ### Memory loglets -/

namespace MemoryLoglet

def checkedTail (loglet : MemoryLoglet) : Option Nat :=
  checkedAdd loglet.entries.length logPosBegin

def checkedRead (loglet : MemoryLoglet) (pos : Nat) : Option (Result (Option Entry)) :=
  if pos < loglet.trimPos then some (.error (.trimmed pos))
  else loglet.checkedTail.bind fun tail =>
    if tail ≤ pos then some (.ok none)
    else (checkedSub pos logPosBegin).bind fun index => loglet.entries[index]?.map .ok

/-- `entries[index] = None` at each of these positions. -/
def checkedClear (entries : List (Option Entry)) : List Nat → Option (List (Option Entry))
  | [] => some entries
  | pos :: rest => (checkedSub pos logPosBegin).bind fun index =>
      if index < entries.length then checkedClear (entries.set index none) rest else none

def checkedTrim (loglet : MemoryLoglet) (pos : Nat) : Option MemoryLoglet :=
  if loglet.trimPos < pos then
    loglet.checkedTail.bind fun tail =>
      let last := if pos < tail then pos else tail
      (checkedClear loglet.entries (List.range' logPosBegin (last - logPosBegin))).map fun entries =>
        { loglet with trimPos := pos, entries := entries }
  else some loglet

def checkedCall (loglet : MemoryLoglet) : LogletOp → Option (MemoryLoglet × LogletResult)
  | .append entry => loglet.checkedTail.map fun tail =>
      if loglet.sealed then (loglet, .error (.sealed tail))
      else ({ loglet with entries := loglet.entries ++ [some entry] }, .ok (.pos tail))
  | .checkTail => loglet.checkedTail.map fun tail => (loglet, .ok (.pos tail))
  | .read pos => (loglet.checkedRead pos).map fun found => (loglet, found.map .entry)
  | .trim pos => (loglet.checkedTrim pos).map fun trimmed => (trimmed, .ok .unit)
  | .seal => loglet.checkedTail.map fun tail => ({ loglet with sealed := true }, .ok (.pos tail))

/-- The tail fits in 64 bits, and no position is below the first. -/
structure Bounded (loglet : MemoryLoglet) : Prop where
  fits : loglet.entries.length + logPosBegin ≤ logPosMax
  started : logPosBegin ≤ loglet.trimPos

variable {loglet : MemoryLoglet}

theorem Bounded.tail (bounded : loglet.Bounded) : loglet.checkedTail = some loglet.tail :=
  checkedAdd_eq bounded.fits

theorem Bounded.read (bounded : loglet.Bounded) (pos : Nat) :
    loglet.checkedRead pos = some (loglet.read pos) := by
  have started := bounded.started
  unfold checkedRead MemoryLoglet.read
  by_cases trimmed : pos < loglet.trimPos
  · rw [if_pos trimmed, if_pos trimmed]
  · rw [if_neg trimmed, if_neg trimmed, bounded.tail, Option.bind_some]
    by_cases beyond : loglet.tail ≤ pos
    · rw [if_pos beyond, if_pos beyond]
    · have positive : logPosBegin ≤ pos := by omega
      have inside : pos - logPosBegin < loglet.entries.length := by
        unfold MemoryLoglet.tail at beyond
        omega
      rw [if_neg beyond, if_neg beyond, checkedSub_eq positive, Option.bind_some,
        List.getElem?_eq_getElem inside]
      rfl

/-- Each position of the range has a slot, and the slots below the range are cleared. -/
theorem checkedClear_range {entries : List (Option Entry)} {first count : Nat}
    (inside : first + count ≤ entries.length) :
    checkedClear entries (List.range' (first + logPosBegin) count) =
      some (entries.mapIdx fun index entry =>
        if first ≤ index ∧ index < first + count then none else entry) := by
  induction count generalizing first entries with
  | zero =>
      have same : (entries.mapIdx fun index entry =>
          if first ≤ index ∧ index < first + 0 then none else entry) = entries := by
        apply List.ext_getElem?
        intro index
        have none : ¬ (first ≤ index ∧ index < first + 0) := by omega
        simp only [List.getElem?_mapIdx, if_neg none, Option.map_id']
      rw [same]
      rfl
  | succ count ih =>
      have held : first < entries.length := by omega
      have rest : first + 1 + count ≤ (entries.set first none).length := by
        rw [List.length_set]
        omega
      rw [List.range'_succ, checkedClear, checkedSub_eq (Nat.le_add_left _ _), Option.bind_some,
        Nat.add_sub_cancel, if_pos held, Nat.add_right_comm, ih rest]
      apply congrArg
      apply List.ext_getElem?
      intro index
      rw [List.getElem?_mapIdx, List.getElem?_mapIdx]
      by_cases here : index = first
      · subst here
        have kept : ¬ (index + 1 ≤ index ∧ index < index + 1 + count) := by omega
        have cleared : index ≤ index ∧ index < index + (count + 1) := by omega
        rw [List.getElem?_set_self held, List.getElem?_eq_getElem held, Option.map_some,
          Option.map_some, if_neg kept, if_pos cleared]
      · rw [List.getElem?_set_ne (fun same => here same.symm)]
        apply congrArg (Option.map · _)
        funext entry
        by_cases cleared : first ≤ index ∧ index < first + (count + 1)
        · rw [if_pos cleared, if_pos (by omega)]
        · rw [if_neg cleared, if_neg (by omega)]

theorem Bounded.trim (bounded : loglet.Bounded) (pos : Nat) :
    loglet.checkedTrim pos = some (loglet.trim pos) := by
  unfold checkedTrim MemoryLoglet.trim
  by_cases moves : loglet.trimPos < pos
  · have started := bounded.started
    have inside : 0 + ((if pos < loglet.tail then pos else loglet.tail) - logPosBegin) ≤
        loglet.entries.length := by
      unfold MemoryLoglet.tail
      split <;> omega
    rw [if_pos moves, if_pos moves, bounded.tail, Option.bind_some]
    dsimp only
    have cleared := checkedClear_range inside
    rw [Nat.zero_add] at cleared
    rw [cleared, Option.map_some]
    refine congrArg (fun entries => some (MemoryLoglet.mk entries loglet.sealed pos)) ?_
    apply List.ext_getElem?
    intro index
    rw [List.getElem?_mapIdx, List.getElem?_mapIdx]
    apply congrArg (Option.map · _)
    funext entry
    have same : (0 ≤ index ∧ index < 0 + ((if pos < loglet.tail then pos else loglet.tail) -
        logPosBegin)) ↔ index + logPosBegin < if pos < loglet.tail then pos else loglet.tail := by
      omega
    exact if_congr same rfl rfl
  · rw [if_neg moves, if_neg moves]

theorem Bounded.call (bounded : loglet.Bounded) (op : LogletOp) :
    loglet.checkedCall op = some (loglet.call op) := by
  cases op with
  | append entry =>
      dsimp only [checkedCall, MemoryLoglet.call, MemoryLoglet.append]
      rw [bounded.tail, Option.map_some]
      split <;> rfl
  | checkTail =>
      dsimp only [checkedCall]
      rw [bounded.tail]
      rfl
  | read pos =>
      dsimp only [checkedCall]
      rw [bounded.read]
      rfl
  | trim pos =>
      dsimp only [checkedCall]
      rw [bounded.trim]
      rfl
  | «seal» =>
      dsimp only [checkedCall]
      rw [bounded.tail]
      rfl

end MemoryLoglet

def TrackedLoglet.checkedCall (tracked : TrackedLoglet) (index : Nat) (op : LogletOp) :
    Option (TrackedLoglet × LogletResult) :=
  (tracked.loglet.checkedCall op).map fun (loglet, result) =>
    ({ loglet := loglet, written := record index tracked.written op result }, result)

theorem TrackedLoglet.checkedCall_eq {tracked : TrackedLoglet} (bounded : tracked.loglet.Bounded)
    (index : Nat) (op : LogletOp) :
    tracked.checkedCall index op = some (tracked.call index op) := by
  unfold checkedCall
  rw [bounded.call]
  rfl

/-! ### The virtual log -/

namespace VirtualLog

def checkedAwait (cluster : SoloLog) (index : Nat) (loglet : LogletRef) (op : LogletOp)
    (resume : LogletResult → Option (Option (Progress (Future Unit) LogletResult))) :
    Option (Poll Unit TrackedLoglet Unit) :=
  ((cluster.heap loglet).checkedCall index op).bind fun (state, result) =>
    (resume result).map fun progress =>
      progress.map fun progress => (cluster.setHeap loglet state, progress)

/-- A local position is made a global one. -/
def checkedResume (startPos : Nat) (translated : Nat → Progress (Future Unit) LogletResult)
    (resume : LogletResult → Option (Progress (Future Unit) LogletResult)) :
    LogletResult → Option (Option (Progress (Future Unit) LogletResult))
  | .ok (.pos localPos) =>
      (checkedLocalToGlobal startPos localPos).map fun globalPos => some (translated globalPos)
  | result => some (resume result)

/-- One poll with checked arithmetic. -/
def checkedPoll (cluster : SoloLog) (index : Nat) (call : Unit × LogletOp) :
    Future Unit → Option (Poll Unit TrackedLoglet Unit)
  | .append loglet startPos _ =>
      checkedAwait cluster index loglet call.2
        (checkedResume startPos (fun pos => .finished (.ok (.pos pos))) (resumeAppend startPos))
  | .checkTail loglet startPos _ =>
      checkedAwait cluster index loglet .checkTail
        (checkedResume startPos (fun pos => .finished (.ok (.pos pos))) (resumeGlobal startPos))
  | .seal loglet startPos _ =>
      checkedAwait cluster index loglet .seal
        (checkedResume startPos (fun pos => .finished (.ok (.pos pos))) (resumeGlobal startPos))
  | .reconfigureSeal loglet startPos _ =>
      checkedAwait cluster index loglet .seal
        (checkedResume startPos (fun pos => .running (.reconfigureVersion loglet startPos pos))
          (resumeReconfigure loglet startPos))
  | .readChain globalPos =>
      match (cluster.logs call.1).chain.findSegment globalPos with
      | none => some (finish cluster (.error (.internal s!"no segment found for position {globalPos}")))
      | some segment => (checkedGlobalToLocal segment.startPos globalPos).map fun localPos =>
          suspend cluster (.readLoglets localPos segment.logletId)
  | .read loglet localPos _ =>
      checkedAwait cluster index loglet (.read localPos) fun result => some (some (.finished result))
  | .trimSegments globalPos (segment :: todo) =>
      if segment.startPos < globalPos then
        let trimGlobal := min globalPos (segment.endPos.getD logPosMax)
        (checkedGlobalToLocal segment.startPos trimGlobal).map fun localTrim =>
          match (cluster.logs call.1).loglets[segment.logletId]? with
          | none => suspend cluster (.trimSegments globalPos todo)
          | some loglet => suspend cluster (.trim globalPos loglet localTrim () todo)
      else some (suspend cluster (.trimSegments globalPos todo))
  | .trim globalPos loglet localPos _ todo =>
      checkedAwait cluster index loglet (.trim localPos) fun result =>
        some (resumeTrim globalPos todo result)
  | future => some (poll .fresh memoryComponent cluster index call future)

variable {cluster : SoloLog} {index : Nat} {loglet : LogletRef} {op : LogletOp}

theorem checkedAwait_eq (bounded : (cluster.heap loglet).loglet.Bounded)
    {resume : LogletResult → Option (Option (Progress (Future Unit) LogletResult))}
    {resume' : LogletResult → Option (Progress (Future Unit) LogletResult)}
    (pending : Unit → Future Unit)
    (resumes : resume ((cluster.heap loglet).call index op).2 =
      some (resume' ((cluster.heap loglet).call index op).2)) :
    checkedAwait cluster index loglet op resume =
      some (await memoryComponent cluster index loglet op () pending resume') := by
  unfold checkedAwait
  rw [TrackedLoglet.checkedCall_eq bounded, Option.bind_some, SoloLog.await_memory]
  dsimp only
  rw [resumes]
  rfl

/-- A caller that does no arithmetic with the answer. -/
theorem checkedAwait_plain (bounded : (cluster.heap loglet).loglet.Bounded)
    (resume : LogletResult → Option (Progress (Future Unit) LogletResult))
    (pending : Unit → Future Unit) :
    checkedAwait cluster index loglet op (fun result => some (resume result)) =
      some (await memoryComponent cluster index loglet op () pending resume) :=
  checkedAwait_eq bounded pending rfl

/-- Where the translation of a local position does not overflow. -/
theorem checkedResume_eq {startPos : Nat} {translated : Nat → Progress (Future Unit) LogletResult}
    {resume : LogletResult → Option (Progress (Future Unit) LogletResult)} {result : LogletResult}
    (same : ∀ localPos, result = .ok (.pos localPos) →
      resume result = some (translated (localToGlobal startPos localPos)) ∧
        checkedLocalToGlobal startPos localPos = some (localToGlobal startPos localPos)) :
    checkedResume startPos translated resume result = some (resume result) := by
  unfold checkedResume
  split
  · rename_i localPos
    obtain ⟨resumes, checked⟩ := same localPos rfl
    rw [checked, resumes]
    rfl
  · rfl

end VirtualLog

end Relos
