import Relos.Core
import Std.Data.String.ToNat

set_option autoImplicit false

/-! The log chain and its arithmetic between global and local positions. -/

namespace Relos

structure ChainSegment where
  logletId : String
  startPos : Nat
  /-- Exclusive; `none` means that the segment is open. -/
  endPos : Option Nat
deriving DecidableEq

def ChainSegment.contains (segment : ChainSegment) (globalPos : Nat) : Bool :=
  decide (segment.startPos ≤ globalPos) &&
    match segment.endPos with
    | some endPos => decide (globalPos < endPos)
    | none => true

structure LogChain where
  segments : List ChainSegment
deriving DecidableEq

/-- The `last_mut` update of `extend`: only an open last segment is closed. -/
def closeLast (sealPos : Nat) : List ChainSegment → List ChainSegment
  | [] => []
  | [last] =>
      [if last.endPos.isNone then { last with endPos := some sealPos } else last]
  | segment :: next :: rest => segment :: closeLast sealPos (next :: rest)

namespace LogChain

def new (initialLogletId : String) : LogChain :=
  { segments := [{ logletId := initialLogletId, startPos := logPosBegin, endPos := none }] }

def activeSegment (chain : LogChain) : Option ChainSegment :=
  chain.segments.getLast?.filter fun segment => segment.endPos.isNone

def findSegment (chain : LogChain) (globalPos : Nat) : Option ChainSegment :=
  chain.segments.find? fun segment => segment.contains globalPos

def extend (chain : LogChain) (sealPos : Nat) (newLogletId : String) : LogChain :=
  { segments := closeLast sealPos chain.segments ++
      [{ logletId := newLogletId, startPos := sealPos, endPos := none }] }

end LogChain

def localToGlobal (segmentStart localPos : Nat) : Nat := segmentStart + localPos - 1

def globalToLocal (segmentStart globalPos : Nat) : Nat := globalPos - segmentStart + 1

def generateLogletId (chain : LogChain) : String :=
  "loglet-" ++ toString chain.segments.length

/-- The identifiers that `generateLogletId` can produce for a non-empty chain. -/
def generatedId (index : Nat) : String := "loglet-" ++ toString index

theorem generatedId_injective {left right : Nat} (same : generatedId left = generatedId right) :
    left = right := by
  have printed : toString left = toString right := String.append_right_inj _ |>.mp same
  exact Nat.repr_inj.mp printed

end Relos
