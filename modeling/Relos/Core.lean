import Std.Data.ExtTreeMap
import Mathlib.Control.Monad.Basic

set_option autoImplicit false

/-! Positions, entries and errors shared by every crate. -/

namespace Relos

abbrev Bytes := List UInt8

instance : LawfulBEq Bytes := inferInstance

/-- `into_bytes` and `as_bytes` of a string. -/
def utf8 (text : String) : Bytes := text.toByteArray.data.toList

theorem utf8_append (left right : String) : utf8 (left ++ right) = utf8 left ++ utf8 right := by
  unfold utf8
  rw [String.toByteArray_append, ByteArray.data_append, Array.toList_append]

theorem utf8_injective {left right : String} (same : utf8 left = utf8 right) : left = right :=
  String.toByteArray_inj.mp (ByteArray.ext (Array.ext' same))

theorem utf8_startsWith {left right : String} :
    utf8 left <+: utf8 right ↔ left.toList <+: right.toList := by
  constructor
  · rintro ⟨rest, whole⟩
    refine List.isPrefix_of_utf8Encode_append_eq_utf8Encode ⟨rest.toArray⟩ ?_
    rw [String.utf8Encode_toList, String.utf8Encode_toList]
    refine ByteArray.ext (Array.ext' ?_)
    rw [ByteArray.data_append, Array.toList_append]
    exact whole
  · rintro ⟨rest, whole⟩
    have same : right = left ++ String.ofList rest :=
      String.toList_inj.mp (by rw [String.toList_append, String.toList_ofList, whole])
    rw [same, utf8_append]
    exact List.prefix_append _ _

theorem append_ne_of_head {left right : Bytes} (left_ne : left ≠ []) (right_ne : right ≠ [])
    (different : left.head? ≠ right.head?) (rest rest' : Bytes) : left ++ rest ≠ right ++ rest' := by
  intro same
  cases left with
  | nil => exact left_ne rfl
  | cons first left =>
      cases right with
      | nil => exact right_ne rfl
      | cons first' right =>
          cases List.head_eq_of_cons_eq same
          exact different rfl

/-- `isize::MAX`. No `Vec` is longer: a push beyond it panics. -/
def vecCapacity : Nat := 9223372036854775807

/-- `LogPos` is `u64` in the source; positions are natural numbers here. -/
def logPosBegin : Nat := 1

/-- `LogPos::MAX`. -/
def logPosMax : Nat := 18446744073709551615

/-- The header map is a `HashMap` in the source; its iteration order is never observed. -/
structure Entry where
  headers : Std.ExtTreeMap String Bytes
  payload : Bytes
deriving DecidableEq

def Entry.new (payload : Bytes) : Entry := { headers := ∅, payload := payload }

def Entry.withHeader (entry : Entry) (engine : String) (header : Bytes) : Entry :=
  { entry with headers := entry.headers.insert engine header }

def Entry.getHeader (entry : Entry) (engine : String) : Option Bytes := entry.headers[engine]?

inductive RelosError where
  | sealed (tail : Nat)
  | trimmed (pos : Nat)
  | endOfLog
  | versionMismatch (expected actual : Nat)
  | serialization (message : String)
  | store (message : String)
  | notFound (message : String)
  | invalidOperation (message : String)
  | io (message : String)
  | internal (message : String)
deriving DecidableEq

/-- The `Display` that `thiserror` derives. -/
def RelosError.toString : RelosError → String
  | .sealed tail => "log sealed at position " ++ ToString.toString tail
  | .trimmed pos => "position " ++ ToString.toString pos ++ " has been trimmed"
  | .endOfLog => "end of log reached"
  | .versionMismatch expected actual => "version mismatch: expected " ++
      ToString.toString expected ++ ", got " ++ ToString.toString actual
  | .serialization message => "serialization error: " ++ message
  | .store message => "store error: " ++ message
  | .notFound message => "not found: " ++ message
  | .invalidOperation message => "invalid operation: " ++ message
  | .io message => "io error: " ++ message
  | .internal message => "internal error: " ++ message

abbrev Result (α : Type) := Except RelosError α

/-- The two functions of `bincode` at one type. -/
structure Bincode (α : Type) where
  serialize : α → Result Bytes
  deserialize : Bytes → Result α

/-- Serializing succeeds, and deserializing inverts it. -/
def Bincode.Lawful {α : Type} (codec : Bincode α) : Prop :=
  ∀ value, ∃ bytes, codec.serialize value = .ok bytes ∧ codec.deserialize bytes = .ok value

end Relos
