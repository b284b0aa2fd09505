import Relos.Serial.LittleEndian
import Mathlib.Data.List.Basic

set_option autoImplicit false

/-! Formats whose decoder takes its value off the front of the bytes, so that one can
be followed by another. -/

namespace Serial

structure Format (α : Type) where
  encode : α → List UInt8
  decode : List UInt8 → Option (α × List UInt8)
  decode_encode : ∀ value rest, decode (encode value ++ rest) = some (value, rest)

namespace Format

variable {α β : Type}

/-- Decode what is one field or variant of a larger value. -/
def decodeAs (format : Format β) (make : β → α) (bytes : List UInt8) : Option (α × List UInt8) :=
  (format.decode bytes).map fun found => (make found.1, found.2)

theorem decodeAs_encode (format : Format β) (make : β → α) (value : β) (rest : List UInt8) :
    format.decodeAs make (format.encode value ++ rest) = some (make value, rest) := by
  unfold decodeAs
  rw [format.decode_encode]
  rfl

/-- Integers of a fixed number of bytes. -/
def fixed (width : Nat) (toNat : α → Nat) (ofNat : Nat → α)
    (fits : ∀ value, toNat value < 256 ^ width) (inverse : ∀ value, ofNat (toNat value) = value) :
    Format α where
  encode value := toLeBytes width (toNat value)
  decode bytes :=
    if width ≤ bytes.length then some (ofNat (fromLeBytes (bytes.take width)), bytes.drop width)
    else none
  decode_encode value rest := by
    have length := length_toLeBytes width (toNat value)
    have long : width ≤ (toLeBytes width (toNat value) ++ rest).length := by
      rw [List.length_append, length]
      exact Nat.le_add_right width rest.length
    rw [if_pos long, List.take_left' length, List.drop_left' length,
      fromLeBytes_toLeBytes width _ (fits value), inverse]

def pair (first : Format α) (second : Format β) : Format (α × β) where
  encode value := first.encode value.1 ++ second.encode value.2
  decode bytes := (first.decode bytes).bind fun found => second.decodeAs (Prod.mk found.1) found.2
  decode_encode value rest := by
    rw [List.append_assoc, first.decode_encode, Option.bind_some, second.decodeAs_encode]

/-- Values that the other format carries. -/
def map (format : Format β) (carry : α → β) (back : β → Option α)
    (inverse : ∀ value, back (carry value) = some value) : Format α where
  encode value := format.encode (carry value)
  decode bytes := (format.decode bytes).bind fun found => (back found.1).map (·, found.2)
  decode_encode value rest := by
    rw [format.decode_encode, Option.bind_some, inverse]
    rfl

/-! ### Enumerations -/

def tag : Format { number : Nat // number < 256 ^ 4 } :=
  fixed 4 Subtype.val (fun number => ⟨number % 256 ^ 4, Nat.mod_lt _ (by decide)⟩) Subtype.property
    fun number => Subtype.ext (Nat.mod_eq_of_lt number.property)

/-- The number of the variant in four bytes, then what the variant holds. -/
def enum (number : α → { number : Nat // number < 256 ^ 4 }) (payload : α → List UInt8)
    (variant : Nat → List UInt8 → Option (α × List UInt8))
    (variant_payload : ∀ value rest,
      variant (number value).val (payload value ++ rest) = some (value, rest)) : Format α where
  encode value := tag.encode (number value) ++ payload value
  decode bytes := (tag.decode bytes).bind fun found => variant found.1.val found.2
  decode_encode value rest := by
    rw [List.append_assoc, tag.decode_encode, Option.bind_some, variant_payload]

theorem enum_ne_nil (number : α → { number : Nat // number < 256 ^ 4 }) (payload : α → List UInt8)
    (variant : Nat → List UInt8 → Option (α × List UInt8))
    (variant_payload : ∀ value rest,
      variant (number value).val (payload value ++ rest) = some (value, rest)) (value : α) :
    (enum number payload variant variant_payload).encode value ≠ [] := by
  intro empty
  have tagged := (List.append_eq_nil_iff.mp empty).1
  have length := length_toLeBytes 4 (number value).val
  rw [show toLeBytes 4 (number value).val = [] from tagged] at length
  cases length

/-! ### Sequences -/

/-- Counts up to here take eight bytes. Lists of this library are unbounded, so the
rest of a larger count follows in unary. -/
def longest : Nat := 256 ^ 8 - 1

def unary (count : Nat) : List UInt8 := List.replicate count 1 ++ [0]

def fromUnary : List UInt8 → Option (Nat × List UInt8)
  | [] => none
  | byte :: rest =>
      if byte = 0 then some (0, rest) else (fromUnary rest).map fun found => (found.1 + 1, found.2)

theorem fromUnary_unary (count : Nat) (rest : List UInt8) :
    fromUnary (unary count ++ rest) = some (count, rest) := by
  unfold unary
  induction count with
  | zero => rfl
  | succ count ih =>
      rw [List.replicate_succ, List.cons_append, List.cons_append, fromUnary, ih]
      rfl

def word : Format { number : Nat // number < 256 ^ 8 } :=
  fixed 8 Subtype.val (fun number => ⟨number % 256 ^ 8, Nat.mod_lt _ (by decide)⟩) Subtype.property
    fun number => Subtype.ext (Nat.mod_eq_of_lt number.property)

def count : Format Nat where
  encode number :=
    if inside : number < longest then word.encode ⟨number, Nat.lt_of_lt_of_le inside (by decide)⟩
    else word.encode ⟨longest, by decide⟩ ++ unary (number - longest)
  decode bytes := (word.decode bytes).bind fun found =>
    if found.1.val < longest then some (found.1.val, found.2)
    else (fromUnary found.2).map fun more => (longest + more.1, more.2)
  decode_encode number rest := by
    split
    · rename_i inside
      rw [word.decode_encode, Option.bind_some, if_pos inside]
    · rename_i outside
      rw [List.append_assoc, word.decode_encode, Option.bind_some, if_neg (Nat.lt_irrefl longest),
        fromUnary_unary]
      exact congrArg (fun number => some (number, rest)) (Nat.add_sub_of_le (Nat.le_of_not_lt outside))

def decodeMany (item : Format α) : Nat → List UInt8 → Option (List α × List UInt8)
  | 0, bytes => some ([], bytes)
  | count + 1, bytes => (item.decode bytes).bind fun found =>
      (decodeMany item count found.2).map fun more => (found.1 :: more.1, more.2)

theorem decodeMany_encode (item : Format α) (values : List α) (rest : List UInt8) :
    item.decodeMany values.length (values.flatMap item.encode ++ rest) = some (values, rest) := by
  induction values with
  | nil => rfl
  | cons value values ih =>
      rw [List.length_cons, decodeMany, List.flatMap_cons, List.append_assoc, item.decode_encode,
        Option.bind_some, ih]
      rfl

/-- The length, then the items. -/
def list (item : Format α) : Format (List α) where
  encode values := count.encode values.length ++ values.flatMap item.encode
  decode bytes := (count.decode bytes).bind fun found => item.decodeMany found.1 found.2
  decode_encode values rest := by
    rw [List.append_assoc, count.decode_encode, Option.bind_some, decodeMany_encode]

end Format

end Serial
