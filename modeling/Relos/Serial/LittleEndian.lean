import Mathlib.Algebra.Group.Nat.Defs
import Mathlib.Data.Nat.Basic

set_option autoImplicit false

/-! Natural numbers as little-endian bytes of a fixed width. -/

namespace Serial

def toLeBytes : Nat → Nat → List UInt8
  | 0, _ => []
  | width + 1, value => UInt8.ofNat value :: toLeBytes width (value / 256)

def fromLeBytes : List UInt8 → Nat
  | [] => 0
  | byte :: rest => byte.toNat + 256 * fromLeBytes rest

theorem length_toLeBytes (width value : Nat) : (toLeBytes width value).length = width := by
  induction width generalizing value with
  | zero => rfl
  | succ width ih =>
      unfold toLeBytes
      rw [List.length_cons, ih]

theorem fromLeBytes_toLeBytes (width value : Nat) (fits : value < 256 ^ width) :
    fromLeBytes (toLeBytes width value) = value := by
  induction width generalizing value with
  | zero =>
      have zero : value = 0 := Nat.lt_one_iff.mp fits
      rw [zero]
      rfl
  | succ width ih =>
      unfold toLeBytes fromLeBytes
      rw [ih (value / 256) (Nat.div_lt_of_lt_mul (by rwa [Nat.mul_comm, ← Nat.pow_succ])),
        UInt8.toNat_ofNat']
      exact Nat.mod_add_div value 256

end Serial
