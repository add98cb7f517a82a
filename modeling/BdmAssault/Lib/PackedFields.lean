import Mathlib.Algebra.Group.Nat.Defs
import Mathlib.Tactic.TypeStar

/-! # Packed bit-fields

A structure of bit-fields without padding, its first field in the lowest bits. The bits of the
storage are numbered from there.
-/

namespace BdmAssault.Lib

/-- The number in `width` bits from `offset` on, the lowest first. -/
def bitsValue (bit : Nat → Bool) : Nat → Nat → Nat
  | _, 0 => 0
  | offset, width + 1 => (bit offset).toNat + 2 * bitsValue bit (offset + 1) width

section Bits

variable {bit bit' : Nat → Bool} {offset width n : Nat}

/-- Only the bits of the field count, wherever they are. -/
theorem bitsValue_congr {offset' : Nat} (h : ∀ i < width, bit (offset + i) = bit' (offset' + i)) :
    bitsValue bit offset width = bitsValue bit' offset' width := by
  induction width generalizing offset offset' with
  | zero => rfl
  | succ width ih =>
      have hfirst := h 0 (Nat.succ_pos width)
      rw [Nat.add_zero, Nat.add_zero] at hfirst
      have hrest : bitsValue bit (offset + 1) width = bitsValue bit' (offset' + 1) width := by
        refine ih fun i hi => ?_
        rw [Nat.add_right_comm, Nat.add_right_comm offset']
        exact h (i + 1) (Nat.succ_lt_succ hi)
      rw [bitsValue, bitsValue, hfirst, hrest]

/-- A number whose bits are in two fields. -/
theorem bitsValue_add (bit : Nat → Bool) (offset a b : Nat) :
    bitsValue bit offset (a + b) = bitsValue bit offset a + bitsValue bit (offset + a) b * 2 ^ a := by
  induction a generalizing offset with
  | zero => rw [Nat.zero_add, Nat.add_zero, Nat.pow_zero, Nat.mul_one, bitsValue, Nat.zero_add]
  | succ a ih =>
      have hoffset : offset + 1 + a = offset + (a + 1) := by omega
      rw [Nat.add_right_comm, bitsValue, bitsValue, ih, hoffset, Nat.pow_succ, Nat.mul_add, Nat.add_assoc,
        Nat.mul_comm 2 (_ * _), Nat.mul_assoc]

theorem toNat_testBit_zero (n : Nat) : (n.testBit 0).toNat = n % 2 := by
  rw [Nat.testBit_zero]
  rcases Nat.mod_two_eq_zero_or_one n with h | h <;> simp [h]

theorem bitsValue_testBit (n offset width : Nat) :
    bitsValue n.testBit offset width = n / 2 ^ offset % 2 ^ width := by
  induction width generalizing offset with
  | zero => rw [Nat.pow_zero, Nat.mod_one, bitsValue]
  | succ width ih =>
      have hbit : (n.testBit offset).toNat = n / 2 ^ offset % 2 := by
        rw [← toNat_testBit_zero, Nat.testBit_div_two_pow, Nat.zero_add]
      rw [bitsValue, ih, hbit, Nat.pow_succ (m := width), Nat.mul_comm (2 ^ width), Nat.mod_mul,
        Nat.div_div_eq_div_mul, ← Nat.pow_succ]

end Bits

/-- The bits of a register, as a number. -/
theorem toNat_extractLsb' {w : Nat} (x : BitVec w) (lo width : Nat) :
    (x.extractLsb' lo width).toNat = bitsValue x.getLsbD lo width := by
  rw [BitVec.extractLsb'_toNat, Nat.shiftRight_eq_div_pow, ← bitsValue_testBit]
  rfl

/-! ## Layouts -/

section Layout

variable {φ : Type*} [DecidableEq φ]

/-- The fields in their order, with their widths. -/
abbrev Layout (φ : Type*) := List (φ × Nat)

/-- The bit at which a field begins. -/
def Layout.offset (f : φ) : Layout φ → Nat
  | [] => 0
  | (g, width) :: rest => if g = f then 0 else width + Layout.offset f rest

def Layout.width (f : φ) : Layout φ → Nat
  | [] => 0
  | (g, width) :: rest => if g = f then width else Layout.width f rest

def Layout.size (layout : Layout φ) : Nat := layout.foldr (fun entry n => entry.2 + n) 0

/-- The value of a field in a storage with these bits. -/
def Layout.value (layout : Layout φ) (bit : Nat → Bool) (f : φ) : Nat :=
  bitsValue bit (layout.offset f) (layout.width f)

end Layout

end BdmAssault.Lib
