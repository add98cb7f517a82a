import Mathlib.Algebra.Group.Nat.Defs
import Mathlib.Data.List.Induction

/-! # Big-endian numbers

The number that a list of bytes stands for, its highest byte first, and the bytes of a number.
-/

namespace BdmAssault.Lib

def bigEndian (bytes : List UInt8) : Nat := bytes.foldl (fun n b => 256 * n + b.toNat) 0

/-- The lowest `width` bytes of `n`. -/
def bigEndianBytes (n : Nat) : Nat → List UInt8
  | 0 => []
  | width + 1 => bigEndianBytes (n / 256) width ++ [UInt8.ofNat n]

section BigEndian

variable {bytes : List UInt8} {b : UInt8} {n width : Nat}

theorem bigEndian_concat (bytes : List UInt8) (b : UInt8) :
    bigEndian (bytes ++ [b]) = 256 * bigEndian bytes + b.toNat := by
  unfold bigEndian
  rw [List.foldl_append]
  rfl

theorem bigEndian_bytes (n width : Nat) : bigEndian (bigEndianBytes n width) = n % 256 ^ width := by
  induction width generalizing n with
  | zero => rw [Nat.pow_zero, Nat.mod_one, bigEndianBytes, bigEndian, List.foldl_nil]
  | succ width ih =>
      rw [bigEndianBytes, bigEndian_concat, ih, Nat.pow_succ, Nat.mul_comm (256 ^ width), Nat.mod_mul,
        UInt8.toNat_ofNat', Nat.add_comm]

/-- A byte that is shifted in. -/
theorem shiftLeft_or_byte (n : Nat) (b : UInt8) : n <<< 8 ||| b.toNat = 256 * n + b.toNat := by
  rw [← Nat.shiftLeft_add_eq_or_of_lt b.toNat_lt_size, Nat.shiftLeft_eq, Nat.mul_comm]

end BigEndian

/-! ## Bytes of a machine number -/

section Shift

theorem shiftRight_byte (n : UInt64) {k : Nat} (hk : k < 64) :
    (n >>> UInt64.ofNat k).toUInt8 = UInt8.ofNat (n.toNat / 2 ^ k) := by
  apply UInt8.toNat_inj.mp
  rw [UInt64.toNat_toUInt8, UInt64.toNat_shiftRight, UInt8.toNat_ofNat', Nat.shiftRight_eq_div_pow,
    UInt64.toNat_ofNat_of_lt' (by show k < 18446744073709551616; omega), Nat.mod_eq_of_lt hk]

theorem shiftRight_byte32 (n : UInt32) {k : Nat} (hk : k < 32) :
    (n >>> UInt32.ofNat k).toUInt8 = UInt8.ofNat (n.toNat / 2 ^ k) := by
  apply UInt8.toNat_inj.mp
  rw [UInt32.toNat_toUInt8, UInt32.toNat_shiftRight, UInt8.toNat_ofNat', Nat.shiftRight_eq_div_pow,
    UInt32.toNat_ofNat_of_lt' (by show k < 4294967296; omega), Nat.mod_eq_of_lt hk]

theorem shiftRight_byte16 (n : UInt16) {k : Nat} (hk : k < 16) :
    (n >>> UInt16.ofNat k).toUInt8 = UInt8.ofNat (n.toNat / 2 ^ k) := by
  apply UInt8.toNat_inj.mp
  rw [UInt16.toNat_toUInt8, UInt16.toNat_shiftRight, UInt8.toNat_ofNat', Nat.shiftRight_eq_div_pow,
    UInt16.toNat_ofNat_of_lt' (by show k < 65536; omega), Nat.mod_eq_of_lt hk]

/-- The bytes one by one, the lowest first in `f`. -/
theorem bigEndianBytes_eq {f : Nat → UInt8} {n width : Nat} (h : ∀ k < width, f k = .ofNat (n / 2 ^ (8 * k))) :
    ((List.range width).map f).reverse = bigEndianBytes n width := by
  induction width generalizing f n with
  | zero => rfl
  | succ width ih =>
      rw [List.range_succ_eq_map, List.map_cons, List.reverse_cons, bigEndianBytes, List.map_map]
      rw [ih fun k hk => ?_, h 0 (by omega)]
      · rw [Nat.mul_zero, Nat.pow_zero, Nat.div_one]
      · rw [Function.comp_apply, h (k + 1) (by omega), Nat.div_div_eq_div_mul, Nat.mul_succ, Nat.pow_add,
          Nat.mul_comm (2 ^ (8 * k))]

theorem shiftRight_bytes (n : UInt64) (width : Nat) (h : width ≤ 8) :
    ((List.range width).map fun k => (n >>> UInt64.ofNat (8 * k)).toUInt8).reverse = bigEndianBytes n.toNat width :=
  bigEndianBytes_eq fun _ hk => shiftRight_byte n (by omega)

theorem shiftRight_bytes32 (n : UInt32) (width : Nat) (h : width ≤ 4) :
    ((List.range width).map fun k => (n >>> UInt32.ofNat (8 * k)).toUInt8).reverse = bigEndianBytes n.toNat width :=
  bigEndianBytes_eq fun _ hk => shiftRight_byte32 n (by omega)

theorem shiftRight_bytes16 (n : UInt16) (width : Nat) (h : width ≤ 2) :
    ((List.range width).map fun k => (n >>> UInt16.ofNat (8 * k)).toUInt8).reverse = bigEndianBytes n.toNat width :=
  bigEndianBytes_eq fun _ hk => shiftRight_byte16 n (by omega)

theorem toUInt8_bytes8 (n : UInt64) :
    [(n >>> 56).toUInt8, (n >>> 48).toUInt8, (n >>> 40).toUInt8, (n >>> 32).toUInt8, (n >>> 24).toUInt8,
      (n >>> 16).toUInt8, (n >>> 8).toUInt8, n.toUInt8] = bigEndianBytes n.toNat 8 :=
  shiftRight_bytes n 8 (by decide)

theorem toUInt8_bytes4 (n : UInt64) :
    [(n >>> 24).toUInt8, (n >>> 16).toUInt8, (n >>> 8).toUInt8, n.toUInt8] = bigEndianBytes n.toNat 4 :=
  shiftRight_bytes n 4 (by decide)

end Shift

end BdmAssault.Lib
