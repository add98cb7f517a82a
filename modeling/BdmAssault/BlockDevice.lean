import Mathlib.Logic.Function.Basic

/-! # Block devices

The parameters of `struct block_device`. The function pointers of the C record
are not data: each module that issues requests takes the device's answers as an
argument. Buffers are addressed by whole sectors.
-/

namespace BdmAssault

/-- `struct block_device`; `name` is `none` for a null name pointer. -/
structure BlockDevice where
  name : Option String
  devNr : UInt32
  parNr : UInt32
  parId : UInt8
  sectorSize : UInt32
  sectorOffset : UInt64
  sectorCount : UInt64
  deriving DecidableEq

/-- The error number of `-EIO`. -/
def eio : Int := 5

/-- The bytes of some sectors, in 32 bits. -/
theorem buffer_advance {size : UInt32} {sc : UInt16} :
    sc.toUInt32 * size = UInt32.ofNat (sc.toNat * size.toNat) := by
  apply UInt32.toNat_inj.mp
  rw [UInt32.toNat_mul, UInt16.toNat_toUInt32, UInt32.toNat_ofNat']

/-- `memcpy` of `n` sectors. -/
def copySectors {α : Type*} (dst src : Nat → α) (n : Nat) : Nat → α :=
  fun i => if i < n then src i else dst i

@[simp] theorem copySectors_of_lt {α : Type*} {dst src : Nat → α} {n i : Nat} (h : i < n) :
    copySectors dst src n i = src i := by
  simp [copySectors, h]

end BdmAssault
