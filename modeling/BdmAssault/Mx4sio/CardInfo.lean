import BdmAssault.Lib.PackedFields

/-! # The capacity of an SD card

`spisd_get_card_info`: the CSD register as the structures of bit-fields that are laid over its
bytes, and the capacity that the register stands for.
-/

namespace BdmAssault.Mx4sio

open Lib

/-! ## The structures -/

inductive CsdField where
  | reserved1
  | csdStructure
  | taac
  | nsac
  | tranSpeed
  | cccHi
  | readBlLen
  | cccLo
  | readBlPartial
  | writeBlkMisalign
  | readBlkMisalign
  | dsrImp
  | reserved2
  | cSizeHi
  | reserved3
  | cSizeMd
  | cSizeLo
  | reserved4
  | vddRCurrMax
  | vddRCurrMin
  | cSizeMultHi
  | vddWCurrMax
  | vddWCurrMin
  | cSizeMultLo
  | eraseBlkEn
  | sectorSizeHigh
  | sectorSizeLow
  | wpGrpSize
  | epGrpEnable
  | reserved5
  | r2wFactor
  | writeBlLenHigh
  | writeBlLenLow
  | writeBlPartial
  | reserved6
  | fileFormatGroup
  | copy
  | permWriteProtect
  | tmpWriteProtect
  | fileFormat
  | reserved7
  | crc
  | fixedTo1
deriving DecidableEq

/-- The last fields of both structures. -/
def csdTail : Layout CsdField :=
  [(.eraseBlkEn, 1), (.sectorSizeHigh, 6), (.sectorSizeLow, 1), (.wpGrpSize, 7), (.epGrpEnable, 1),
    (.reserved5, 2), (.r2wFactor, 3), (.writeBlLenHigh, 2), (.writeBlLenLow, 2), (.writeBlPartial, 1),
    (.reserved6, 5), (.fileFormatGroup, 1), (.copy, 1), (.permWriteProtect, 1), (.tmpWriteProtect, 1),
    (.fileFormat, 2), (.reserved7, 2), (.crc, 7), (.fixedTo1, 1)]

/-- `struct t_csdVer1`. -/
def csdVer1 : Layout CsdField :=
  [(.reserved1, 6), (.csdStructure, 2), (.taac, 8), (.nsac, 8), (.tranSpeed, 8),
    (.cccHi, 8), (.readBlLen, 4), (.cccLo, 4),
    (.cSizeHi, 2), (.readBlPartial, 1), (.writeBlkMisalign, 1), (.readBlkMisalign, 1), (.dsrImp, 1),
    (.reserved2, 2), (.cSizeMd, 8), (.cSizeLo, 2), (.vddRCurrMax, 3), (.vddRCurrMin, 3),
    (.cSizeMultHi, 2), (.vddWCurrMax, 3), (.vddWCurrMin, 3), (.cSizeMultLo, 1)] ++ csdTail

/-- `struct t_csdVer2`. -/
def csdVer2 : Layout CsdField :=
  [(.reserved1, 6), (.csdStructure, 2), (.taac, 8), (.nsac, 8), (.tranSpeed, 8),
    (.cccHi, 8), (.readBlLen, 4), (.cccLo, 4),
    (.readBlPartial, 1), (.writeBlkMisalign, 1), (.readBlkMisalign, 1), (.dsrImp, 1), (.reserved2, 4),
    (.cSizeHi, 6), (.reserved3, 2), (.cSizeMd, 8), (.cSizeLo, 8), (.reserved4, 1)] ++ csdTail

example : csdVer1.size = 128 ∧ csdVer2.size = 128 := by decide

/-- Byte `i` of the register: the card sends its highest bits first. -/
def csdByte (csd : BitVec 128) (i : Nat) : BitVec 8 := csd.extractLsb' (120 - 8 * i) 8

/-- The bits of `sdcard.csd`, from the lowest one of its first byte. -/
def storageBit (csd : BitVec 128) (k : Nat) : Bool := (csdByte csd (k / 8)).getLsbD (k % 8)

/-! ## The function -/

/-- The answers to CMD9 and CMD10, and what came of reading the registers behind them. -/
structure CardAnswers where
  cmd9 : UInt8
  csdRead : UInt8
  cmd10 : UInt8
  cidRead : UInt8

def CardAnswers.Answered (a : CardAnswers) : Prop := a.cmd9 = 0 ∧ a.csdRead = 0 ∧ a.cmd10 = 0 ∧ a.cidRead = 0

/-- `bd.sectorCount` from the register; `none` for a structure that is not known. -/
def csdSectorCount (csd : BitVec 128) : Option Nat :=
  let csdv1 := csdVer1.value (storageBit csd)
  let csdv2 := csdVer2.value (storageBit csd)
  if csdv1 .csdStructure = 0 then
    let cSizeMult := csdv1 .cSizeMultHi <<< 1 ||| csdv1 .cSizeMultLo
    let cSize := csdv1 .cSizeHi <<< 10 ||| csdv1 .cSizeMd <<< 2 ||| csdv1 .cSizeLo
    let blockNr := (cSize + 1) <<< (cSizeMult + 2)
    let blockLen := 1 <<< csdv1 .readBlLen
    some (blockNr * blockLen / 512)
  else if csdv1 .csdStructure = 1 then
    let cSize := csdv2 .cSizeHi <<< 16 ||| csdv2 .cSizeMd <<< 8 ||| csdv2 .cSizeLo
    some ((cSize + 1) * 1024)
  else none

/-- `spisd_get_card_info`: the result, and `bd.sectorCount`. -/
def spisdGetCardInfo (a : CardAnswers) (csd : BitVec 128) : UInt8 × Nat :=
  if a.cmd9 ≠ 0 then (a.cmd9, 0)
  else if a.csdRead ≠ 0 then (1, 0)
  else if a.cmd10 ≠ 0 then (1, 0)
  else if a.cidRead ≠ 0 then (1, 0)
  else
    match csdSectorCount csd with
    | none => (1, 0)
    | some sectorCount => (if sectorCount = 0 then 1 else 0, sectorCount)

/-! ## The register -/

/-- Bits `hi` to `lo` of the register. -/
def field (csd : BitVec 128) (hi lo : Nat) : Nat := (csd.extractLsb hi lo).toNat

/-- The capacity in sectors of 512 bytes: `C_SIZE`, `C_SIZE_MULT` and `READ_BL_LEN` of version
1.0, and `C_SIZE` of version 2.0. -/
def capacity (csd : BitVec 128) : Nat :=
  if field csd 127 126 = 0 then
    (field csd 73 62 + 1) * 2 ^ (field csd 49 47 + 2) * 2 ^ field csd 83 80 / 512
  else (field csd 69 48 + 1) * 1024

/-- Bits 57:56 are read for the low bits of `C_SIZE`, and bit 40 for the low bit of
`C_SIZE_MULT`. The bits that are lost in the division by 512 make no difference. -/
def ReadsAlike (csd : BitVec 128) : Prop :=
  let dropped := 2 ^ (7 - (2 * field csd 49 48 + field csd 83 80))
  (4 * field csd 73 64 + field csd 57 56 + 1) * 2 ^ field csd 40 40 / dropped =
    (4 * field csd 73 64 + field csd 63 62 + 1) * 2 ^ field csd 47 47 / dropped

section Fields

variable {csd : BitVec 128}

theorem field_eq (csd : BitVec 128) (hi lo : Nat) : field csd hi lo = bitsValue csd.getLsbD lo (hi - lo + 1) :=
  toNat_extractLsb' csd lo (hi - lo + 1)

theorem field_lt (csd : BitVec 128) (hi lo : Nat) : field csd hi lo < 2 ^ (hi - lo + 1) := (csd.extractLsb hi lo).isLt

/-- The bits above and below. -/
theorem field_split {hi mid lo : Nat} (hlo : lo < mid) (hhi : mid ≤ hi) :
    field csd hi lo = field csd hi mid * 2 ^ (mid - lo) + field csd (mid - 1) lo := by
  rw [field_eq, field_eq, field_eq, show hi - lo + 1 = (mid - lo) + (hi - mid + 1) by omega, bitsValue_add,
    show lo + (mid - lo) = mid by omega, show mid - 1 - lo + 1 = mid - lo by omega, Nat.add_comm]

theorem storageBit_eq {k : Nat} : storageBit csd k = csd.getLsbD (120 - 8 * (k / 8) + k % 8) := by
  unfold storageBit csdByte
  rw [BitVec.getLsbD_extractLsb', decide_eq_true (Nat.mod_lt k (by decide)), Bool.true_and]

/-- A bit-field inside of a byte. -/
theorem storage_field {offset width : Nat} (hpos : 0 < width) (h : offset % 8 + width ≤ 8) :
    bitsValue (storageBit csd) offset width =
      field csd (120 - 8 * (offset / 8) + offset % 8 + (width - 1)) (120 - 8 * (offset / 8) + offset % 8) := by
  rw [field_eq, show 120 - 8 * (offset / 8) + offset % 8 + (width - 1) -
    (120 - 8 * (offset / 8) + offset % 8) + 1 = width by omega]
  refine bitsValue_congr fun i hi => ?_
  rw [storageBit_eq]
  congr 1
  omega

end Fields

/-! ## The fields of the structures -/

section Values

variable (csd : BitVec 128)

theorem csdStructure_eq : csdVer1.value (storageBit csd) .csdStructure = field csd 127 126 :=
  @storage_field csd 6 2 (by decide) (by decide)

theorem ver1_readBlLen : csdVer1.value (storageBit csd) .readBlLen = field csd 83 80 :=
  @storage_field csd 40 4 (by decide) (by decide)

/-- The field of two bits is in the low bits of the byte, and not in its high ones. -/
theorem ver1_cSizeLo : csdVer1.value (storageBit csd) .cSizeLo = field csd 57 56 :=
  @storage_field csd 64 2 (by decide) (by decide)

theorem ver1_cSizeMultLo : csdVer1.value (storageBit csd) .cSizeMultLo = field csd 40 40 :=
  @storage_field csd 80 1 (by decide) (by decide)

theorem ver1_cSizeMult :
    csdVer1.value (storageBit csd) .cSizeMultHi <<< 1 ||| csdVer1.value (storageBit csd) .cSizeMultLo =
      2 * field csd 49 48 + field csd 40 40 := by
  have hhi : csdVer1.value (storageBit csd) .cSizeMultHi = field csd 49 48 :=
    @storage_field csd 72 2 (by decide) (by decide)
  rw [hhi, ver1_cSizeMultLo, ← Nat.shiftLeft_add_eq_or_of_lt (field_lt csd 40 40), Nat.shiftLeft_eq,
    Nat.pow_one, Nat.mul_comm]

theorem ver1_cSize :
    csdVer1.value (storageBit csd) .cSizeHi <<< 10 ||| csdVer1.value (storageBit csd) .cSizeMd <<< 2 |||
      csdVer1.value (storageBit csd) .cSizeLo = 4 * field csd 73 64 + field csd 57 56 := by
  have hhi : csdVer1.value (storageBit csd) .cSizeHi = field csd 73 72 :=
    @storage_field csd 48 2 (by decide) (by decide)
  have hmd : csdVer1.value (storageBit csd) .cSizeMd = field csd 71 64 :=
    @storage_field csd 56 8 (by decide) (by decide)
  have hupper := @field_split csd 73 72 64 (by decide) (by decide)
  have hlow : field csd 57 56 < 2 ^ 2 := field_lt csd 57 56
  have hmiddle : field csd 71 64 < 2 ^ 8 := field_lt csd 71 64
  rw [hhi, hmd, ver1_cSizeLo, show (10 : Nat) = 8 + 2 from rfl, Nat.shiftLeft_add, ← Nat.shiftLeft_or_distrib,
    ← Nat.shiftLeft_add_eq_or_of_lt hmiddle, ← Nat.shiftLeft_add_eq_or_of_lt hlow, Nat.shiftLeft_eq,
    Nat.shiftLeft_eq, hupper, Nat.mul_comm 4]

theorem ver2_cSize :
    csdVer2.value (storageBit csd) .cSizeHi <<< 16 ||| csdVer2.value (storageBit csd) .cSizeMd <<< 8 |||
      csdVer2.value (storageBit csd) .cSizeLo = field csd 69 48 := by
  have hhi : csdVer2.value (storageBit csd) .cSizeHi = field csd 69 64 :=
    @storage_field csd 56 6 (by decide) (by decide)
  have hmd : csdVer2.value (storageBit csd) .cSizeMd = field csd 63 56 :=
    @storage_field csd 64 8 (by decide) (by decide)
  have hlo : csdVer2.value (storageBit csd) .cSizeLo = field csd 55 48 :=
    @storage_field csd 72 8 (by decide) (by decide)
  have hupper := @field_split csd 69 64 56 (by decide) (by decide)
  have hwhole := @field_split csd 69 56 48 (by decide) (by decide)
  have hlow : field csd 55 48 < 2 ^ 8 := field_lt csd 55 48
  have hmiddle : field csd 63 56 < 2 ^ 8 := field_lt csd 63 56
  rw [hhi, hmd, hlo, show (16 : Nat) = 8 + 8 from rfl, Nat.shiftLeft_add, ← Nat.shiftLeft_or_distrib,
    ← Nat.shiftLeft_add_eq_or_of_lt hmiddle, ← Nat.shiftLeft_add_eq_or_of_lt hlow, Nat.shiftLeft_eq,
    Nat.shiftLeft_eq, hwhole, hupper]

end Values

/-! ## The capacity -/

/-- What is left of a product of a power of two. -/
theorem mul_pow_div (n k : Nat) : n * 2 ^ (k + 2) / 512 = n / 2 ^ (7 - k) * 2 ^ (k - 7) := by
  rcases Nat.lt_or_ge k 7 with hk | hk
  · have h512 : 512 = 2 ^ (7 - k) * 2 ^ (k + 2) := by
      rw [← Nat.pow_add, show 7 - k + (k + 2) = 9 by omega]
    rw [h512, Nat.mul_div_mul_right _ _ (Nat.two_pow_pos _), show k - 7 = 0 by omega, Nat.pow_zero, Nat.mul_one]
  · have hsplit : n * 2 ^ (k + 2) = n * 2 ^ (k - 7) * 512 := by
      rw [show k + 2 = k - 7 + 9 by omega, Nat.pow_add, Nat.mul_assoc]
    rw [hsplit, Nat.mul_div_cancel _ (by decide), show 7 - k = 0 by omega, Nat.pow_zero, Nat.div_one]

/-- A capacity of version 1.0, for either low bit of the multiplier. -/
theorem sectors_eq (size high low len : Nat) :
    (size + 1) * 2 ^ (2 * high + low + 2) * 2 ^ len / 512 =
      (size + 1) * 2 ^ low / 2 ^ (7 - (2 * high + len)) * 2 ^ (2 * high + len - 7) := by
  rw [← mul_pow_div, Nat.mul_assoc, Nat.mul_assoc, ← Nat.pow_add, ← Nat.pow_add]
  congr 3
  omega

theorem field_size (csd : BitVec 128) : field csd 73 62 = 4 * field csd 73 64 + field csd 63 62 := by
  have hsplit : field csd 73 62 = field csd 73 64 * 4 + field csd 63 62 :=
    @field_split csd 73 64 62 (by decide) (by decide)
  rw [hsplit, Nat.mul_comm]

theorem field_mult (csd : BitVec 128) : field csd 49 47 = 2 * field csd 49 48 + field csd 47 47 := by
  have hsplit : field csd 49 47 = field csd 49 48 * 2 + field csd 47 47 :=
    @field_split csd 49 48 47 (by decide) (by decide)
  rw [hsplit, Nat.mul_comm]

theorem ver1_sectorCount {csd : BitVec 128} (h : field csd 127 126 = 0) :
    csdSectorCount csd = some ((4 * field csd 73 64 + field csd 57 56 + 1) *
      2 ^ (2 * field csd 49 48 + field csd 40 40 + 2) * 2 ^ field csd 83 80 / 512) := by
  unfold csdSectorCount
  dsimp only
  rw [csdStructure_eq, if_pos h, ver1_cSizeMult, ver1_cSize, ver1_readBlLen, Nat.shiftLeft_eq, Nat.shiftLeft_eq,
    Nat.one_mul]

theorem ver2_sectorCount {csd : BitVec 128} (h : field csd 127 126 = 1) :
    csdSectorCount csd = some ((field csd 69 48 + 1) * 1024) := by
  unfold csdSectorCount
  dsimp only
  rw [csdStructure_eq, if_neg (by rw [h]; decide), if_pos h, ver2_cSize]

theorem answered_sectorCount {a : CardAnswers} {csd : BitVec 128} {n : Nat} (h : a.Answered)
    (hn : csdSectorCount csd = some n) : (spisdGetCardInfo a csd).2 = n := by
  obtain ⟨hcmd9, hcsd, hcmd10, hcid⟩ := h
  unfold spisdGetCardInfo
  rw [if_neg (not_not_intro hcmd9), if_neg (not_not_intro hcsd), if_neg (not_not_intro hcmd10),
    if_neg (not_not_intro hcid), hn]

/-- The coincidences of small cards: two sectors for one, or four for two, with the other
multiplier. -/
def Coincides (csd : BitVec 128) : Prop :=
  field csd 73 64 = 0 ∧
    ((field csd 40 40 = 1 ∧ field csd 47 47 = 0 ∧ field csd 63 62 = 2 * field csd 57 56 + 1) ∨
      (field csd 40 40 = 0 ∧ field csd 47 47 = 1 ∧ field csd 57 56 = 2 * field csd 63 62 + 1))

/-- Where no bits are lost in the division. -/
theorem readsAlike_iff {csd : BitVec 128} (h : 7 ≤ 2 * field csd 49 48 + field csd 83 80) :
    ReadsAlike csd ↔
      (field csd 57 56 = field csd 63 62 ∧ field csd 40 40 = field csd 47 47) ∨ Coincides csd := by
  have hread : field csd 40 40 < 2 := field_lt csd 40 40
  have hmult : field csd 47 47 < 2 := field_lt csd 47 47
  have hlow : field csd 57 56 < 4 := field_lt csd 57 56
  have hsize : field csd 63 62 < 4 := field_lt csd 63 62
  unfold ReadsAlike Coincides
  dsimp only
  rw [Nat.sub_eq_zero_of_le h, Nat.pow_zero, Nat.div_one, Nat.div_one]
  generalize field csd 40 40 = read at *
  generalize field csd 47 47 = mult at *
  obtain rfl | rfl : read = 0 ∨ read = 1 := by omega
  · obtain rfl | rfl : mult = 0 ∨ mult = 1 := by omega
    · omega
    · omega
  · obtain rfl | rfl : mult = 0 ∨ mult = 1 := by omega
    · omega
    · omega

/-- Version 2.0 registers are read right. Those of version 1.0 are exactly if the bits that are
read for others give the same number of sectors. -/
theorem card_capacity_iff {a : CardAnswers} {csd : BitVec 128} (hanswered : a.Answered)
    (hversion : field csd 127 126 = 0 ∨ field csd 127 126 = 1) :
    ((spisdGetCardInfo a csd).2 = capacity csd ↔ (field csd 127 126 = 0 → ReadsAlike csd)) ∧
      (7 ≤ 2 * field csd 49 48 + field csd 83 80 → (ReadsAlike csd ↔
        (field csd 57 56 = field csd 63 62 ∧ field csd 40 40 = field csd 47 47) ∨ Coincides csd)) := by
  refine ⟨?_, readsAlike_iff⟩
  unfold capacity
  rcases hversion with hone | htwo
  · rw [answered_sectorCount hanswered (ver1_sectorCount hone), if_pos hone, field_size, field_mult,
      sectors_eq, sectors_eq, Nat.mul_left_inj (Nat.pos_iff_ne_zero.mp (Nat.two_pow_pos _))]
    exact ⟨fun h _ => h, fun h => h hone⟩
  · rw [answered_sectorCount hanswered (ver2_sectorCount htwo), if_neg (by rw [htwo]; decide)]
    exact iff_of_true rfl fun hzero => nomatch hzero.symm.trans htwo

/-- A card of version 1.0 with 3968000 sectors, whose low bits agree. -/
theorem card_capacity_3968000 :
    (spisdGetCardInfo ⟨0, 0, 0, 0⟩ 0x002600325F5A83C8BEFBCFFF92404043).2 =
      capacity 0x002600325F5A83C8BEFBCFFF92404043 :=
  (card_capacity_iff ⟨rfl, rfl, rfl, rfl⟩ (Or.inl (by decide))).1.mpr fun _ => by
    unfold ReadsAlike
    decide

/-- The same card with `C_SIZE` larger by one: the structure has the old value for it. -/
theorem card_capacity_misread :
    (spisdGetCardInfo ⟨0, 0, 0, 0⟩ 0x002600325F5A83C8FEFBCFFF92404043).2 ≠
      capacity 0x002600325F5A83C8FEFBCFFF92404043 := by
  decide

end BdmAssault.Mx4sio
