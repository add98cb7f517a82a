import Mathlib.Logic.Function.Iterate

/-! # CRC-7

The remainder is kept in the upper seven bits of a byte by the version that is computed bit by
bit, and in the lower seven by the one that looks bytes up. Both alternate a shift with a
subtraction of the polynomial, and differ in which of the two comes first.
-/

namespace BdmAssault.Mx4sio.Crc7

/-! ## Definitions -/

def poly : UInt8 := 0x89

/-- `crc & 0x80u` decides. -/
def reduce (crc : UInt8) : UInt8 := if crc &&& 0x80 ≠ 0 then crc ^^^ poly else crc

/-- Both loops of `crc7_generate_table` for the entry `i`. -/
def generateEntry (i : UInt8) : UInt8 := (fun entry => reduce (entry <<< 1))^[7] (reduce i)

/-- `crc7_generate_table`, from what is in the array. -/
def crc7GenerateTable (crc7Table : Vector UInt8 256) : Vector UInt8 256 :=
  (List.range 256).foldl (fun table i => table.setIfInBounds i (generateEntry (.ofNat i))) crc7Table

def crc7Table : Vector UInt8 256 := .mk #[
  0x00, 0x09, 0x12, 0x1B, 0x24, 0x2D, 0x36, 0x3F, 0x48, 0x41, 0x5A, 0x53, 0x6C, 0x65, 0x7E, 0x77,
  0x19, 0x10, 0x0B, 0x02, 0x3D, 0x34, 0x2F, 0x26, 0x51, 0x58, 0x43, 0x4A, 0x75, 0x7C, 0x67, 0x6E,
  0x32, 0x3B, 0x20, 0x29, 0x16, 0x1F, 0x04, 0x0D, 0x7A, 0x73, 0x68, 0x61, 0x5E, 0x57, 0x4C, 0x45,
  0x2B, 0x22, 0x39, 0x30, 0x0F, 0x06, 0x1D, 0x14, 0x63, 0x6A, 0x71, 0x78, 0x47, 0x4E, 0x55, 0x5C,
  0x64, 0x6D, 0x76, 0x7F, 0x40, 0x49, 0x52, 0x5B, 0x2C, 0x25, 0x3E, 0x37, 0x08, 0x01, 0x1A, 0x13,
  0x7D, 0x74, 0x6F, 0x66, 0x59, 0x50, 0x4B, 0x42, 0x35, 0x3C, 0x27, 0x2E, 0x11, 0x18, 0x03, 0x0A,
  0x56, 0x5F, 0x44, 0x4D, 0x72, 0x7B, 0x60, 0x69, 0x1E, 0x17, 0x0C, 0x05, 0x3A, 0x33, 0x28, 0x21,
  0x4F, 0x46, 0x5D, 0x54, 0x6B, 0x62, 0x79, 0x70, 0x07, 0x0E, 0x15, 0x1C, 0x23, 0x2A, 0x31, 0x38,
  0x41, 0x48, 0x53, 0x5A, 0x65, 0x6C, 0x77, 0x7E, 0x09, 0x00, 0x1B, 0x12, 0x2D, 0x24, 0x3F, 0x36,
  0x58, 0x51, 0x4A, 0x43, 0x7C, 0x75, 0x6E, 0x67, 0x10, 0x19, 0x02, 0x0B, 0x34, 0x3D, 0x26, 0x2F,
  0x73, 0x7A, 0x61, 0x68, 0x57, 0x5E, 0x45, 0x4C, 0x3B, 0x32, 0x29, 0x20, 0x1F, 0x16, 0x0D, 0x04,
  0x6A, 0x63, 0x78, 0x71, 0x4E, 0x47, 0x5C, 0x55, 0x22, 0x2B, 0x30, 0x39, 0x06, 0x0F, 0x14, 0x1D,
  0x25, 0x2C, 0x37, 0x3E, 0x01, 0x08, 0x13, 0x1A, 0x6D, 0x64, 0x7F, 0x76, 0x49, 0x40, 0x5B, 0x52,
  0x3C, 0x35, 0x2E, 0x27, 0x18, 0x11, 0x0A, 0x03, 0x74, 0x7D, 0x66, 0x6F, 0x50, 0x59, 0x42, 0x4B,
  0x17, 0x1E, 0x05, 0x0C, 0x33, 0x3A, 0x21, 0x28, 0x5F, 0x56, 0x4D, 0x44, 0x7B, 0x72, 0x69, 0x60,
  0x0E, 0x07, 0x1C, 0x15, 0x2A, 0x23, 0x38, 0x31, 0x46, 0x4F, 0x54, 0x5D, 0x62, 0x6B, 0x70, 0x79] (by decide +kernel)

/-- The index is an `int`, so nothing keeps it below 256. -/
def crc7GetItem (initCrc messageByte : UInt8) : Option UInt8 :=
  crc7Table[(initCrc.toNat <<< 1) ^^^ messageByte.toNat]?

/-- `crc7` with the table; there is no result if the table is left. -/
def crc7 (message : List UInt8) : Option UInt8 := message.foldlM crc7GetItem 0

def runtimeBit (crc : UInt8) : UInt8 :=
  if crc &&& 0x80 ≠ 0 then (crc <<< 1) ^^^ (poly <<< 1) else crc <<< 1

def runtimeByte (crc messageByte : UInt8) : UInt8 := runtimeBit^[8] (crc ^^^ messageByte)

/-- `crc7` for `SD_CRC7_MODE_RUNTIME`. -/
def crc7Runtime (message : List UInt8) : UInt8 := message.foldl runtimeByte 0 >>> 1

/-! ## One byte -/

theorem runtimeBit_eq (crc : UInt8) : runtimeBit crc = reduce crc <<< 1 := by
  unfold runtimeBit reduce
  split
  · exact UInt8.shiftLeft_xor.symm
  · rfl

/-- The loops shift and reduce by turns; one starts with a shift, the other one ends with it. -/
theorem runtimeBit_iterate (i : UInt8) : runtimeBit^[8] i = generateEntry i <<< 1 := by
  have hturn : Function.Semiconj (fun entry : UInt8 => entry <<< 1) (fun entry => reduce (entry <<< 1)) runtimeBit := fun entry =>
    (runtimeBit_eq (entry <<< 1)).symm
  calc runtimeBit^[8] i = runtimeBit^[7] (runtimeBit i) := Function.iterate_succ_apply runtimeBit 7 i
    _ = runtimeBit^[7] (reduce i <<< 1) := by rw [runtimeBit_eq]
    _ = generateEntry i <<< 1 := (hturn.iterate_right 7 (reduce i)).symm

theorem and_top (crc : UInt8) : crc &&& 0x80 ≠ 0 ↔ crc.toNat.testBit 7 = true := by
  have hand : (crc &&& 0x80).toBitVec = if crc.toBitVec.getLsbD 7 then BitVec.twoPow 8 7 else 0#8 :=
    BitVec.and_twoPow crc.toBitVec 7
  show _ ↔ crc.toBitVec.getLsbD 7 = true
  rw [ne_eq, ← UInt8.toBitVec_inj, hand]
  cases crc.toBitVec.getLsbD 7 <;> decide

/-- The polynomial clears the top bit. -/
theorem reduce_lt (crc : UInt8) : (reduce crc).toNat < 128 := by
  refine Nat.lt_pow_two_of_testBit (n := 7) _ fun i hi => ?_
  obtain rfl | hi : i = 7 ∨ 8 ≤ i := by omega
  · unfold reduce
    split
    · rename_i htop
      rw [and_top] at htop
      rw [UInt8.toNat_xor, Nat.testBit_xor, htop]
      rfl
    · rename_i htop
      rw [and_top] at htop
      exact Bool.not_eq_true _ ▸ htop
  · have hlt := (reduce crc).toNat_lt
    exact Nat.testBit_lt_two_pow (Nat.lt_of_lt_of_le hlt (Nat.pow_le_pow_right (by decide) hi))

theorem generateEntry_lt (i : UInt8) : (generateEntry i).toNat < 128 := by
  unfold generateEntry
  rw [Function.iterate_succ_apply']
  exact reduce_lt _

/-! ## The table -/

theorem toList_crc7Table : crc7Table.toList = (List.range 256).map fun i => generateEntry (.ofNat i) := by
  decide +kernel

theorem getElem_crc7Table {i : Nat} (h : i < 256) : crc7Table[i] = generateEntry (.ofNat i) := by
  have hlen : i < crc7Table.toList.length := by simpa using h
  have hlist : crc7Table.toList[i] = generateEntry (.ofNat i) := by
    simp only [toList_crc7Table, List.getElem_map, List.getElem_range]
  exact (Vector.getElem_toList hlen).symm.trans hlist

theorem getElem?_crc7Table (i : UInt8) : crc7Table[i.toNat]? = some (generateEntry i) := by
  have hlt : i.toNat < 256 := i.toNat_lt
  rw [Vector.getElem?_eq_getElem hlt, getElem_crc7Table hlt, UInt8.ofNat_toNat]

/-- The first `k` elements are set one by one. -/
theorem getElem_foldl_set {α : Type} {n : Nat} (f : Nat → α) (xs : Vector α n) (k : Nat) {j : Nat} (hj : j < n) :
    ((List.range k).foldl (fun ys i => ys.setIfInBounds i (f i)) xs)[j] = if j < k then f j else xs[j] := by
  induction k with
  | zero => rfl
  | succ k ih =>
      rw [List.range_succ, List.foldl_append, List.foldl_cons, List.foldl_nil, Vector.getElem_setIfInBounds hj, ih]
      by_cases hjk : k = j
      · rw [if_pos hjk, if_pos (by omega), hjk]
      · rw [if_neg hjk]
        exact if_congr (by omega) rfl rfl

/-- Whatever the array held before. -/
theorem crc7GenerateTable_eq (table : Vector UInt8 256) : crc7GenerateTable table = crc7Table := by
  ext j hj
  rw [crc7GenerateTable, getElem_foldl_set (fun i => generateEntry (.ofNat i)) table 256 hj, if_pos hj,
    getElem_crc7Table hj]

/-! ## Messages -/

/-- The byte that holds a remainder in its upper bits is the index of the table's next one. -/
theorem crc7GetItem_eq (crc b : UInt8) (h : crc.toNat < 128) :
    crc7GetItem crc b = some (generateEntry ((crc <<< 1) ^^^ b)) := by
  have hindex : (crc.toNat <<< 1) ^^^ b.toNat = ((crc <<< 1) ^^^ b).toNat := by
    rw [UInt8.toNat_xor, UInt8.toNat_shiftLeft]
    show _ = crc.toNat <<< 1 % 2 ^ 8 ^^^ b.toNat
    rw [Nat.mod_eq_of_lt (by rw [Nat.shiftLeft_eq]; omega)]
  rw [crc7GetItem, hindex, getElem?_crc7Table]

/-- After every byte the remainders are the same, at different places of their bytes. -/
theorem crc7_foldlM (message : List UInt8) (crc : UInt8) (h : crc.toNat < 128) :
    ∃ crc' : UInt8, crc'.toNat < 128 ∧ message.foldlM crc7GetItem crc = some crc' ∧
      message.foldl runtimeByte (crc <<< 1) = crc' <<< 1 := by
  induction message generalizing crc with
  | nil => exact ⟨crc, h, rfl, rfl⟩
  | cons b message ih =>
      obtain ⟨crc', hlt, htable, hruntime⟩ := ih (generateEntry ((crc <<< 1) ^^^ b)) (generateEntry_lt _)
      refine ⟨crc', hlt, ?_, ?_⟩
      · rw [List.foldlM_cons, crc7GetItem_eq crc b h]
        exact htable
      · rw [List.foldl_cons, runtimeByte, runtimeBit_iterate]
        exact hruntime

theorem shift_back (crc : UInt8) (h : crc.toNat < 128) : (crc <<< 1) >>> 1 = crc := by
  apply UInt8.toNat_inj.mp
  rw [UInt8.toNat_shiftRight, UInt8.toNat_shiftLeft]
  show (crc.toNat <<< 1 % 2 ^ 8) >>> 1 = crc.toNat
  rw [Nat.shiftLeft_eq, Nat.shiftRight_eq_div_pow]
  omega

/-- The versions of `crc7` agree on every message, and the table in ROM is the one that would be
generated. -/
theorem crc7_agrees (message : List UInt8) :
    crc7 message = some (crc7Runtime message) ∧ ∀ table, crc7GenerateTable table = crc7Table := by
  refine ⟨?_, crc7GenerateTable_eq⟩
  obtain ⟨crc, hlt, htable, hruntime⟩ := crc7_foldlM message 0 (by decide)
  have hshifted : message.foldl runtimeByte 0 = crc <<< 1 := hruntime
  rw [crc7, htable, crc7Runtime, hshifted, shift_back crc hlt]

end BdmAssault.Mx4sio.Crc7
