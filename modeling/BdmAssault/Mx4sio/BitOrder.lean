import BdmAssault.Mx4sio.BlockDevice

/-! # The order of the bits

A card sends the upper bit of a byte first, and the controller takes it for the lower one. Bytes
that are read from its register are put right with a table, and those that DMA stores with masks
and shifts, four at a time.
-/

namespace BdmAssault.Mx4sio

/-! ## Definitions -/

def reverseByteLut8 : Vector UInt8 256 := .mk #[
  0x00, 0x80, 0x40, 0xc0, 0x20, 0xa0, 0x60, 0xe0,
  0x10, 0x90, 0x50, 0xd0, 0x30, 0xb0, 0x70, 0xf0,
  0x08, 0x88, 0x48, 0xc8, 0x28, 0xa8, 0x68, 0xe8,
  0x18, 0x98, 0x58, 0xd8, 0x38, 0xb8, 0x78, 0xf8,
  0x04, 0x84, 0x44, 0xc4, 0x24, 0xa4, 0x64, 0xe4,
  0x14, 0x94, 0x54, 0xd4, 0x34, 0xb4, 0x74, 0xf4,
  0x0c, 0x8c, 0x4c, 0xcc, 0x2c, 0xac, 0x6c, 0xec,
  0x1c, 0x9c, 0x5c, 0xdc, 0x3c, 0xbc, 0x7c, 0xfc,
  0x02, 0x82, 0x42, 0xc2, 0x22, 0xa2, 0x62, 0xe2,
  0x12, 0x92, 0x52, 0xd2, 0x32, 0xb2, 0x72, 0xf2,
  0x0a, 0x8a, 0x4a, 0xca, 0x2a, 0xaa, 0x6a, 0xea,
  0x1a, 0x9a, 0x5a, 0xda, 0x3a, 0xba, 0x7a, 0xfa,
  0x06, 0x86, 0x46, 0xc6, 0x26, 0xa6, 0x66, 0xe6,
  0x16, 0x96, 0x56, 0xd6, 0x36, 0xb6, 0x76, 0xf6,
  0x0e, 0x8e, 0x4e, 0xce, 0x2e, 0xae, 0x6e, 0xee,
  0x1e, 0x9e, 0x5e, 0xde, 0x3e, 0xbe, 0x7e, 0xfe,
  0x01, 0x81, 0x41, 0xc1, 0x21, 0xa1, 0x61, 0xe1,
  0x11, 0x91, 0x51, 0xd1, 0x31, 0xb1, 0x71, 0xf1,
  0x09, 0x89, 0x49, 0xc9, 0x29, 0xa9, 0x69, 0xe9,
  0x19, 0x99, 0x59, 0xd9, 0x39, 0xb9, 0x79, 0xf9,
  0x05, 0x85, 0x45, 0xc5, 0x25, 0xa5, 0x65, 0xe5,
  0x15, 0x95, 0x55, 0xd5, 0x35, 0xb5, 0x75, 0xf5,
  0x0d, 0x8d, 0x4d, 0xcd, 0x2d, 0xad, 0x6d, 0xed,
  0x1d, 0x9d, 0x5d, 0xdd, 0x3d, 0xbd, 0x7d, 0xfd,
  0x03, 0x83, 0x43, 0xc3, 0x23, 0xa3, 0x63, 0xe3,
  0x13, 0x93, 0x53, 0xd3, 0x33, 0xb3, 0x73, 0xf3,
  0x0b, 0x8b, 0x4b, 0xcb, 0x2b, 0xab, 0x6b, 0xeb,
  0x1b, 0x9b, 0x5b, 0xdb, 0x3b, 0xbb, 0x7b, 0xfb,
  0x07, 0x87, 0x47, 0xc7, 0x27, 0xa7, 0x67, 0xe7,
  0x17, 0x97, 0x57, 0xd7, 0x37, 0xb7, 0x77, 0xf7,
  0x0f, 0x8f, 0x4f, 0xcf, 0x2f, 0xaf, 0x6f, 0xef,
  0x1f, 0x9f, 0x5f, 0xdf, 0x3f, 0xbf, 0x7f, 0xff] (by decide +kernel)

/-- The entry of a byte. -/
def reverseByte (b : UInt8) : UInt8 := reverseByteLut8.get ⟨b.toNat, b.toNat_lt⟩

/-- What the card will send, in the order of the wire, and the FIFO behind `SIO2_REG_DATA_IN`. -/
structure Sio2 where
  line : Nat → UInt8
  fifo : List UInt8

/-- A queued transfer of `n` bytes; the FIFO has been reset before. -/
def Sio2.receive (n : Nat) (sio2 : Sio2) : Sio2 :=
  ⟨fun i => sio2.line (n + i), (List.range n).map sio2.line⟩

/-- The loop over the FIFO, with the number of bytes that are left. -/
def sio2ToIop : Nat → Nat → Sio2 × (Nat → UInt8) → Sio2 × (Nat → UInt8)
  | 0, _, s => s
  | n + 1, buffer, (sio2, mem) =>
      sio2ToIop n (buffer + 1)
        ({ sio2 with fifo := sio2.fifo.tail },
          Function.update mem buffer (reverseByte (sio2.fifo.headD 0)))

def sio2MaxTransferSize : Nat := 256

/-- `completes i` is the result of waiting for transfer `i`. -/
def mxSio2RxPio (completes : Nat → Bool) (i buffer size : Nat) (sio2 : Sio2) (mem : Nat → UInt8) :
    SpisdResult × (Nat → UInt8) :=
  if 0 < size then
    let transferSize := if sio2MaxTransferSize < size then sio2MaxTransferSize else size
    let sio2 := sio2.receive transferSize
    if completes i then
      let (sio2, mem) := sio2ToIop transferSize buffer (sio2, mem)
      mxSio2RxPio completes (i + 1) (buffer + transferSize) (size - transferSize) sio2 mem
    else (.timeout, mem)
  else (.ok, mem)
termination_by size
decreasing_by
  unfold sio2MaxTransferSize
  split <;> omega

/-- Byte `j` of a word. -/
def wordByte (n : Word) (j : Nat) : UInt8 := .ofBitVec (n.extractLsb' (8 * j) 8)

/-- The byte at an address; `mem` is indexed by words, whose lowest byte comes first. -/
def byteAt (mem : Nat → Word) (a : Nat) : UInt8 := wordByte (mem (a / 4)) (a % 4)

/-! ## One byte -/

/-- The table against the reversal of the eight bits. -/
theorem toList_reverseByteLut8 :
    reverseByteLut8.toList = (List.range 256).map fun i => .ofBitVec (BitVec.ofNat 8 i).reverse := by
  decide +kernel

theorem reverseByte_eq (b : UInt8) : reverseByte b = .ofBitVec b.toBitVec.reverse := by
  have hlen : b.toNat < reverseByteLut8.toList.length := by simpa using b.toNat_lt
  calc reverseByte b = reverseByteLut8.toList[b.toNat] := (Vector.getElem_toList hlen).symm
    _ = .ofBitVec (BitVec.ofNat 8 b.toNat).reverse := by
      simp only [toList_reverseByteLut8, List.getElem_map, List.getElem_range]
    _ = .ofBitVec b.toBitVec.reverse := by
      rw [← UInt8.toNat_toBitVec, BitVec.ofNat_toNat, BitVec.setWidth_eq]

theorem wordByte_getLsbD (n : Word) (j : Nat) {i : Nat} (hi : i < 8) :
    (wordByte n j).toBitVec.getLsbD i = n.getLsbD (8 * j + i) := by
  simp [wordByte, hi]

theorem reverseByte_getLsbD (b : UInt8) {i : Nat} (hi : i < 8) :
    (reverseByte b).toBitVec.getLsbD i = b.toBitVec.getLsbD (7 - i) := by
  rw [reverseByte_eq]
  show b.toBitVec.reverse.getLsbD i = b.toBitVec.getLsbD (7 - i)
  rw [BitVec.getLsbD_reverse, BitVec.getMsbD_eq_getLsbD, decide_eq_true hi, Bool.true_and]

/-- The bytes stay where they are, and each is the one that the table gives. -/
theorem BytesReversed.wordByte_eq {n m : Word} (h : BytesReversed n m) {j : Nat} (hj : j < 4) :
    wordByte n j = reverseByte (wordByte m j) := by
  refine UInt8.toBitVec_inj.mp (BitVec.eq_of_getLsbD_eq fun i hi => ?_)
  rw [wordByte_getLsbD n j hi, reverseByte_getLsbD _ hi, wordByte_getLsbD m j (by omega), h j hj i hi]

/-! ## Buffers -/

theorem byteAt_reverseBuffer (buffer n : Nat) (mem : Nat → Word) (a : Nat) :
    byteAt (reverseBuffer buffer n mem) a =
      if 4 * buffer ≤ a ∧ a < 4 * (buffer + n) then reverseByte (byteAt mem a) else byteAt mem a := by
  have hinside : (buffer ≤ a / 4 ∧ a / 4 < buffer + n) ↔ (4 * buffer ≤ a ∧ a < 4 * (buffer + n)) := by omega
  unfold byteAt
  rw [reverseBuffer_apply]
  by_cases hin : buffer ≤ a / 4 ∧ a / 4 < buffer + n
  · rw [if_pos hin, if_pos (hinside.mp hin)]
    exact (reverseWord_bytesReversed _).wordByte_eq (Nat.mod_lt a (by decide))
  · rw [if_neg hin, if_neg fun h => hin (hinside.mpr h)]

/-! ## Reading from the FIFO -/

variable {sio2 : Sio2} {mem : Nat → UInt8}

/-- The bytes of the FIFO go to the buffer in their order. -/
theorem sio2ToIop_eq (n buffer : Nat) (s : Sio2 × (Nat → UInt8)) (a : Nat) :
    (sio2ToIop n buffer s).1.line = s.1.line ∧ (sio2ToIop n buffer s).2 a =
      if buffer ≤ a ∧ a < buffer + n then reverseByte (s.1.fifo.getD (a - buffer) 0) else s.2 a := by
  induction n generalizing buffer s with
  | zero => exact ⟨rfl, (if_neg (by omega)).symm⟩
  | succ n ih =>
      obtain ⟨sio2, mem⟩ := s
      unfold sio2ToIop
      obtain ⟨hline, hmem⟩ := ih (buffer + 1) ({ sio2 with fifo := sio2.fifo.tail },
        Function.update mem buffer (reverseByte (sio2.fifo.headD 0)))
      refine ⟨hline, hmem.trans ?_⟩
      dsimp only
      obtain hlt | rfl | hgt := Nat.lt_trichotomy a buffer
      · rw [if_neg (by omega), if_neg (by omega), Function.update_of_ne (by omega)]
      · rw [if_neg (by omega), if_pos (by omega), Function.update_self, Nat.sub_self]
        cases sio2.fifo <;> rfl
      · have hiff : buffer + 1 ≤ a ∧ a < buffer + 1 + n ↔ buffer ≤ a ∧ a < buffer + (n + 1) := by omega
        rw [Function.update_of_ne (by omega)]
        simp only [hiff]
        obtain ⟨d, rfl⟩ : ∃ d, a = buffer + 1 + d := ⟨a - (buffer + 1), by omega⟩
        rw [Nat.add_sub_cancel_left, Nat.add_assoc, Nat.add_sub_cancel_left, Nat.add_comm 1 d]
        cases sio2.fifo <;> rfl

theorem receive_fifo (n : Nat) (sio2 : Sio2) {k : Nat} (hk : k < n) :
    (sio2.receive n).fifo.getD k 0 = sio2.line k := by
  simp [Sio2.receive, hk]

/-- What the call has read, however it was cut into transfers. -/
theorem mxSio2RxPio_ok (completes : Nat → Bool) (i buffer size : Nat) (sio2 : Sio2) (mem : Nat → UInt8)
    (h : (mxSio2RxPio completes i buffer size sio2 mem).1 = .ok) (a : Nat) :
    (mxSio2RxPio completes i buffer size sio2 mem).2 a =
      if buffer ≤ a ∧ a < buffer + size then reverseByte (sio2.line (a - buffer)) else mem a := by
  fun_induction mxSio2RxPio completes i buffer size sio2 mem with
  | case1 i buffer size sio2 mem hpos transferSize sio2' hcompletes sio2'' mem' heq ih =>
      have hle : transferSize ≤ size := by
        simp only [transferSize]
        split <;> omega
      obtain ⟨hline, hmem⟩ := sio2ToIop_eq transferSize buffer (sio2', mem) a
      rw [heq] at hline hmem
      dsimp only at hline hmem
      rw [ih h, hline, hmem]
      by_cases hread : buffer + transferSize ≤ a ∧ a < buffer + transferSize + (size - transferSize)
      · rw [if_pos hread, if_pos (by omega)]
        show reverseByte (sio2.line (transferSize + (a - (buffer + transferSize)))) = _
        rw [show transferSize + (a - (buffer + transferSize)) = a - buffer by omega]
      · rw [if_neg hread]
        by_cases hnow : buffer ≤ a ∧ a < buffer + transferSize
        · rw [if_pos hnow, if_pos (by omega), receive_fifo transferSize sio2 (by omega)]
        · rw [if_neg hnow, if_neg (by omega)]
  | case2 => cases h
  | case3 i buffer size sio2 mem hzero => exact (if_neg (by omega)).symm

theorem mxSio2RxPio_completes {completes : Nat → Bool} (hall : ∀ i, completes i = true)
    (i buffer size : Nat) (sio2 : Sio2) (mem : Nat → UInt8) :
    (mxSio2RxPio completes i buffer size sio2 mem).1 = .ok := by
  fun_induction mxSio2RxPio completes i buffer size sio2 mem with
  | case1 i buffer size sio2 mem hpos transferSize sio2' hcompletes sio2'' mem' heq ih => exact ih
  | case2 i buffer size sio2 mem hpos hfails => exact absurd (hall i) hfails
  | case3 => rfl

/-! ## Both ways -/

/-- The bytes at a place of two memories, one with each byte of `line` and the other reversed. -/
theorem mxSio2RxPio_agrees {completes : Nat → Bool} {buffer size start : Nat} {bytes : Nat → UInt8}
    (hok : (mxSio2RxPio completes 0 buffer size sio2 mem).1 = .ok)
    (hbytes : ∀ k < size, bytes (start + k) = reverseByte (sio2.line k)) {k : Nat} (hk : k < size) :
    (mxSio2RxPio completes 0 buffer size sio2 mem).2 (buffer + k) = bytes (start + k) := by
  rw [mxSio2RxPio_ok completes 0 buffer size sio2 mem hok, if_pos (by omega), Nat.add_sub_cancel_left, hbytes k hk]

/-- `reverse_buffer` changes every byte of its words to its entry of the table and nothing else, and
is its own inverse; what DMA stored is then what `mx_sio2_rx_pio` would have read. -/
theorem reverse_buffer_as_pio (buffer n : Nat) (words : Nat → Word) :
    (∀ a, byteAt (reverseBuffer buffer n words) a =
      if 4 * buffer ≤ a ∧ a < 4 * (buffer + n) then reverseByte (byteAt words a) else byteAt words a) ∧
    reverseBuffer buffer n (reverseBuffer buffer n words) = words ∧
    ∀ completes start sio2 mem, (∀ k < 4 * n, byteAt words (4 * buffer + k) = sio2.line k) →
      (mxSio2RxPio completes 0 start (4 * n) sio2 mem).1 = .ok → ∀ k < 4 * n,
        (mxSio2RxPio completes 0 start (4 * n) sio2 mem).2 (start + k) =
          byteAt (reverseBuffer buffer n words) (4 * buffer + k) := by
  refine ⟨byteAt_reverseBuffer buffer n words, reverseBuffer_twice buffer n words, ?_⟩
  intro completes start sio2 mem hstored hok k hk
  refine mxSio2RxPio_agrees hok (fun j hj => ?_) hk
  rw [byteAt_reverseBuffer, if_pos (by omega), hstored j hj]

/-- A sector whose words are all 1. -/
theorem reverse_buffer_as_pio_ones : let words : Nat → Word := fun _ => 1
    let sio2 : Sio2 := ⟨byteAt words, []⟩
    ∀ k < 4 * sectorWords, (mxSio2RxPio (fun _ => true) 0 0 (4 * sectorWords) sio2 fun _ => 0).2 (0 + k) =
      byteAt (reverseBuffer 0 sectorWords words) (4 * 0 + k) := by
  intro words sio2
  refine (reverse_buffer_as_pio 0 sectorWords words).2.2 (fun _ => true) 0 sio2 (fun _ => 0) (fun k _ => ?_) ?_
  · rw [Nat.mul_zero, Nat.zero_add]
  · exact mxSio2RxPio_completes (fun _ => rfl) 0 0 _ sio2 _

/-- A sector that `spisd_read_multi_do` counted holds what `mx_sio2_rx_pio` would have read. -/
theorem read_multi_as_pio {buffer : Nat} {count : Fin 65536} {s : ReadState} {k r : Nat}
    (h : (readMulti buffer count).Reachable (fun _ _ => True) s) (hpc : s.pc = .returned k) (hr : r < k)
    {completes : Nat → Bool} {start : Nat}
    (hline : ∀ x < 4 * sectorWords, sio2.line x = wordByte ((s.received.getD r []).getD (x / 4) 0) (x % 4))
    (hok : (mxSio2RxPio completes 0 start (4 * sectorWords) sio2 mem).1 = .ok) :
    ∀ x < 4 * sectorWords, (mxSio2RxPio completes 0 start (4 * sectorWords) sio2 mem).2 (start + x) =
      byteAt s.mem (4 * (buffer + r * sectorWords) + x) := by
  intro x hx
  obtain ⟨htracks, hk⟩ := tracks_returned h hpc
  refine mxSio2RxPio_agrees hok (fun y hy => ?_) hx
  have hword : s.mem (buffer + r * sectorWords + y / 4) = reverseWord ((s.received.getD r []).getD (y / 4) 0) :=
    htracks.done r (hk ▸ hr) (y / 4) (by omega)
  unfold byteAt
  rw [show (4 * (buffer + r * sectorWords) + y) / 4 = buffer + r * sectorWords + y / 4 by omega,
    show (4 * (buffer + r * sectorWords) + y) % 4 = y % 4 by omega, hline y hy, hword]
  exact (reverseWord_bytesReversed _).wordByte_eq (Nat.mod_lt y (by decide))

end BdmAssault.Mx4sio
