import BdmAssault.FatFs.VcdPath
import BdmAssault.Manager.Partition

/-! # The boot mailbox

The record of 272 bytes in EE memory from which `bdm_main.c` takes the path of the VCD.
-/

namespace BdmAssault.Manager

open Lib FatFs

/-- The 272 bytes of a `pops_boot_mailbox_t`. -/
abbrev Mailbox := Memory

def Mailbox.magic (m : Mailbox) : UInt32 := .ofNat (littleEndian m 0 4)

def Mailbox.version (m : Mailbox) : UInt32 := .ofNat (littleEndian m 4 4)

def Mailbox.deviceType (m : Mailbox) : Int32 := (UInt32.ofNat (littleEndian m 8 4)).toInt32

def Mailbox.vcdPath (m : Mailbox) : Memory := fun i => m (12 + i)

def Mailbox.checksum (m : Mailbox) : UInt32 := .ofNat (littleEndian m 268 4)

/-- `strlen` ends at the last byte of the field at the latest, which is tested to be zero. -/
def Mailbox.path (m : Mailbox) : CString where
  bytes := cstring 256 m.vcdPath
  noNul := zero_not_mem_cstring
  fits := Nat.lt_of_le_of_lt length_cstring_le (by decide)

def popsBootMailboxMagic : UInt32 := 0x53504F50

/-- One round of the checksum. -/
def checksumStep (checksum : UInt32) (data : UInt8) : UInt32 := (checksum ^^^ data.toUInt32) * 16777619

def popsBootMailboxChecksum (m : Mailbox) : UInt32 :=
  (List.range (272 - 4)).foldl (fun checksum i => checksumStep checksum (m i)) 2166136261

/-- The same test as `popstarter_vcd_suffix_matches`, written a second time in `bdm_main.c`. -/
def popsBootVcdSuffixMatches (suffix : List UInt8) : Bool :=
  suffix.getD 0 0 = '.'.toUInt8 &&
    (suffix.getD 1 0 = 'V'.toUInt8 || suffix.getD 1 0 = 'v'.toUInt8) &&
    (suffix.getD 2 0 = 'C'.toUInt8 || suffix.getD 2 0 = 'c'.toUInt8) &&
    (suffix.getD 3 0 = 'D'.toUInt8 || suffix.getD 3 0 = 'd'.toUInt8)

def popsBootVcdPrefix : List UInt8 := ascii ['0', ':', '/', 'P', 'O', 'P', 'S', '/']

def popsBootMailboxIsValid (m : Mailbox) : Bool :=
  if m.magic ≠ popsBootMailboxMagic ∨ m.version ≠ 1 then false
  else if m.deviceType < 0 ∨ 3 < m.deviceType then false
  else if m.vcdPath 255 ≠ 0 then false
  else if m.checksum ≠ popsBootMailboxChecksum m then false
  else
    let pathLength := m.path.strlen
    if pathLength ≤ 8 + 4 then false
    else if m.path.bytes.take 8 ≠ popsBootVcdPrefix then false
    else popsBootVcdSuffixMatches (m.path.bytes.drop (pathLength - 4).toNat)

/-! ## What an accepted mailbox holds -/

structure Mailbox.Valid (m : Mailbox) : Prop where
  checksum : m.checksum = popsBootMailboxChecksum m
  long : 8 + 4 < m.path.bytes.length
  start : m.path.bytes.take 8 = popsBootVcdPrefix
  ending : popsBootVcdSuffixMatches (m.path.bytes.drop (m.path.bytes.length - 4)) = true

theorem Mailbox.valid_of_isValid {m : Mailbox} (h : popsBootMailboxIsValid m = true) : m.Valid := by
  unfold popsBootMailboxIsValid at h
  split at h
  · cases h
  split at h
  · cases h
  split at h
  · cases h
  split at h
  · cases h
  dsimp only at h
  split at h
  · cases h
  split at h
  · cases h
  rename_i hsum hlong hstart
  have hlength := m.path.toNat_strlen
  have hlt : 8 + 4 < m.path.bytes.length := by
    rw [UInt32.not_le, UInt32.lt_iff_toNat_lt, hlength] at hlong
    exact hlong
  rw [m.path.toNat_strlen_sub (by omega)] at h
  exact ⟨Decidable.not_not.mp hsum, hlt, Decidable.not_not.mp hstart, h⟩

/-- A string of the mailbox fits the buffer of the driver. -/
theorem Mailbox.Valid.acceptable {m : Mailbox} (h : m.Valid) : Acceptable m.path.bytes where
  long := h.long
  short := Nat.lt_of_le_of_lt length_cstring_le (by decide)
  start := h.start
  ending := h.ending

/-! ## The checksum -/

/-- The factor has an inverse modulo 2^32. -/
theorem mul_fnvPrime_inj {a b : UInt32} : a * 16777619 = b * 16777619 ↔ a = b := by
  refine ⟨fun h => ?_, fun h => by rw [h]⟩
  have hinverse : ∀ c : UInt32, c * 16777619 * 899433627 = c := by
    intro c
    rw [UInt32.mul_assoc, show (16777619 : UInt32) * 899433627 = 1 by decide, UInt32.mul_one]
  rw [← hinverse a, ← hinverse b, h]

theorem checksumStep_left_inj {a b : UInt32} (data : UInt8) :
    checksumStep a data = checksumStep b data ↔ a = b := by
  unfold checksumStep
  rw [mul_fnvPrime_inj, UInt32.xor_left_inj]

theorem checksumStep_right_inj {a b : UInt8} (checksum : UInt32) :
    checksumStep checksum a = checksumStep checksum b ↔ a = b := by
  unfold checksumStep
  rw [mul_fnvPrime_inj, UInt32.xor_right_inj, UInt8.toUInt32_inj]

/-- Two runs over the same bytes end alike only if they started alike. -/
theorem foldl_checksumStep_inj {m m' : Mailbox} {is : List Nat} (hsame : ∀ i ∈ is, m' i = m i)
    {a b : UInt32} (h : is.foldl (fun c i => checksumStep c (m' i)) a =
      is.foldl (fun c i => checksumStep c (m i)) b) : a = b := by
  induction is generalizing a b with
  | nil => exact h
  | cons i is ih =>
      have hrest : checksumStep a (m' i) = checksumStep b (m i) :=
        ih (fun j hj => hsame j (List.mem_cons_of_mem i hj)) h
      rw [hsame i List.mem_cons_self] at hrest
      exact (checksumStep_left_inj (m i)).mp hrest

theorem checksum_ne {m m' : Mailbox} {i : Nat} (hi : i < 268) (hne : m' i ≠ m i)
    (hsame : ∀ j < 268, j ≠ i → m' j = m j) : popsBootMailboxChecksum m' ≠ popsBootMailboxChecksum m := by
  have hsplit : List.range 268 = List.range i ++ i :: (List.range (267 - i)).map fun k => i + (k + 1) := by
    rw [show 268 = i + (267 - i + 1) by omega, List.range_add, List.range_succ_eq_map, List.map_cons,
      List.map_map]
    rfl
  have hbefore : ∀ c, (List.range i).foldl (fun c i => checksumStep c (m' i)) c =
      (List.range i).foldl (fun c i => checksumStep c (m i)) c := by
    intro c
    apply List.foldl_ext
    intro c j hj
    have hlt := List.mem_range.mp hj
    rw [hsame j (by omega) (Nat.ne_of_lt hlt)]
  intro heq
  unfold popsBootMailboxChecksum at heq
  rw [show 272 - 4 = 268 from rfl, hsplit, List.foldl_append, List.foldl_append, hbefore,
    List.foldl_cons, List.foldl_cons] at heq
  have hstep := foldl_checksumStep_inj (fun j hj => ?_) heq
  · exact hne ((checksumStep_right_inj _).mp hstep)
  · obtain ⟨k, hk, rfl⟩ := List.mem_map.mp hj
    have hlt := List.mem_range.mp hk
    exact hsame _ (by omega) (by omega)

theorem littleEndian_congr {b b' : Sector} {off n : Nat} (h : ∀ i < n, b' (off + i) = b (off + i)) :
    littleEndian b' off n = littleEndian b off n := by
  induction n generalizing off with
  | zero => rfl
  | succ n ih =>
      have hfirst := h 0 (Nat.zero_lt_succ n)
      have hrest : littleEndian b' (off + 1) n = littleEndian b (off + 1) n := by
        apply ih
        intro i hi
        have hnext := h (i + 1) (Nat.succ_lt_succ hi)
        rwa [Nat.add_comm i, ← Nat.add_assoc] at hnext
      unfold littleEndian
      rw [hrest]
      exact congrArg (fun b => UInt8.toNat b + _) hfirst

/-- The path of a mailbox that is accepted becomes the target, and with another byte the mailbox
would not be accepted. -/
theorem mailbox_integrity {m : Mailbox} (h : popsBootMailboxIsValid m = true) :
    (∀ s : VcdConfig, s.lockSemaId < 0 → (bdmSetPopstarterVcdPath s (some m.path)).1 = 0 ∧
      (bdmSetPopstarterVcdPath s (some m.path)).2.stored = m.path.bytes) ∧
      ∀ (m' : Mailbox) (i : Nat), i < 268 → m' i ≠ m i → (∀ j < 272, j ≠ i → m' j = m j) →
        popsBootMailboxIsValid m' = false := by
  have hvalid := Mailbox.valid_of_isValid h
  refine ⟨fun s hlock => setPath_accepts hlock hvalid.acceptable, fun m' i hi hne hsame => ?_⟩
  have hsum := checksum_ne hi hne fun j hj hji => hsame j (by omega) hji
  have hfield : m'.checksum = m.checksum := by
    unfold Mailbox.checksum
    rw [littleEndian_congr]
    intro k hk
    exact hsame _ (by omega) (by omega)
  rw [← Bool.not_eq_true]
  intro hvalid'
  apply hsum
  rw [← (Mailbox.valid_of_isValid hvalid').checksum, hfield, hvalid.checksum]

/-- A mailbox for the VCD `A` on the first device. -/
def demoMailbox : Mailbox :=
  memcpy (memcpy (fun _ => 0) 0 ([0x50, 0x4F, 0x50, 0x53, 1, 0, 0, 0, 0, 0, 0, 0] ++ targetPath (ascii ['A'])))
    268 [0xAC, 0xF4, 0x9A, 0xEC]

theorem mailbox_integrity_demo :
    popsBootMailboxIsValid demoMailbox = true ∧
      (bdmSetPopstarterVcdPath ⟨-1, fun _ => 0, false⟩ (some demoMailbox.path)).2.stored = targetPath (ascii ['A']) ∧
      popsBootMailboxIsValid (Function.update demoMailbox 20 'B'.toUInt8) = false := by
  have hvalid : popsBootMailboxIsValid demoMailbox = true := by decide +kernel
  obtain ⟨haccepted, hrejected⟩ := mailbox_integrity hvalid
  have hpath : demoMailbox.path.bytes = targetPath (ascii ['A']) := by decide +kernel
  refine ⟨hvalid, hpath ▸ (haccepted _ (by decide)).2, hrejected _ 20 (by decide) ?_ fun j _ hj => ?_⟩
  · rw [Function.update_self]
    decide
  · exact Function.update_of_ne hj _ _

end BdmAssault.Manager
