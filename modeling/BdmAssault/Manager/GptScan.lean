import Mathlib.Algebra.Group.Nat.Defs
import Mathlib.Algebra.Ring.Int.Defs
import BdmAssault.Manager.Scan

/-! # The loop of a GPT scan

Round `n` of the table loop starts with `i = entriesPerSector * n`, a signed number of 32
bits, and reads one sector. The loop ends where `i` has reached the number of entries or a
sector cannot be read.
-/

namespace BdmAssault.Manager

/-! ## The index -/

/-- What can be the number of entries in a sector. -/
def PerSector (eps : Nat) : Prop := eps = 4 ∨ eps = 8 ∨ eps = 16 ∨ eps = 32

/-- `i / entriesPerSector` in round `n`, as it is added to `partition_table_lba`. -/
def gptOffset (eps n : Nat) : Nat :=
  if n % (2 ^ 32 / eps) < 2 ^ 31 / eps then n % (2 ^ 32 / eps)
  else 2 ^ 64 - 2 ^ 32 / eps + n % (2 ^ 32 / eps)

theorem perSector_of_size {size : UInt32} (h : badSectorSize size = false) :
    PerSector (size.toNat / 128) := by
  simp only [badSectorSize, Bool.or_eq_false_iff, decide_eq_false_iff_not, ne_eq, Decidable.not_not,
    UInt32.not_lt, UInt32.le_iff_toNat_le] at h
  obtain ⟨⟨hlow, hhigh⟩, hpower⟩ := h
  replace hlow : 512 ≤ size.toNat := hlow
  replace hhigh : size.toNat ≤ 4096 := hhigh
  have hand : size.toNat &&& (size.toNat - 1) = 0 := by
    have hval := congrArg UInt32.toNat hpower
    rw [UInt32.toNat_and, UInt32.toNat_sub_of_le] at hval
    · exact hval
    · rw [UInt32.le_iff_toNat_le]
      exact Nat.le_trans (by decide) hlow
  obtain ⟨k, hk⟩ := (Nat.and_sub_one_eq_zero_iff_isPowerOfTwo (by omega)).mp hand
  have hmin : 9 ≤ k := by
    by_contra hlt
    have : 2 ^ k ≤ 2 ^ 8 := Nat.pow_le_pow_right (by decide) (by omega)
    omega
  have hmax : k ≤ 12 := by
    by_contra hlt
    have : 2 ^ 13 ≤ 2 ^ k := Nat.pow_le_pow_right (by decide) (by omega)
    omega
  rw [hk]
  obtain rfl | rfl | rfl | rfl : k = 9 ∨ k = 10 ∨ k = 11 ∨ k = 12 := by omega
  · exact .inl rfl
  · exact .inr (.inl rfl)
  · exact .inr (.inr (.inl rfl))
  · exact .inr (.inr (.inr rfl))

theorem gptHeader_perSector {m : Medium} {bd : BlockDevice} {header : GptPartitionTableHeader}
    (h : gptHeader m bd = some header) : PerSector (entriesPerSector bd) := by
  unfold gptHeader at h
  split at h
  · cases h
  · rename_i hgood
    simp only [Bool.or_eq_true, not_or, Bool.not_eq_true] at hgood
    exact perSector_of_size hgood.1.2

section Index

variable {eps : Nat}

theorem index_toNat (eps n : Nat) : (Int32.ofNat (eps * n)).toUInt32.toNat = eps * n % 2 ^ 32 := by
  rw [Int32.toUInt32_ofNat']
  exact UInt32.toNat_ofNat'

theorem perSector_toInt (heps : PerSector eps) : (Int32.ofNat eps).toInt = eps := by
  apply Int32.toInt_ofNat_of_lt
  unfold PerSector at heps
  omega

theorem index_toInt (heps : PerSector eps) (n : Nat) : (Int32.ofNat (eps * n)).toInt =
    (eps : Int) * (if n % (2 ^ 32 / eps) < 2 ^ 31 / eps then (n % (2 ^ 32 / eps) : Int)
      else n % (2 ^ 32 / eps) - 2 ^ 32 / eps) := by
  rw [Int32.toInt_ofNat', Int.bmod_def]
  simp only [Int32.size]
  rcases heps with rfl | rfl | rfl | rfl
  · split <;> split <;> omega
  · split <;> split <;> omega
  · split <;> split <;> omega
  · split <;> split <;> omega

theorem index_mod (heps : PerSector eps) (n : Nat) : Int32.ofNat (eps * n) % .ofNat eps = 0 := by
  apply Int32.toInt_inj.mp
  rw [Int32.toInt_mod, index_toInt heps, perSector_toInt heps]
  exact Int.mul_tmod_right _ _

/-- The sign is extended. -/
theorem toInt64_toUInt64 (i : Int32) : i.toInt64.toUInt64.toNat = (i.toInt % 2 ^ 64).toNat := by
  have hext : i.toInt64 = Int64.ofInt i.toInt := by
    apply Int64.toInt_inj.mp
    rw [Int32.toInt_toInt64, Int64.toInt_ofInt_of_le]
    · have := Int32.le_toInt i
      omega
    · have := Int32.toInt_lt i
      omega
  rw [hext]
  show (BitVec.ofInt 64 i.toInt).toNat = _
  rw [BitVec.toNat_ofInt]
  rfl

theorem gptTableLba_eq (heps : PerSector eps) (header : GptPartitionTableHeader) (n : Nat) :
    gptTableLba header eps (.ofNat (eps * n)) = header.partitionTableLba + .ofNat (gptOffset eps n) := by
  have hpos : (eps : Int) ≠ 0 := by
    unfold PerSector at heps
    omega
  have hne : Int32.ofNat eps ≠ -1 := by
    intro h
    have hval := congrArg Int32.toInt h
    rw [perSector_toInt heps] at hval
    replace hval : (eps : Int) = -1 := hval
    omega
  refine congrArg (header.partitionTableLba + ·) (UInt64.toNat_inj.mp ?_)
  rw [toInt64_toUInt64, Int32.toInt_div_of_ne_right _ _ hne, index_toInt heps, perSector_toInt heps,
    Int.mul_tdiv_cancel_left _ hpos, UInt64.toNat_ofNat']
  unfold gptOffset
  rcases heps with rfl | rfl | rfl | rfl
  · split <;> omega
  · split <;> omega
  · split <;> omega
  · split <;> omega

end Index

/-! ## Rounds -/

/-- An entry of the table, with the place it was read from. -/
structure Considered where
  lba : UInt64
  x : Nat
  i : UInt32
  entry : GptPartitionTableEntry

/-- The pseudo-device that is made for an entry. -/
def Considered.made (c : Considered) : Entry where
  parNr := c.i + 1
  parId := 0
  firstLba := c.entry.firstLba
  sectorCount := c.entry.lastLba - c.entry.firstLba + 1

/-- The entries that round `n` goes through. -/
def roundEntries (m : Medium) (header : GptPartitionTableHeader) (eps n : Nat) : List Considered :=
  match gptTableSector m header eps n with
  | none => []
  | some sector => (List.range eps).map fun x =>
      ⟨gptTableLba header eps (.ofNat (eps * n)), x, (Int32.ofNat (eps * n) + .ofNat x).toUInt32,
        gptPartitionTableEntry sector x⟩

/-- The entries that the first `rounds` rounds go through, in order. -/
def considered (m : Medium) (header : GptPartitionTableHeader) (eps rounds : Nat) : List Considered :=
  (List.range rounds).flatMap (roundEntries m header eps)

/-- Those of them that are not skipped. -/
def mountable (m : Medium) (header : GptPartitionTableHeader) (eps rounds : Nat) : List Considered :=
  (considered m header eps rounds).filter fun c => gptMountable header c.entry

def connectAll (bd : Dev) (acc : Bdm × Nat) (cs : List Considered) : Bdm × Nat :=
  (cs.map Considered.made).foldl (connectPartition bd) acc

section Rounds

variable {m : Medium} {header : GptPartitionTableHeader} {eps : Nat} {bd : Dev} {acc : Bdm × Nat}

theorem considered_succ (m : Medium) (header : GptPartitionTableHeader) (eps rounds : Nat) :
    considered m header eps (rounds + 1) =
      considered m header eps rounds ++ roundEntries m header eps rounds := by
  unfold considered
  rw [List.range_succ, List.flatMap_append, List.flatMap_singleton]

theorem connectAll_append (cs cs' : List Considered) :
    connectAll bd acc (cs ++ cs') = connectAll bd (connectAll bd acc cs) cs' := by
  unfold connectAll
  rw [List.map_append, List.foldl_append]

theorem gptEntries_eq {n : Nat} {sector : Sector} (h : gptTableSector m header eps n = some sector) :
    gptEntries header eps (.ofNat (eps * n)) sector =
      ((roundEntries m header eps n).filter fun c => gptMountable header c.entry).map Considered.made := by
  unfold gptEntries roundEntries
  rw [h]
  dsimp only
  rw [List.filter_map, List.map_map]
  rfl

/-- The loop goes past a sector that it reads. -/
theorem gptLoop_passes {fuel n : Nat} (heps : PerSector eps)
    (inside : (Int32.ofNat (eps * n)).toUInt32 < header.partitionCount)
    (read : (gptTableSector m header eps n).isSome) :
    gptLoop m bd header eps (fuel + 1) n (.ofNat (eps * n)) acc =
      gptLoop m bd header eps fuel (n + 1) (.ofNat (eps * (n + 1)))
        (connectAll bd acc ((roundEntries m header eps n).filter fun c => gptMountable header c.entry)) := by
  obtain ⟨sector, hsector⟩ := Option.isSome_iff_exists.mp read
  rw [gptLoop, if_pos inside, if_pos (index_mod heps n), ← gptTableSector, hsector]
  dsimp only
  rw [← Int32.ofNat_add, ← Nat.mul_succ, gptEntries_eq hsector]
  rfl

theorem Passed.prior {n : Nat} (h : Passed m header eps (n + 1)) : Passed m header eps n :=
  ⟨fun p hp => h.inside p (Nat.lt_succ_of_lt hp), fun p hp => h.read p (Nat.lt_succ_of_lt hp)⟩

/-- The loop after its first `rounds` rounds. -/
theorem gptLoop_rounds (heps : PerSector eps) {rounds : Nat} (h : Passed m header eps rounds) (fuel : Nat) :
    gptLoop m bd header eps (rounds + fuel) 0 0 acc =
      gptLoop m bd header eps fuel rounds (.ofNat (eps * rounds))
        (connectAll bd acc (mountable m header eps rounds)) := by
  induction rounds generalizing fuel with
  | zero =>
      rw [Nat.zero_add]
      rfl
  | succ rounds ih =>
      rw [Nat.add_assoc, Nat.add_comm 1 fuel, ih h.prior,
        gptLoop_passes heps (h.inside rounds (Nat.lt_succ_self _)) (h.read rounds (Nat.lt_succ_self _)),
        ← connectAll_append]
      unfold mountable
      rw [considered_succ, List.filter_append]

/-- The loop ends here. -/
def Stops (m : Medium) (header : GptPartitionTableHeader) (eps n : Nat) : Prop :=
  (Int32.ofNat (eps * n)).toUInt32 < header.partitionCount → gptTableSector m header eps n = none

theorem gptLoop_stops {fuel n : Nat} (heps : PerSector eps) (h : Stops m header eps n) :
    gptLoop m bd header eps (fuel + 1) n (.ofNat (eps * n)) acc =
      some (decide (¬ (Int32.ofNat (eps * n)).toUInt32 < header.partitionCount) && decide (0 < acc.2),
        acc.1) := by
  rw [gptLoop]
  split
  · rename_i inside
    rw [if_pos (index_mod heps n), ← gptTableSector, h inside, decide_eq_false (not_not_intro inside)]
    rfl
  · rename_i outside
    rw [decide_eq_true outside, Bool.true_and]

theorem Passed.succ {n : Nat} (h : Passed m header eps n) (hstops : ¬ Stops m header eps n) :
    Passed m header eps (n + 1) := by
  obtain ⟨inside, hread⟩ := Classical.not_imp.mp hstops
  obtain ⟨sector, hsector⟩ := Option.ne_none_iff_exists'.mp hread
  exact h.next inside hsector

theorem passed_of_endless (h : ∀ n, ¬ Stops m header eps n) (rounds : Nat) : Passed m header eps rounds := by
  induction rounds with
  | zero => exact Passed.zero
  | succ rounds ih => exact ih.succ (h rounds)

/-- Where the loop ends somewhere, it comes to the end. -/
theorem exists_passed_stops {n : Nat} (h : Stops m header eps n) :
    ∃ rounds, Passed m header eps rounds ∧ Stops m header eps rounds := by
  by_contra hnone
  have hpassed : ∀ rounds, Passed m header eps rounds := by
    intro rounds
    induction rounds with
    | zero => exact Passed.zero
    | succ rounds ih => exact ih.succ fun hstops => hnone ⟨rounds, ih, hstops⟩
  exact hnone ⟨n, hpassed n, h⟩

/-! ## Termination -/

theorem gptLoop_returns_iff (heps : PerSector eps) :
    (∃ fuel, (gptLoop m bd header eps fuel 0 0 acc).isSome) ↔ ∃ n, Stops m header eps n := by
  constructor
  · rintro ⟨fuel, hfuel⟩
    by_contra hnone
    have hpassed := passed_of_endless (fun n hn => hnone ⟨n, hn⟩) fuel
    rw [← Nat.add_zero fuel, gptLoop_rounds heps hpassed 0] at hfuel
    cases hfuel
  · rintro ⟨n, hn⟩
    obtain ⟨rounds, hpassed, hstops⟩ := exists_passed_stops hn
    refine ⟨rounds + 1, ?_⟩
    rw [gptLoop_rounds heps hpassed, gptLoop_stops heps hstops]
    rfl

/-- Once in 2^32 indices the loop tests the greatest multiple of `eps`. -/
theorem exists_stops_iff (heps : PerSector eps) : (∃ n, Stops m header eps n) ↔
    header.partitionCount.toNat ≤ 2 ^ 32 - eps ∨ ∃ n, gptTableSector m header eps n = none := by
  have hinside : ∀ n, (Int32.ofNat (eps * n)).toUInt32 < header.partitionCount ↔
      eps * n % 2 ^ 32 < header.partitionCount.toNat := by
    intro n
    rw [UInt32.lt_iff_toNat_lt, index_toNat]
  constructor
  · rintro ⟨n, hn⟩
    by_cases h : (Int32.ofNat (eps * n)).toUInt32 < header.partitionCount
    · exact .inr ⟨n, hn h⟩
    · refine .inl ?_
      rw [hinside] at h
      rcases heps with rfl | rfl | rfl | rfl
      · omega
      · omega
      · omega
      · omega
  · rintro (hcount | ⟨n, hn⟩)
    · refine ⟨2 ^ 32 / eps - 1, fun h => absurd ((hinside _).mp h) ?_⟩
      rcases heps with rfl | rfl | rfl | rfl
      · omega
      · omega
      · omega
      · omega
    · exact ⟨n, fun _ => hn⟩

/-- The sectors that the loop can ask for, on both sides of the start of the table. -/
def Window (header : GptPartitionTableHeader) (eps sectors : Nat) : Prop :=
  2 ^ 31 / eps ≤ header.partitionTableLba.toNat ∧
    header.partitionTableLba.toNat + 2 ^ 31 / eps ≤ sectors

/-- Where the sectors do not all exist, one of them cannot be read. -/
theorem exists_unreadable (heps : PerSector eps) {sectors : UInt64}
    (hfinite : ∀ n lba, sectors ≤ lba → m.read n lba = none) (h : ¬ Window header eps sectors.toNat) :
    ∃ n, gptTableSector m header eps n = none := by
  have hbeyond : ∀ n, sectors.toNat ≤ (header.partitionTableLba.toNat + gptOffset eps n) % 2 ^ 64 →
      gptTableSector m header eps n = none := by
    intro n hn
    refine hfinite _ _ ?_
    rw [gptTableLba_eq heps, UInt64.le_iff_toNat_le, UInt64.toNat_add, UInt64.toNat_ofNat',
      Nat.add_mod_mod]
    exact hn
  have hlba := header.partitionTableLba.toNat_lt
  have hsectors := sectors.toNat_lt
  unfold Window at h
  by_cases hlow : 2 ^ 31 / eps ≤ header.partitionTableLba.toNat
  · refine ⟨min (2 ^ 31 / eps - 1) (2 ^ 64 - 1 - header.partitionTableLba.toNat), hbeyond _ ?_⟩
    unfold gptOffset
    rcases heps with rfl | rfl | rfl | rfl
    · split <;> omega
    · split <;> omega
    · split <;> omega
    · split <;> omega
  · refine ⟨2 ^ 32 / eps - 1 - header.partitionTableLba.toNat, hbeyond _ ?_⟩
    unfold gptOffset
    rcases heps with rfl | rfl | rfl | rfl
    · split <;> omega
    · split <;> omega
    · split <;> omega
    · split <;> omega

end Rounds

theorem gpt_scan_ends_iff {m : Medium} {s : Bdm} {bd : Dev} {sectors : UInt64}
    (hfinite : ∀ n lba, sectors ≤ lba → m.read n lba = none) :
    (∃ fuel, (partConnectGpt fuel m s bd).isSome) ↔
      ∀ header, gptHeader m (s.block bd) = some header →
        header.partitionCount.toNat ≤ 2 ^ 32 - entriesPerSector (s.block bd) ∨
          ¬ Window header (entriesPerSector (s.block bd)) sectors.toNat ∨
          ∃ n, gptTableSector m header (entriesPerSector (s.block bd)) n = none := by
  unfold partConnectGpt
  cases hheader : gptHeader m (s.block bd) with
  | none => exact iff_of_true ⟨0, rfl⟩ nofun
  | some header =>
      have heps := gptHeader_perSector hheader
      dsimp only
      rw [gptLoop_returns_iff heps, exists_stops_iff heps]
      constructor
      · rintro h _ ⟨⟩
        rcases h with hcount | hunread
        · exact .inl hcount
        · exact .inr (.inr hunread)
      · intro h
        rcases h header rfl with hcount | hwindow | hunread
        · exact .inl hcount
        · exact .inr (exists_unreadable heps hfinite hwindow)
        · exact .inr hunread

/-! ## Disks -/

/-- A header sector with a table at sector 2^29. -/
def gptSector (count : UInt8) : Sector := fun k =>
  if k < 8 then efiPartitionSignature.getD k 0
  else if k = 0x4B then 0x20
  else if 0x50 ≤ k ∧ k < 0x54 then count
  else 0

/-- A disk of 2^30 sectors that can all be read. -/
def gptDisk (count : UInt8) : Medium where
  alloc := true
  read n lba := if lba < 0x40000000 then some (if n = 0 then gptSector count else fun _ => 0) else none

def wholeDisk : BlockDevice := ⟨some "ata", 0, 0, 0, 512, 0, 0x40000000⟩

theorem gptDisk_finite (count : UInt8) (n : Nat) (lba : UInt64) (h : 0x40000000 ≤ lba) :
    (gptDisk count).read n lba = none := if_neg (UInt64.not_lt.mpr h)

/-- A disk with a table of 2^24 and some entries, the first of them in use. -/
def usedDisk : Medium where
  alloc := true
  read n lba :=
    if lba < 0x40000000 then
      some fun k =>
        if n = 0 then gptSector 1 k
        else if n = 1 then if k = 0 then 1 else if k = 0x20 then 40 else if k = 0x28 then 50 else 0
        else 0
    else none

theorem usedDisk_finite (n : Nat) (lba : UInt64) (h : 0x40000000 ≤ lba) : usedDisk.read n lba = none :=
  if_neg (UInt64.not_lt.mpr h)

theorem gpt_scan_ends_used :
    ∃ fuel, (partConnectGpt fuel usedDisk (bdmInit (fun _ => wholeDisk) []) (.drv 0)).isSome := by
  refine (gpt_scan_ends_iff usedDisk_finite).mpr ?_
  rintro header ⟨⟩
  exact .inl (by decide)

/-- The loop counter goes round and comes back to the first sector. -/
theorem gpt_scan_endless :
    ∃ header, gptHeader (gptDisk 0xFF) wholeDisk = some header ∧
      header.partitionTableLba = 0x20000000 ∧ header.partitionCount = 0xFFFFFFFF ∧
      (∀ n lba, wholeDisk.sectorCount ≤ lba → (gptDisk 0xFF).read n lba = none) ∧
      ¬ ∃ fuel, (partConnectGpt fuel (gptDisk 0xFF) (bdmInit (fun _ => wholeDisk) []) (.drv 0)).isSome := by
  have hheader : gptHeader (gptDisk 0xFF) wholeDisk = some (gptPartitionTableHeader (gptSector 0xFF)) := rfl
  have hlba : (gptPartitionTableHeader (gptSector 0xFF)).partitionTableLba = 0x20000000 := by decide
  have hcount : (gptPartitionTableHeader (gptSector 0xFF)).partitionCount = 0xFFFFFFFF := by decide
  have heps : PerSector 4 := .inl rfl
  have hread : ∀ n, gptTableSector (gptDisk 0xFF) (gptPartitionTableHeader (gptSector 0xFF)) 4 n ≠ none := by
    intro n
    have hinside : gptTableLba (gptPartitionTableHeader (gptSector 0xFF)) 4 (.ofNat (4 * n)) < 0x40000000 := by
      rw [gptTableLba_eq heps, hlba, UInt64.lt_iff_toNat_lt, UInt64.toNat_add, UInt64.toNat_ofNat']
      show (0x20000000 + gptOffset 4 n % 2 ^ 64) % 2 ^ 64 < 0x40000000
      unfold gptOffset
      split <;> omega
    unfold gptTableSector gptDisk
    dsimp only
    rw [if_pos hinside]
    nofun
  refine ⟨_, hheader, hlba, hcount, gptDisk_finite 0xFF, fun hends => ?_⟩
  rcases (exists_stops_iff heps).mp ((gptLoop_returns_iff heps).mp hends) with hsmall | ⟨n, hn⟩
  · exact absurd hsmall (by decide)
  · exact hread n hn

end BdmAssault.Manager
