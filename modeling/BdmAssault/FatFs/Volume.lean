import BdmAssault.BlockDevice

/-! # Volumes

The part of FatFs that finds the clusters of a file: `clst2sect` and `get_fat` of
`bdmfs_ff.c`, on the records that `f_mount` and `f_open` fill. `ff.c` of `bdmfs_fatfs` has
the same two functions.
-/

namespace BdmAssault.FatFs

/-! ## Results other than `FR_OK` -/

def frDiskErr : Nat := 1

def frIntErr : Nat := 2

def frInvalidObject : Nat := 9

def frNotEnoughCore : Nat := 17

/-! ## Records -/

inductive FsType where
  | fat12
  | fat16
  | fat32
  | exfat
  deriving DecidableEq

/-- `MAX_FAT12`, `MAX_FAT16`, `MAX_FAT32` and `MAX_EXFAT` -/
def FsType.maxClusters : FsType → Nat
  | .fat12 => 0xFF5
  | .fat16 => 0xFFF5
  | .fat32 => 0x0FFFFFF5
  | .exfat => 0x7FFFFFFD

/-- `FATFS` of a mounted volume, with what `mount_volume` has tested. -/
structure Fatfs where
  fsType : FsType
  csize : UInt16
  ssize : UInt16
  nFatent : UInt32
  fatbase : UInt64
  database : UInt64
  csize_pos : 0 < csize.toNat
  ssize_le : 512 ≤ ssize.toNat
  nFatent_le : nFatent.toNat ≤ fsType.maxClusters + 2

/-- The sector size of most volumes. -/
theorem sectorSize_le : 512 ≤ (512 : UInt16).toNat := by decide

/-- `FFOBJID`, but for the volume. -/
structure ObjId where
  stat : UInt8
  sclust : UInt32
  objsize : UInt64
  nCont : UInt32
  nFrag : UInt32

/-- A volume on the device it was mounted from: `disk_ioctl` has given FatFs the size of its
sectors. -/
structure Volume where
  fs : Fatfs
  bd : BlockDevice
  ssize_eq : bd.sectorSize.toUInt16 = fs.ssize

/-- The sectors that `move_window` can load; `none` is a disk error. -/
abbrev FatSectors := UInt64 → Option (Nat → UInt8)

def clst2sect (fs : Fatfs) (clst : UInt32) : UInt64 :=
  let clst := clst - 2
  if fs.nFatent - 2 ≤ clst then 0 else fs.database + fs.csize.toUInt64 * clst.toUInt64

/-! ## The allocation table -/

def ldWord (win : Nat → UInt8) (i : Nat) : UInt32 :=
  (win i).toUInt32 ||| ((win (i + 1)).toUInt32 <<< 8)

def ldDword (win : Nat → UInt8) (i : Nat) : UInt32 :=
  ldWord win i ||| (ldWord win (i + 2) <<< 16)

/-- The four bytes of an entry of FAT32 or exFAT. -/
def fatDword (fs : Fatfs) (window : FatSectors) (clst : UInt32) : Option UInt32 :=
  (window (fs.fatbase + (clst / (fs.ssize.toUInt32 / 4)).toUInt64)).map fun win =>
    ldDword win (clst * 4 % fs.ssize.toUInt32).toNat

/-- A file without an allocation chain, or whose chain is not written yet. -/
def exfatEntry (fs : Fatfs) (window : FatSectors) (obj : ObjId) (clst : UInt32) : UInt32 :=
  if (obj.objsize ≠ 0 ∧ obj.sclust ≠ 0) ∨ obj.stat = 0 then
    let cofs := clst - obj.sclust
    let clen := ((obj.objsize - 1) / fs.ssize.toUInt64 / fs.csize.toUInt64).toUInt32
    if obj.stat = 2 ∧ cofs ≤ clen then (if cofs = clen then 0x7FFFFFFF else clst + 1)
    else if obj.stat = 3 ∧ cofs < obj.nCont then clst + 1
    else if obj.stat ≠ 2 then
      if obj.nFrag ≠ 0 then 0x7FFFFFFF
      else ((fatDword fs window clst).map (· &&& 0x7FFFFFFF)).getD 0xFFFFFFFF
    else 1
  else 1

def getFat (fs : Fatfs) (window : FatSectors) (obj : ObjId) (clst : UInt32) : UInt32 :=
  if clst < 2 ∨ fs.nFatent ≤ clst then 1
  else
    match fs.fsType with
    | .fat12 =>
        let bc := clst + clst / 2
        match window (fs.fatbase + (bc / fs.ssize.toUInt32).toUInt64),
            window (fs.fatbase + ((bc + 1) / fs.ssize.toUInt32).toUInt64) with
        | some low, some high =>
            -- the two bytes may lie in two sectors
            let wc := (low (bc % fs.ssize.toUInt32).toNat).toUInt32 |||
              ((high ((bc + 1) % fs.ssize.toUInt32).toNat).toUInt32 <<< 8)
            if clst &&& 1 ≠ 0 then wc >>> 4 else wc &&& 0xFFF
        | _, _ => 0xFFFFFFFF
    | .fat16 =>
        ((window (fs.fatbase + (clst / (fs.ssize.toUInt32 / 2)).toUInt64)).map fun win =>
          ldWord win (clst * 2 % fs.ssize.toUInt32).toNat).getD 0xFFFFFFFF
    | .fat32 => ((fatDword fs window clst).map (· &&& 0x0FFFFFFF)).getD 0xFFFFFFFF
    | .exfat => exfatEntry fs window obj clst

/-! ## Chains -/

def Fatfs.InRange (fs : Fatfs) (clst : UInt32) : Prop := 2 ≤ clst ∧ clst < fs.nFatent

/-- The value that follows the last cluster of a chain. -/
def Fatfs.EndMark (fs : Fatfs) (val : UInt32) : Prop := fs.nFatent ≤ val ∧ val ≠ 0xFFFFFFFF

section Volume

variable {fs : Fatfs}

theorem Fatfs.nFatent_lt (fs : Fatfs) : fs.nFatent.toNat ≤ 0x7FFFFFFF := by
  have hle := fs.nFatent_le
  cases hfs : fs.fsType with
  | fat12 => rw [hfs] at hle; exact Nat.le_trans hle (by decide)
  | fat16 => rw [hfs] at hle; exact Nat.le_trans hle (by decide)
  | fat32 => rw [hfs] at hle; exact Nat.le_trans hle (by decide)
  | exfat => rw [hfs] at hle; exact hle

theorem Fatfs.inRange_iff {clst : UInt32} :
    fs.InRange clst ↔ 2 ≤ clst.toNat ∧ clst.toNat < fs.nFatent.toNat := by
  unfold InRange
  rw [UInt32.le_iff_toNat_le, UInt32.lt_iff_toNat_lt]
  rfl

/-- The tests of the source, negated. -/
theorem Fatfs.not_inRange_iff {val : UInt32} :
    (val = 0xFFFFFFFF ∨ val < 2 ∨ fs.nFatent ≤ val) ↔ ¬ fs.InRange val := by
  have hlimit := fs.nFatent_lt
  rw [inRange_iff, UInt32.lt_iff_toNat_lt, UInt32.le_iff_toNat_le, ← UInt32.toNat_inj]
  show (val.toNat = 4294967295 ∨ val.toNat < 2 ∨ _) ↔ _
  omega

theorem Fatfs.not_endMark_iff {val : UInt32} :
    (val = 0xFFFFFFFF ∨ val < fs.nFatent) ↔ ¬ fs.EndMark val := by
  unfold EndMark
  rw [← UInt32.not_lt, not_and_or, not_not, not_ne_iff, or_comm]

theorem Fatfs.EndMark.not_inRange {val : UInt32} (h : fs.EndMark val) : ¬ fs.InRange val :=
  fun hrange => UInt32.not_lt.mpr h.1 hrange.2

theorem clst2sect_of_inRange {clst : UInt32} (h : fs.InRange clst) :
    clst2sect fs clst = fs.database + fs.csize.toUInt64 * (clst - 2).toUInt64 := by
  unfold clst2sect
  dsimp only
  rw [if_neg]
  obtain ⟨hlow, hhigh⟩ := Fatfs.inRange_iff.mp h
  rw [UInt32.not_le, UInt32.lt_iff_toNat_lt, UInt32.toNat_sub_of_le, UInt32.toNat_sub_of_le]
  · show clst.toNat - 2 < fs.nFatent.toNat - 2
    omega
  · rw [UInt32.le_iff_toNat_le]
    show 2 ≤ _
    omega
  · exact h.1

theorem getFat_exfat {clst : UInt32} (hfs : fs.fsType = .exfat) (h : fs.InRange clst) (window : FatSectors)
    (obj : ObjId) : getFat fs window obj clst = exfatEntry fs window obj clst := by
  unfold getFat
  rw [if_neg, hfs]
  rintro (hlow | hhigh)
  · exact UInt32.not_le.mpr hlow h.1
  · exact UInt32.not_lt.mpr hhigh h.2

/-- A contiguous file says itself where its next cluster is. -/
theorem exfatEntry_contiguous {obj : ObjId} {clst clen : UInt32} (hstat : obj.stat = 2) (hsize : obj.objsize ≠ 0)
    (hstart : obj.sclust ≠ 0)
    (hclen : ((obj.objsize - 1) / fs.ssize.toUInt64 / fs.csize.toUInt64).toUInt32 = clen)
    (h : clst - obj.sclust ≤ clen) (window : FatSectors) :
    exfatEntry fs window obj clst = if clst - obj.sclust = clen then 0x7FFFFFFF else clst + 1 := by
  unfold exfatEntry
  dsimp only
  rw [if_pos (Or.inl ⟨hsize, hstart⟩), hclen, if_pos ⟨hstat, h⟩]

end Volume

end BdmAssault.FatFs
