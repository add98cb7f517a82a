import BdmAssault.FatFs.LinkMap
import BdmAssault.FatFs.Table

/-! # Data of open files

The part of `FIL` that `f_read` and `f_write` of `bdmfs_ff.c` use, and the bytes that a file
has: those of the sectors of its clusters, as far as the window has not newer ones.
-/

namespace BdmAssault.FatFs

def faRead : UInt8 := 0x01

def faWrite : UInt8 := 0x02

def frDenied : Nat := 7

/-- `FIL`; `cltbl` is there if the file has a link map. -/
structure FileObject where
  obj : ObjId
  flag : UInt8
  err : UInt8
  fptr : UInt64
  clust : UInt32
  sect : UInt64
  cltbl : Option (List UInt32)

/-- `ABORT` leaves the error in the file. -/
def FileObject.abort (fp : FileObject) (res : Nat) : FileObject := { fp with err := .ofNat res }

/-- `memcpy` of `n` bytes to `pos`. -/
def copyBytes (buff : Nat → UInt8) (pos n : Nat) (src : Nat → UInt8) : Nat → UInt8 := fun i =>
  if pos ≤ i ∧ i < pos + n then src (i - pos) else buff i

section Copy

variable {buff src : Nat → UInt8} {pos n i : Nat}

theorem copyBytes_in (h : pos ≤ i) (h' : i < pos + n) : copyBytes buff pos n src i = src (i - pos) := if_pos ⟨h, h'⟩

theorem copyBytes_out (h : i < pos ∨ pos + n ≤ i) : copyBytes buff pos n src i = buff i := if_neg (by omega)

theorem copyBytes_congr {src' : Nat → UInt8} (h : ∀ j < n, src j = src' j) :
    copyBytes buff pos n src = copyBytes buff pos n src' := by
  funext i
  by_cases hin : pos ≤ i ∧ i < pos + n
  · rw [copyBytes_in hin.1 hin.2, copyBytes_in hin.1 hin.2, h _ (by omega)]
  · rw [copyBytes_out (by omega), copyBytes_out (by omega)]

end Copy

section Geometry

variable (fs : MountedFs)

/-- The sector of its cluster that the position is in. -/
def csect (fptr : UInt64) : UInt32 := (fptr / fs.ssize.toUInt64 &&& (fs.csize.toUInt64 - 1)).toUInt32

/-- The bytes of a cluster. -/
def clusterBytes : Nat := fs.csize.toNat * fs.ssize.toNat

/-- Sector `k` of a cluster. -/
def dataSector (clst : UInt32) (k : Nat) : UInt64 := clst2sect fs.toFatfs clst + .ofNat k

/-- The data of the volume is behind the tables, and before the end of the sector numbers. -/
structure Laid : Prop where
  placed : fs.Placed
  first : 0 < fs.fatbase.toNat
  behind : fs.fatbase.toNat + fs.nFats.toNat * fs.fsize.toNat ≤ fs.database.toNat
  room : fs.database.toNat + fs.csize.toNat * fs.nFatent.toNat < 18446744073709551615

end Geometry

section Bytes

variable {σ : Type} {contents : σ → UInt64 → Nat → UInt8} {fs : MountedFs}

/-- Byte `k` of a file whose clusters are `cl 0`, `cl 1` and so on. -/
def fileByte (contents : σ → UInt64 → Nat → UInt8) (fs : MountedFs) (w : Win σ) (cl : Nat → UInt32) (k : Nat) : UInt8 :=
  view contents w (dataSector fs (cl (k / clusterBytes fs)) (k / fs.ssize.toNat % fs.csize.toNat))
    (k % fs.ssize.toNat)

theorem MountedFs.ssize_pos (fs : MountedFs) : 0 < fs.ssize.toNat := Nat.lt_of_lt_of_le (by decide) fs.ssize_le

theorem csect_toNat (fs : MountedFs) (fptr : UInt64) :
    (csect fs fptr).toNat = fptr.toNat / fs.ssize.toNat % fs.csize.toNat := by
  obtain ⟨n, hn⟩ := fs.csize_pow
  have hsize : fs.csize.toNat < 65536 := fs.csize.toNat_lt
  have hpos := fs.csize_pos
  have hmask : (fs.csize.toUInt64 - 1).toNat = 2 ^ n - 1 := by
    rw [UInt64.toNat_sub_of_le _ _ (by rw [UInt64.le_iff_toNat_le, UInt16.toNat_toUInt64]; exact hpos),
      UInt16.toNat_toUInt64, hn]
    rfl
  unfold csect
  rw [UInt64.toNat_toUInt32, UInt64.toNat_and, UInt64.toNat_div, UInt16.toNat_toUInt64, hmask,
    Nat.and_two_pow_sub_one_eq_mod, ← hn]
  have hmod := Nat.mod_lt (fptr.toNat / fs.ssize.toNat) hpos
  exact Nat.mod_eq_of_lt (by show _ < 4294967296; omega)

theorem div_clusterBytes (fs : MountedFs) (k : Nat) :
    k / clusterBytes fs = k / fs.ssize.toNat / fs.csize.toNat := by
  unfold clusterBytes
  rw [Nat.mul_comm, Nat.div_div_eq_div_mul]

/-- The index of a cluster in a link map. -/
theorem cluster_index (fs : MountedFs) (fptr : UInt64) :
    (fptr / fs.ssize.toUInt64 / fs.csize.toUInt64).toUInt32 = .ofNat (fptr.toNat / clusterBytes fs) := by
  refine UInt32.toNat_inj.mp ?_
  rw [UInt64.toNat_toUInt32, UInt64.toNat_div, UInt64.toNat_div, UInt16.toNat_toUInt64, UInt16.toNat_toUInt64,
    div_clusterBytes, UInt32.toNat_ofNat']

theorem pred_div_of_ne {c f : Nat} (hf : f % c ≠ 0) : (f - 1) / c = f / c := by
  cases f with
  | zero => rfl
  | succ f => exact (Nat.succ_div_of_mod_ne_zero hf).symm

theorem pred_div_of_eq {c f : Nat} (hf : f % c = 0) (hpos : 0 < f) : (f - 1) / c + 1 = f / c := by
  cases f with
  | zero => exact absurd hpos (Nat.lt_irrefl 0)
  | succ f => exact (Nat.succ_div_of_mod_eq_zero hf).symm

/-- Where a sector of a cluster is. -/
theorem Laid.dataSector_toNat (h : Laid fs) {clst : UInt32} (hclst : fs.InRange clst) {k : Nat} (hk : k < fs.csize.toNat) :
    (dataSector fs clst k).toNat = fs.database.toNat + fs.csize.toNat * (clst.toNat - 2) + k := by
  obtain ⟨hlow, hhigh⟩ := Fatfs.inRange_iff.mp hclst
  have hroom := h.room
  have hsucc : fs.csize.toNat * (clst.toNat - 2) + fs.csize.toNat ≤ fs.csize.toNat * fs.nFatent.toNat := by
    rw [← Nat.mul_succ]
    exact Nat.mul_le_mul_left _ (by omega)
  unfold dataSector
  rw [clst2sect_of_inRange hclst, UInt64.toNat_add, UInt64.toNat_add, UInt64.toNat_mul, UInt16.toNat_toUInt64,
    UInt32.toNat_toUInt64, UInt32.toNat_sub_of_le _ _ hclst.1, UInt64.toNat_ofNat']
  show ((fs.database.toNat + fs.csize.toNat * (clst.toNat - 2) % 18446744073709551616) % 18446744073709551616 +
    k % 18446744073709551616) % 18446744073709551616 = _
  omega

theorem Laid.dataSector_bounds (h : Laid fs) {clst : UInt32} (hclst : fs.InRange clst) {k : Nat}
    (hk : k < fs.csize.toNat) : fs.database.toNat ≤ (dataSector fs clst k).toNat ∧
      (dataSector fs clst k).toNat < 18446744073709551615 := by
  obtain ⟨hlow, hhigh⟩ := Fatfs.inRange_iff.mp hclst
  have hroom := h.room
  have hsucc : fs.csize.toNat * (clst.toNat - 2) + fs.csize.toNat ≤ fs.csize.toNat * fs.nFatent.toNat := by
    rw [← Nat.mul_succ]
    exact Nat.mul_le_mul_left _ (by omega)
  rw [h.dataSector_toNat hclst hk]
  omega

/-- The window can load the sectors of files. -/
theorem Laid.dataSector_outside (h : Laid fs) {clst : UInt32} (hclst : fs.InRange clst) {k : Nat}
    (hk : k < fs.csize.toNat) : dataSector fs clst k ≠ noSector ∧ ¬ fs.inMirror (dataSector fs clst k) := by
  obtain ⟨hlow, hhigh⟩ := h.dataSector_bounds hclst hk
  have hbehind := h.behind
  constructor
  · intro heq
    rw [heq] at hhigh
    exact absurd hhigh (by decide)
  · rintro ⟨htwo, hlt⟩
    rw [htwo] at hbehind
    change fs.fatbase.toNat + 2 * fs.fsize.toNat ≤ _ at hbehind
    have hsize : fs.fsize.toNat < 4294967296 := fs.fsize.toNat_lt
    have hplaced := h.placed
    unfold MountedFs.Placed at hplaced
    rw [UInt64.lt_iff_toNat_lt, UInt64.toNat_sub, UInt64.toNat_sub, UInt32.toNat_toUInt64] at hlt
    omega

/-- No table is among them. -/
theorem Laid.dataSector_table (h : Laid fs) (hexfat : fs.fsType ≠ .exfat) {clst : UInt32} (hclst : fs.InRange clst)
    {k : Nat} (hk : k < fs.csize.toNat) {i : Nat} (hi : i < fs.fsType.tableSize fs.nFatent.toNat) :
    dataSector fs clst k ≠ tableSector fs i := by
  intro heq
  have hbounds := h.dataSector_bounds hclst hk
  have hbehind := h.behind
  have hplaced := h.placed
  unfold MountedFs.Placed at hplaced
  have hsize : fs.fsize.toNat < 4294967296 := fs.fsize.toNat_lt
  have hfits : i / fs.ssize.toNat < fs.fsize.toNat :=
    Nat.div_lt_of_lt_mul (by rw [Nat.mul_comm]; exact Nat.lt_of_lt_of_le hi (fs.fits hexfat))
  have hfats : 1 ≤ fs.nFats.toNat := by
    rcases fs.nFats_eq with hone | htwo
    · rw [hone]; decide
    · rw [htwo]; decide
  have hmul : fs.fsize.toNat ≤ fs.nFats.toNat * fs.fsize.toNat := Nat.le_mul_of_pos_left _ hfats
  rw [heq] at hbounds
  unfold tableSector at hbounds
  rw [UInt64.toNat_add, UInt64.toNat_ofNat'] at hbounds
  generalize i / fs.ssize.toNat = q at hfits hbounds
  omega

theorem Laid.dataSector_inj (h : Laid fs) {a b : UInt32} (ha : fs.InRange a) (hb : fs.InRange b) {i j : Nat}
    (hi : i < fs.csize.toNat) (hj : j < fs.csize.toNat) (heq : dataSector fs a i = dataSector fs b j) :
    a = b ∧ i = j := by
  have hnat := congrArg UInt64.toNat heq
  rw [h.dataSector_toNat ha hi, h.dataSector_toNat hb hj, Nat.add_assoc, Nat.add_assoc] at hnat
  replace hnat := Nat.add_left_cancel hnat
  have hquot := congrArg (· / fs.csize.toNat) hnat
  rw [Nat.mul_add_div fs.csize_pos, Nat.mul_add_div fs.csize_pos, Nat.div_eq_of_lt hi, Nat.div_eq_of_lt hj,
    Nat.add_zero, Nat.add_zero] at hquot
  obtain ⟨hla, -⟩ := Fatfs.inRange_iff.mp ha
  obtain ⟨hlb, -⟩ := Fatfs.inRange_iff.mp hb
  have hclst : a.toNat = b.toNat := by omega
  rw [hclst] at hnat
  exact ⟨UInt32.toNat_inj.mp hclst, Nat.add_left_cancel hnat⟩

/-- Sectors from `dataSector` on, up to the end of the cluster. -/
theorem dataSector_add (fs : MountedFs) (clst : UInt32) (k i : Nat) :
    dataSector fs clst k + .ofNat i = dataSector fs clst (k + i) := by
  unfold dataSector
  rw [UInt64.add_assoc, ← UInt64.ofNat_add]

/-- The position in a sector, the sector in a cluster and the cluster. -/
theorem fileByte_at (w : Win σ) (cl : Nat → UInt32) {q k : Nat} (hk : k < fs.ssize.toNat) :
    fileByte contents fs w cl (q * fs.ssize.toNat + k) =
      view contents w (dataSector fs (cl (q / fs.csize.toNat)) (q % fs.csize.toNat)) k := by
  have hpos := fs.ssize_pos
  have hdiv : (q * fs.ssize.toNat + k) / fs.ssize.toNat = q := by
    rw [Nat.mul_comm, Nat.mul_add_div hpos, Nat.div_eq_of_lt hk, Nat.add_zero]
  have hmod : (q * fs.ssize.toNat + k) % fs.ssize.toNat = k := by
    rw [Nat.mul_comm, Nat.mul_add_mod, Nat.mod_eq_of_lt hk]
  unfold fileByte
  rw [div_clusterBytes, hdiv, hmod]

theorem SameView.fileByte {w w' : Win σ} (h : SameView contents fs w w') (hlaid : Laid fs) {cl : Nat → UInt32} {k : Nat}
    (hcl : fs.InRange (cl (k / clusterBytes fs))) : fileByte contents fs w' cl k = FatFs.fileByte contents fs w cl k := by
  unfold FatFs.fileByte
  rw [h _ (hlaid.dataSector_outside hcl (Nat.mod_lt _ fs.csize_pos)).2]

theorem clst2sect_ne_zero (h : Laid fs) {clst : UInt32} (hclst : fs.InRange clst) : clst2sect fs.toFatfs clst ≠ 0 := by
  have hbounds := h.dataSector_bounds hclst fs.csize_pos
  have hbehind := h.behind
  have hfirst := h.first
  have hzero : dataSector fs clst 0 = clst2sect fs.toFatfs clst := UInt64.add_zero _
  intro heq
  rw [hzero, heq] at hbounds
  have hle : fs.database.toNat ≤ 0 := hbounds.1
  omega

theorem ssize_dvd_word (fs : MountedFs) : fs.ssize.toNat ∣ 4294967296 :=
  Nat.dvd_trans fs.ssize_dvd ⟨1048576, rfl⟩

/-- The position in its sector. -/
theorem sectorOfs_toNat (fs : MountedFs) (fptr : UInt64) :
    (fptr.toUInt32 % fs.ssize.toUInt32).toNat = fptr.toNat % fs.ssize.toNat := by
  rw [UInt32.toNat_mod, UInt64.toNat_toUInt32, UInt16.toNat_toUInt32]
  exact Nat.mod_mod_of_dvd _ (ssize_dvd_word fs)

/-- The number of sectors that are transferred at once. -/
theorem clip_spec (fs : MountedFs) {bytes k : UInt32} (hk : k.toNat < fs.csize.toNat)
    (hwhole : 0 < bytes / fs.ssize.toUInt32) :
    0 < (if fs.csize.toUInt32 < k + bytes / fs.ssize.toUInt32 then fs.csize.toUInt32 - k
        else bytes / fs.ssize.toUInt32).toNat ∧
      fs.ssize.toNat * (if fs.csize.toUInt32 < k + bytes / fs.ssize.toUInt32 then fs.csize.toUInt32 - k
        else bytes / fs.ssize.toUInt32).toNat ≤ bytes.toNat ∧
      k.toNat + (if fs.csize.toUInt32 < k + bytes / fs.ssize.toUInt32 then fs.csize.toUInt32 - k
        else bytes / fs.ssize.toUInt32).toNat ≤ fs.csize.toNat := by
  have hssize : 512 ≤ fs.ssize.toNat := fs.ssize_le
  have hcsize : fs.csize.toNat < 65536 := fs.csize.toNat_lt
  have hbytes : bytes.toNat < 4294967296 := bytes.toNat_lt
  have hquot : bytes.toNat / fs.ssize.toNat ≤ bytes.toNat / 512 := Nat.div_le_div_left hssize (by decide)
  have hmul := Nat.mul_div_le bytes.toNat fs.ssize.toNat
  have hcc : (bytes / fs.ssize.toUInt32).toNat = bytes.toNat / fs.ssize.toNat := by
    rw [UInt32.toNat_div, UInt16.toNat_toUInt32]
  have hsum : (k + bytes / fs.ssize.toUInt32).toNat = k.toNat + bytes.toNat / fs.ssize.toNat := by
    rw [UInt32.toNat_add, hcc]
    exact Nat.mod_eq_of_lt (by omega)
  have hnil : (0 : UInt32).toNat = 0 := rfl
  rw [UInt32.lt_iff_toNat_lt, hcc] at hwhole
  by_cases hlt : fs.csize.toUInt32 < k + bytes / fs.ssize.toUInt32
  · rw [if_pos hlt, UInt32.toNat_sub_of_le _ _ (by
      rw [UInt32.le_iff_toNat_le, UInt16.toNat_toUInt32]; exact Nat.le_of_lt hk), UInt16.toNat_toUInt32]
    rw [UInt32.lt_iff_toNat_lt, hsum, UInt16.toNat_toUInt32] at hlt
    refine ⟨by omega, Nat.le_trans (Nat.mul_le_mul_left _ ?_) hmul, by omega⟩
    omega
  · rw [if_neg hlt, hcc]
    rw [UInt32.lt_iff_toNat_lt, hsum, UInt16.toNat_toUInt32] at hlt
    exact ⟨by omega, hmul, by omega⟩

/-- A position that moves inside of its sector, or of its cluster. -/
theorem add_div_of_mod_lt {c k i : Nat} (h : k % c + i < c) : (k + i) / c = k / c := by
  have hc : 0 < c := by omega
  conv => lhs; rw [← Nat.div_add_mod k c]
  rw [Nat.add_assoc, Nat.mul_add_div hc, Nat.div_eq_of_lt h, Nat.add_zero]

theorem add_mod_of_mod_lt {c k i : Nat} (h : k % c + i < c) : (k + i) % c = k % c + i := by
  rw [← Nat.mod_add_mod, Nat.mod_eq_of_lt h]

/-- The clusters of a file of `n` clusters, and how it finds them. -/
structure Follows (contents : σ → UInt64 → Nat → UInt8) (fs : MountedFs) (w : Win σ) (obj : ObjId)
    (cltbl : Option (List UInt32)) (cl : Nat → UInt32) (n : Nat) : Prop where
  range : ∀ k < n, fs.InRange (cl k)
  first : 0 < n → cl 0 = obj.sclust
  next : cltbl = none → ∀ k, k + 1 < n → getFat fs.toFatfs (fun a => some (view contents w a)) obj (cl k) = cl (k + 1)
  map : ∀ tbl, cltbl = some tbl → ∀ k < n, clmtWalk tbl.tail (.ofNat k) = cl k
  room : obj.objsize.toNat ≤ n * clusterBytes fs
  few : n < 4294967296

/-- The cluster and the sector in the file are those of its position. -/
structure Positioned (fs : MountedFs) (cl : Nat → UInt32) (fp : FileObject) : Prop where
  clust : 0 < fp.fptr.toNat → fp.clust = cl ((fp.fptr.toNat - 1) / clusterBytes fs)
  sect : fp.fptr.toNat % fs.ssize.toNat ≠ 0 →
    fp.sect = dataSector fs (cl (fp.fptr.toNat / clusterBytes fs)) (fp.fptr.toNat / fs.ssize.toNat % fs.csize.toNat)

theorem Follows.inRange {w : Win σ} {obj : ObjId} {cltbl : Option (List UInt32)} {cl : Nat → UInt32} {n k : Nat}
    (h : Follows contents fs w obj cltbl cl n) (hk : k < obj.objsize.toNat) :
    k / clusterBytes fs < n ∧ fs.InRange (cl (k / clusterBytes fs)) := by
  have hlt : k / clusterBytes fs < n :=
    Nat.div_lt_of_lt_mul (by rw [Nat.mul_comm]; exact Nat.lt_of_lt_of_le hk h.room)
  exact ⟨hlt, h.range _ hlt⟩

/-- `get_fat` looks at the tables only. -/
theorem SameView.getFat {w w' : Win σ} (h : SameView contents fs w w') (hplaced : fs.Placed) (obj : ObjId)
    (clst : UInt32) : getFat fs.toFatfs (fun a => some (view contents w' a)) obj clst =
      FatFs.getFat fs.toFatfs (fun a => some (view contents w a)) obj clst := by
  unfold FatFs.getFat
  by_cases hrange : clst < 2 ∨ fs.nFatent ≤ clst
  · rw [if_pos hrange, if_pos hrange]
  · rw [if_neg hrange, if_neg hrange]
    have hclst : clst < fs.nFatent := UInt32.not_le.mp fun hle => hrange (.inr hle)
    have hout := MountedFs.entry_outside hplaced hclst
    cases hfs : fs.fsType with
    | fat12 =>
        have hsnd := MountedFs.entry_outside_snd hplaced hfs hclst
        obtain ⟨hlow, hhigh⟩ := offset12_toNat hfs hclst
        rw [← hhigh, ← tableSector_eq] at hsnd
        rw [← hlow, ← tableSector_eq] at hout
        dsimp only
        rw [h _ hout.2, h _ hsnd.2]
    | fat16 =>
        rw [hfs] at hout
        have hsect := entrySector_eq fs clst (.inl rfl)
        have hview := h (tableSector fs (clst.toNat * (2 : UInt32).toNat)) hout.2
        dsimp only
        rw [hsect, hview]
    | fat32 =>
        have hout := dwordSector_outside hplaced (.inl hfs) hclst
        have hview := h _ hout.2
        unfold MountedFs.dwordSector at hview
        dsimp only
        unfold fatDword
        dsimp only
        rw [hview]
    | exfat =>
        have hout := dwordSector_outside hplaced (.inr hfs) hclst
        have hview := h _ hout.2
        unfold MountedFs.dwordSector at hview
        dsimp only
        unfold exfatEntry fatDword
        dsimp only
        rw [hview]

theorem Follows.same {w w' : Win σ} {obj : ObjId} {cltbl : Option (List UInt32)} {cl : Nat → UInt32} {n : Nat}
    (h : Follows contents fs w obj cltbl cl n) (hsame : SameView contents fs w w') (hplaced : fs.Placed) :
    Follows contents fs w' obj cltbl cl n :=
  ⟨h.range, h.first, fun htbl k hk => (hsame.getFat hplaced obj _).trans (h.next htbl k hk), h.map, h.room, h.few⟩

end Bytes

end BdmAssault.FatFs
