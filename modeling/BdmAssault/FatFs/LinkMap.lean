import BdmAssault.FatFs.Select
import BdmAssault.FatFs.Volume

/-! # Seeking through a link map

`f_lseek` of `bdmfs_ff.c` on a file with a link map, and `fs_lseek64`, which calls it. An
offset of all ones is the command to build the map; every other one is a position, clipped
at the size of the file. With `FF_FS_TINY` a seek reads no sector of the file.
-/

namespace BdmAssault.FatFs

/-- A `FIL` that was opened for reading and got a link map; `cltbl` are the items from
`cltbl[0]` on. Only a file that is written has clusters to be filled in (`n_frag`). -/
structure ReadFile where
  obj : ObjId
  err : UInt8
  fptr : UInt64
  clust : UInt32
  sect : UInt64
  cltbl : List UInt32
  nFrag_eq : obj.nFrag = 0

def createLinkmapOfs : UInt64 := 0xFFFFFFFFFFFFFFFF

/-! ## The link map -/

/-- The loop of `clmt_clust`, over pairs of a length and a first cluster up to a zero. -/
def clmtWalk : List UInt32 → UInt32 → UInt32
  | ncl :: tcl :: tbl, cl => if ncl = 0 then 0 else if cl < ncl then cl + tcl else clmtWalk tbl (cl - ncl)
  | _, _ => 0

def clmtClust (fs : Fatfs) (fp : ReadFile) (ofs : UInt64) : UInt32 :=
  clmtWalk fp.cltbl.tail (ofs / fs.ssize.toUInt64 / fs.csize.toUInt64).toUInt32

/-- The chain is at its end: `*fp->cltbl = ulen`, and the zero behind the last pair. -/
def linkmapDone (tlen ulen : UInt32) (i : Nat) (cltbl : List UInt32) : Nat × List UInt32 :=
  if ulen ≤ tlen then (frOk, (cltbl.set 0 ulen).set i 0) else (frNotEnoughCore, cltbl.set 0 ulen)

/-- The two loops that build the map, one `get_fat` in each round: `ncl` clusters from `tcl`
on are behind `cl`, and item `i` is the next to be written. -/
def linkmapLoop (fs : Fatfs) (next : UInt32 → UInt32) (tlen : UInt32) :
    Nat → UInt32 → UInt32 → UInt32 → UInt32 → Nat → List UInt32 → Option (Nat × List UInt32)
  | 0, _, _, _, _, _, _ => none
  | fuel + 1, tcl, ncl, cl, ulen, i, cltbl =>
      let ncl := ncl + 1
      let pcl := cl
      let cl := next cl
      if cl ≤ 1 then some (frIntErr, cltbl)
      else if cl = 0xFFFFFFFF then some (frDiskErr, cltbl)
      else if cl = pcl + 1 then linkmapLoop fs next tlen fuel tcl ncl cl ulen i cltbl
      else
        let (i, cltbl) := if ulen ≤ tlen then (i + 2, (cltbl.set i ncl).set (i + 1) tcl) else (i, cltbl)
        if cl < fs.nFatent then linkmapLoop fs next tlen fuel cl 0 cl (ulen + 2) i cltbl
        else some (linkmapDone tlen ulen i cltbl)

/-- `ABORT` leaves the error in the file; too small a table does not. -/
def createLinkmap (fuel : Nat) (fs : Fatfs) (window : FatSectors) (fp : ReadFile) : Option (Nat × ReadFile) :=
  let tlen := fp.cltbl.headD 0
  let built :=
    if fp.obj.sclust ≠ 0 then
      linkmapLoop fs (getFat fs window fp.obj) tlen fuel fp.obj.sclust 0 fp.obj.sclust 4 1 fp.cltbl
    else some (linkmapDone tlen 2 1 fp.cltbl)
  built.map fun (res, cltbl) =>
    (res, { fp with
      cltbl := cltbl
      err := if res = frIntErr ∨ res = frDiskErr then .ofNat res else fp.err })

/-! ## Seeking -/

/-- `linkmap` says whether the command to build the map was carried out. -/
structure SeekOutcome where
  ret : Int
  file : ReadFile
  linkmap : Bool

def fastSeek (fs : Fatfs) (fp : ReadFile) (ofs : UInt64) : Nat × ReadFile :=
  let ofs := if fp.obj.objsize < ofs then fp.obj.objsize else ofs
  let fp := { fp with fptr := ofs }
  if 0 < ofs then
    let fp := { fp with clust := clmtClust fs fp (ofs - 1) }
    let dsc := clst2sect fs fp.clust
    if dsc = 0 then (frIntErr, { fp with err := .ofNat frIntErr })
    else
      let dsc := dsc + (((ofs - 1) / fs.ssize.toUInt64).toUInt32 &&& (fs.csize.toUInt32 - 1)).toUInt64
      if ofs % fs.ssize.toUInt64 ≠ 0 ∧ dsc ≠ fp.sect then (frOk, { fp with sect := dsc }) else (frOk, fp)
  else (frOk, fp)

/-- `validate` is the answer of the function of this name. The last component is `true` if the map is built. -/
def fLseek (fuel : Nat) (fs : Fatfs) (window : FatSectors) (validate : Nat) (fp : ReadFile) (ofs : UInt64) :
    Option (Nat × ReadFile × Bool) :=
  let res := if validate = frOk then fp.err.toNat else validate
  if res ≠ frOk then some (res, fp, false)
  else if ofs = createLinkmapOfs then (createLinkmap fuel fs window fp).map fun (res, fp) => (res, fp, true)
  else
    let (res, fp) := fastSeek fs fp ofs
    some (res, fp, false)

/-- `whence` is 1 for `SEEK_CUR` and 2 for `SEEK_END`. -/
def seekOffset (fp : ReadFile) (offset : Int64) (whence : Int) : UInt64 :=
  if whence = 1 then offset.toUInt64 + fp.fptr
  else if whence = 2 then fp.obj.objsize + offset.toUInt64
  else offset.toUInt64

def fsLseek64 (fuel : Nat) (fs : Fatfs) (window : FatSectors) (validate : Nat) (fp : ReadFile) (offset : Int64)
    (whence : Int) : Option SeekOutcome :=
  (fLseek fuel fs window validate fp (seekOffset fp offset whence)).map fun (res, fp, linkmap) =>
    ⟨if res = frOk then fp.fptr.toInt64.toInt else -res, fp, linkmap⟩

/-! ## The target -/

/-- Where the caller wants to go. -/
def target (fp : ReadFile) (offset : Int64) (whence : Int) : Int :=
  if whence = 1 then fp.fptr.toNat + offset.toInt
  else if whence = 2 then fp.obj.objsize.toNat + offset.toInt
  else offset.toInt

theorem toNat_toUInt64 (x : Int64) : (x.toUInt64.toNat : Int) = x.toInt % 18446744073709551616 := by
  have hx : x.toInt = x.toBitVec.toInt := rfl
  have hlt : x.toBitVec.toNat < 18446744073709551616 := x.toBitVec.isLt
  rw [hx, BitVec.toInt_eq_toNat_cond]
  show (x.toBitVec.toNat : Int) = _
  split
  · omega
  · omega

theorem toInt_toInt64 (x : UInt64) :
    x.toInt64.toInt = if x.toNat < 9223372036854775808 then (x.toNat : Int)
      else x.toNat - 18446744073709551616 := by
  show x.toBitVec.toInt = _
  rw [BitVec.toInt_eq_toNat_cond]
  show (if 2 * x.toNat < 18446744073709551616 then (x.toNat : Int) else x.toNat - 18446744073709551616) = _
  split
  · rw [if_pos (by omega)]
  · rw [if_neg (by omega)]

section Target

variable {fp : ReadFile} {offset : Int64} {whence : Int}

/-- The target wraps around into an unsigned offset. -/
theorem seekOffset_toNat :
    ((seekOffset fp offset whence).toNat : Int) = target fp offset whence % 18446744073709551616 := by
  have hoffset := toNat_toUInt64 offset
  unfold seekOffset target
  split
  · rw [UInt64.toNat_add]
    omega
  · split
    · rw [UInt64.toNat_add]
      omega
    · exact hoffset

theorem target_bounds :
    -9223372036854775808 ≤ target fp offset whence ∧ target fp offset whence < 27670116110564327424 := by
  have hlow : -9223372036854775808 ≤ offset.toInt := Int64.le_toInt offset
  have hhigh : offset.toInt < 9223372036854775808 := Int64.toInt_lt offset
  have hfptr : fp.fptr.toNat < 18446744073709551616 := fp.fptr.toNat_lt
  have hsize : fp.obj.objsize.toNat < 18446744073709551616 := fp.obj.objsize.toNat_lt
  unfold target
  split
  · omega
  · split
    · omega
    · omega

end Target

/-! ## Correctness -/

/-- The link map has a cluster for the byte before `ofs`. -/
def Reaches (fs : Fatfs) (fp : ReadFile) (ofs : UInt64) : Prop :=
  0 < ofs → clst2sect fs (clmtClust fs fp (ofs - 1)) ≠ 0

theorem fastSeek_spec (fs : Fatfs) (fp : ReadFile) (ofs : UInt64) :
    ∃ res file, fastSeek fs fp ofs = (res, file) ∧ file.cltbl = fp.cltbl ∧
      file.fptr.toNat = min ofs.toNat fp.obj.objsize.toNat ∧
      (res = frOk ∧ Reaches fs fp file.fptr ∨ res = frIntErr ∧ ¬ Reaches fs fp file.fptr) := by
  unfold fastSeek Reaches
  have hclip : (if fp.obj.objsize < ofs then fp.obj.objsize else ofs).toNat =
      min ofs.toNat fp.obj.objsize.toNat := by
    split
    · rename_i hlt
      rw [UInt64.lt_iff_toNat_lt] at hlt
      omega
    · rename_i hle
      rw [UInt64.lt_iff_toNat_lt] at hle
      omega
  generalize (if fp.obj.objsize < ofs then fp.obj.objsize else ofs) = pos at hclip
  dsimp only
  have hsame : clmtClust fs { fp with fptr := pos } (pos - 1) = clmtClust fs fp (pos - 1) := rfl
  rw [hsame]
  by_cases hpos : 0 < pos
  · rw [if_pos hpos]
    by_cases hsect : clst2sect fs (clmtClust fs fp (pos - 1)) = 0
    · rw [if_pos hsect]
      exact ⟨_, _, rfl, rfl, hclip, .inr ⟨rfl, fun h => h hpos hsect⟩⟩
    · rw [if_neg hsect]
      split
      · exact ⟨_, _, rfl, rfl, hclip, .inl ⟨rfl, fun _ => hsect⟩⟩
      · exact ⟨_, _, rfl, rfl, hclip, .inl ⟨rfl, fun _ => hsect⟩⟩
  · rw [if_neg hpos]
    exact ⟨_, _, rfl, rfl, hclip, .inl ⟨rfl, fun h => absurd h hpos⟩⟩

/-- The volume is mounted and no call has left an error in the file. -/
def Usable (validate : Nat) (fp : ReadFile) : Prop := validate = frOk ∧ fp.err = 0

/-- What a seek owes its caller. -/
structure SeekCorrect (fp : ReadFile) (offset : Int64) (whence : Int) (r : SeekOutcome) : Prop where
  inside : 0 ≤ target fp offset whence → target fp offset whence ≤ fp.obj.objsize.toNat →
    r.ret = target fp offset whence ∧ r.file.fptr.toNat = target fp offset whence
  negative : target fp offset whence < 0 →
    r.ret < 0 ∧ r.file.fptr = fp.fptr ∧ r.file.cltbl = fp.cltbl
  position : r.linkmap = false

section Seek

variable {fs : Fatfs} {window : FatSectors} {validate : Nat} {fp : ReadFile} {offset : Int64} {whence : Int}

theorem validate_eq (h : Usable validate fp) : (if validate = frOk then fp.err.toNat else validate) = frOk := by
  rw [if_pos h.1, h.2]
  rfl

theorem validate_ne (h : ¬ Usable validate fp) : (if validate = frOk then fp.err.toNat else validate) ≠ frOk := by
  intro hres
  split at hres
  · rename_i hvalid
    exact h ⟨hvalid, UInt8.toNat_inj.mp hres⟩
  · rename_i hvalid
    exact hvalid hres

theorem fsLseek64_unusable (h : ¬ Usable validate fp) :
    ∃ res : Nat, 0 < res ∧ ∀ fuel, fsLseek64 fuel fs window validate fp offset whence = some ⟨-res, fp, false⟩ := by
  have hres := validate_ne h
  refine ⟨_, Nat.pos_of_ne_zero hres, fun fuel => ?_⟩
  unfold fsLseek64 fLseek
  dsimp only
  rw [if_pos hres]
  show some (SeekOutcome.mk (if _ then _ else _) _ _) = _
  rw [if_neg hres]

theorem fsLseek64_linkmap (h : Usable validate fp) (hofs : seekOffset fp offset whence = createLinkmapOfs)
    {fuel : Nat} {r : SeekOutcome} (hr : fsLseek64 fuel fs window validate fp offset whence = some r) :
    r.linkmap = true := by
  unfold fsLseek64 fLseek at hr
  dsimp only at hr
  rw [if_neg (not_not_intro (validate_eq h)), if_pos hofs, Option.map_map] at hr
  obtain ⟨_, -, rfl⟩ := Option.map_eq_some_iff.mp hr
  rfl

theorem fsLseek64_fast (h : Usable validate fp) (hofs : seekOffset fp offset whence ≠ createLinkmapOfs) :
    ∃ ret file, (∀ fuel, fsLseek64 fuel fs window validate fp offset whence = some ⟨ret, file, false⟩) ∧
      file.cltbl = fp.cltbl ∧
      file.fptr.toNat = min (seekOffset fp offset whence).toNat fp.obj.objsize.toNat ∧
      (ret = file.fptr.toInt64.toInt ∧ Reaches fs fp file.fptr ∨ ret = -2 ∧ ¬ Reaches fs fp file.fptr) := by
  obtain ⟨res, file, hseek, hcltbl, hfptr, hreach⟩ := fastSeek_spec fs fp (seekOffset fp offset whence)
  refine ⟨if res = frOk then file.fptr.toInt64.toInt else -res, file, fun fuel => ?_, hcltbl, hfptr, ?_⟩
  · unfold fsLseek64 fLseek
    dsimp only
    rw [if_neg (not_not_intro (validate_eq h)), if_neg hofs, hseek]
    rfl
  · rcases hreach with ⟨rfl, hyes⟩ | ⟨rfl, hno⟩
    · exact .inl ⟨if_pos rfl, hyes⟩
    · exact .inr ⟨rfl, hno⟩

end Seek

/-- The targets that a seek gets right. A file that cannot be used answers with an error,
and a negative target comes out as one at the end of a file too large for the answer. -/
structure SeekFine (fs : Fatfs) (validate : Nat) (fp : ReadFile) (target : Int) : Prop where
  unusable : ¬ Usable validate fp → ¬ (0 ≤ target ∧ target ≤ fp.obj.objsize.toNat)
  command : Usable validate fp → target ≠ -1 ∧ target ≠ 18446744073709551615
  inside : Usable validate fp → 0 ≤ target → target ≤ fp.obj.objsize.toNat →
    target < 9223372036854775808 ∧ Reaches fs fp (.ofNat target.toNat)
  negative : Usable validate fp → target < 0 →
    fp.fptr.toNat = min (target + 18446744073709551616) fp.obj.objsize.toNat ∧
      (9223372036854775808 ≤ fp.fptr.toNat ∨ ¬ Reaches fs fp fp.fptr)

section Fine

variable {fs : Fatfs} {window : FatSectors} {validate : Nat} {fp : ReadFile} {offset : Int64} {whence : Int}

/-- Two targets wrap around to the command. -/
theorem seekOffset_command :
    seekOffset fp offset whence = createLinkmapOfs ↔
      target fp offset whence = -1 ∨ target fp offset whence = 18446744073709551615 := by
  have hwrap := @seekOffset_toNat fp offset whence
  have hbounds := @target_bounds fp offset whence
  rw [← UInt64.toNat_inj]
  show (seekOffset fp offset whence).toNat = 18446744073709551615 ↔ _
  omega

theorem seek_unusable_iff (h : ¬ Usable validate fp) :
    (∀ fuel, ∃ r, fsLseek64 fuel fs window validate fp offset whence = some r ∧ SeekCorrect fp offset whence r) ↔
      ¬ (0 ≤ target fp offset whence ∧ target fp offset whence ≤ fp.obj.objsize.toNat) := by
  obtain ⟨res, hpos, hret⟩ := @fsLseek64_unusable fs window validate fp offset whence h
  constructor
  · rintro hall ⟨hlow, hhigh⟩
    obtain ⟨r, hr, hcorrect⟩ := hall 0
    rw [hret] at hr
    cases hr
    have hinside := (hcorrect.inside hlow hhigh).1
    dsimp only at hinside
    omega
  · intro hout fuel
    refine ⟨_, hret fuel, fun hlow hhigh => absurd ⟨hlow, hhigh⟩ hout, fun _ => ⟨?_, rfl, rfl⟩, rfl⟩
    show -(res : Int) < 0
    omega

/-- A position that was asked for and reached. -/
theorem seek_inside_iff {ret : Int} {file : ReadFile}
    (hfptr : file.fptr.toNat = min (seekOffset fp offset whence).toNat fp.obj.objsize.toNat)
    (hreach : ret = file.fptr.toInt64.toInt ∧ Reaches fs fp file.fptr ∨ ret = -2 ∧ ¬ Reaches fs fp file.fptr)
    (hlow : 0 ≤ target fp offset whence) (hhigh : target fp offset whence ≤ fp.obj.objsize.toNat) :
    (ret = target fp offset whence ∧ file.fptr.toNat = target fp offset whence) ↔
      target fp offset whence < 9223372036854775808 ∧ Reaches fs fp (.ofNat (target fp offset whence).toNat) := by
  have hwrap := @seekOffset_toNat fp offset whence
  have hsize : fp.obj.objsize.toNat < 18446744073709551616 := fp.obj.objsize.toNat_lt
  have hpos : file.fptr.toNat = (target fp offset whence).toNat := by omega
  have hsigned := toInt_toInt64 file.fptr
  rw [← hpos, UInt64.ofNat_toNat]
  rcases hreach with ⟨hret, hyes⟩ | ⟨hret, hno⟩
  · simp only [hyes, and_true]
    rw [hret, hsigned]
    split
    · omega
    · omega
  · simp only [hno, and_false, iff_false]
    omega

/-- A negative target ends at a position from 2^63 on, or at the end of the file. -/
theorem seek_negative_iff {ret : Int} {file : ReadFile} (hcltbl : file.cltbl = fp.cltbl)
    (hfptr : file.fptr.toNat = min (seekOffset fp offset whence).toNat fp.obj.objsize.toNat)
    (hreach : ret = file.fptr.toInt64.toInt ∧ Reaches fs fp file.fptr ∨ ret = -2 ∧ ¬ Reaches fs fp file.fptr)
    (hneg : target fp offset whence < 0) :
    (ret < 0 ∧ file.fptr = fp.fptr ∧ file.cltbl = fp.cltbl) ↔
      (fp.fptr.toNat = min (target fp offset whence + 18446744073709551616) fp.obj.objsize.toNat ∧
        (9223372036854775808 ≤ fp.fptr.toNat ∨ ¬ Reaches fs fp fp.fptr)) := by
  have hwrap := @seekOffset_toNat fp offset whence
  have hbounds := (@target_bounds fp offset whence).1
  have hsigned := toInt_toInt64 file.fptr
  have hlt : file.fptr.toNat < 18446744073709551616 := file.fptr.toNat_lt
  have hpos : (file.fptr.toNat : Int) =
      min (target fp offset whence + 18446744073709551616) fp.obj.objsize.toNat := by omega
  rw [← hpos, Int.natCast_inj, UInt64.toNat_inj, @eq_comm _ fp.fptr]
  constructor
  · rintro ⟨hret, heq, -⟩
    refine ⟨heq, ?_⟩
    rw [← heq]
    rcases hreach with ⟨hval, -⟩ | ⟨-, hno⟩
    · rw [hval, hsigned] at hret
      left
      split at hret
      · omega
      · omega
    · exact .inr hno
  · rintro ⟨heq, hwhy⟩
    rw [← heq] at hwhy
    refine ⟨?_, heq, hcltbl⟩
    rcases hreach with ⟨hval, hyes⟩ | ⟨hval, -⟩
    · rw [hval, hsigned]
      rcases hwhy with hlarge | hno
      · rw [if_neg (by omega)]
        omega
      · exact absurd hyes hno
    · rw [hval]
      decide

theorem seek_fast_iff (h : Usable validate fp) (hofs : seekOffset fp offset whence ≠ createLinkmapOfs) :
    (∀ fuel, ∃ r, fsLseek64 fuel fs window validate fp offset whence = some r ∧ SeekCorrect fp offset whence r) ↔
      (0 ≤ target fp offset whence → target fp offset whence ≤ fp.obj.objsize.toNat →
        target fp offset whence < 9223372036854775808 ∧ Reaches fs fp (.ofNat (target fp offset whence).toNat)) ∧
      (target fp offset whence < 0 →
        fp.fptr.toNat = min (target fp offset whence + 18446744073709551616) fp.obj.objsize.toNat ∧
          (9223372036854775808 ≤ fp.fptr.toNat ∨ ¬ Reaches fs fp fp.fptr)) := by
  obtain ⟨ret, file, hret, hcltbl, hfptr, hreach⟩ := @fsLseek64_fast fs window validate fp offset whence h hofs
  constructor
  · intro hall
    obtain ⟨r, hr, hcorrect⟩ := hall 0
    rw [hret] at hr
    cases hr
    refine ⟨fun hlow hhigh => ?_, fun hneg => ?_⟩
    · exact (seek_inside_iff hfptr hreach hlow hhigh).mp (hcorrect.inside hlow hhigh)
    · exact (seek_negative_iff hcltbl hfptr hreach hneg).mp (hcorrect.negative hneg)
  · rintro ⟨hinside, hnegative⟩ fuel
    refine ⟨_, hret fuel, fun hlow hhigh => ?_, fun hneg => ?_, rfl⟩
    · exact (seek_inside_iff hfptr hreach hlow hhigh).mpr (hinside hlow hhigh)
    · exact (seek_negative_iff hcltbl hfptr hreach hneg).mpr (hnegative hneg)

end Fine

theorem seek_correct_iff {fs : Fatfs} {window : FatSectors} {validate : Nat} {fp : ReadFile} {offset : Int64}
    {whence : Int} :
    (∀ fuel, ∃ r, fsLseek64 fuel fs window validate fp offset whence = some r ∧ SeekCorrect fp offset whence r) ↔
      SeekFine fs validate fp (target fp offset whence) := by
  by_cases husable : Usable validate fp
  · by_cases hcommand : seekOffset fp offset whence = createLinkmapOfs
    · constructor
      · intro hall
        obtain ⟨r, hr, hcorrect⟩ := hall 0
        have hmap := hcorrect.position
        rw [fsLseek64_linkmap husable hcommand hr] at hmap
        cases hmap
      · intro hfine
        obtain ⟨hminus, hones⟩ := hfine.command husable
        exact absurd (seekOffset_command.mp hcommand) (not_or.mpr ⟨hminus, hones⟩)
    · rw [seek_fast_iff husable hcommand]
      have hno := mt seekOffset_command.mpr hcommand
      constructor
      · rintro ⟨hinside, hnegative⟩
        exact ⟨absurd husable, fun _ => not_or.mp hno, fun _ => hinside, fun _ => hnegative⟩
      · intro hfine
        exact ⟨hfine.inside husable, hfine.negative husable⟩
  · rw [seek_unusable_iff husable]
    constructor
    · intro hout
      exact ⟨fun _ => hout, fun h => absurd h husable, fun h => absurd h husable, fun h => absurd h husable⟩
    · intro hfine
      exact hfine.unusable husable

/-- A FAT32 volume with clusters of 4096 bytes. -/
def smallFs : Fatfs :=
  ⟨.fat32, 8, 512, 100000, 32, 1024, by decide, sectorSize_le, Nat.le_of_ble_eq_true rfl⟩

/-- Every cluster is the last one of its file. -/
def singleClusters : FatSectors := fun _ => some fun _ => 0xFF

/-- A file of 1000 bytes at position 100. -/
def shortFile : ReadFile := ⟨⟨0, 2, 1000, 0, 0⟩, 0, 100, 2, 0, [4, 1, 2, 0], rfl⟩

theorem negative_seek_succeeds :
    (fsLseek64 1 smallFs singleClusters frOk shortFile (-1) 0).map (fun r => (r.ret, r.linkmap)) =
        some (100, true) ∧
      (fsLseek64 1 smallFs singleClusters frOk shortFile (-2) 0).map (fun r => (r.ret, r.linkmap)) =
        some (1000, false) ∧
      ¬ ∀ fuel, ∃ r, fsLseek64 fuel smallFs singleClusters frOk shortFile (-2) 0 = some r ∧
        SeekCorrect shortFile (-2) 0 r := by
  have hend : (fsLseek64 1 smallFs singleClusters frOk shortFile (-2) 0).map (fun r => (r.ret, r.linkmap)) =
      some (1000, false) := by decide
  refine ⟨by decide, hend, fun hall => ?_⟩
  obtain ⟨r, hr, hcorrect⟩ := hall 1
  rw [hr] at hend
  have hret : r.ret = 1000 := congrArg Prod.fst (Option.some_inj.mp hend)
  have hneg := (hcorrect.negative (by decide)).1
  omega

end BdmAssault.FatFs
