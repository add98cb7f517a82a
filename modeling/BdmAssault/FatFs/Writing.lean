import BdmAssault.FatFs.FileClusters

/-! # Writing files

`f_write` of `bdmfs_ff.c` with `FF_FS_TINY`: whole sectors go from the caller to the device,
and the window is refilled if it is one of them; parts of sectors go through the window. At
the end of the file the sector is not read before.
-/

namespace BdmAssault.FatFs

open Lib

def faModified : UInt8 := 0x40


/-- The number of bytes of a sector that are transferred at once. -/
theorem part_spec (fs : MountedFs) {bytes : UInt32} (h : bytes ≠ 0) (fptr : UInt64) :
    0 < (if bytes < fs.ssize.toUInt32 - fptr.toUInt32 % fs.ssize.toUInt32 then bytes
        else fs.ssize.toUInt32 - fptr.toUInt32 % fs.ssize.toUInt32).toNat ∧
      (if bytes < fs.ssize.toUInt32 - fptr.toUInt32 % fs.ssize.toUInt32 then bytes
        else fs.ssize.toUInt32 - fptr.toUInt32 % fs.ssize.toUInt32).toNat ≤ bytes.toNat ∧
      fptr.toNat % fs.ssize.toNat + (if bytes < fs.ssize.toUInt32 - fptr.toUInt32 % fs.ssize.toUInt32 then bytes
        else fs.ssize.toUInt32 - fptr.toUInt32 % fs.ssize.toUInt32).toNat ≤ fs.ssize.toNat := by
  have hofs := sectorOfs_toNat fs fptr
  have hmod := Nat.mod_lt fptr.toNat fs.ssize_pos
  have hpos : bytes.toNat ≠ 0 := fun heq => h (UInt32.toNat_inj.mp heq)
  have hrest : (fs.ssize.toUInt32 - fptr.toUInt32 % fs.ssize.toUInt32).toNat =
      fs.ssize.toNat - fptr.toNat % fs.ssize.toNat := by
    rw [UInt32.toNat_sub_of_le, hofs, UInt16.toNat_toUInt32]
    rw [UInt32.le_iff_toNat_le, hofs, UInt16.toNat_toUInt32]
    exact Nat.le_of_lt hmod
  split
  · rename_i hlt
    rw [UInt32.lt_iff_toNat_lt, hrest] at hlt
    omega
  · rename_i hlt
    rw [UInt32.lt_iff_toNat_lt, hrest] at hlt
    omega

/-- The position behind a part of a sector. -/
theorem positioned_part {fs : MountedFs} {cl : Nat → UInt32} {fp : FileObject} {fptr n : Nat}
    (hclust : fp.clust = cl (fptr / clusterBytes fs))
    (hsect : fp.sect = dataSector fs (cl (fptr / clusterBytes fs)) (fptr / fs.ssize.toNat % fs.csize.toNat))
    (hpos : 0 < n) (hfit : fptr % fs.ssize.toNat + n ≤ fs.ssize.toNat) (hfptr : fp.fptr.toNat = fptr + n) :
    Positioned fs cl fp := by
  constructor
  · intro _
    rw [hclust]
    refine congrArg cl ?_
    rw [div_clusterBytes, div_clusterBytes, hfptr, Nat.add_sub_assoc hpos, add_div_of_mod_lt (by omega)]
  · intro hne
    rw [hfptr] at hne ⊢
    have hlt : fptr % fs.ssize.toNat + n < fs.ssize.toNat := by
      refine Nat.lt_of_le_of_ne hfit fun heq => hne ?_
      have hsplit := Nat.div_add_mod fptr fs.ssize.toNat
      rw [← hsplit, Nat.add_assoc, heq, ← Nat.mul_succ, Nat.mul_mod_right]
    rw [hsect, div_clusterBytes, div_clusterBytes, add_div_of_mod_lt hlt]

/-- The position behind whole sectors of a cluster. -/
theorem positioned_whole {fs : MountedFs} {cl : Nat → UInt32} {fp : FileObject} {fptr cc : Nat}
    (hclust : fp.clust = cl (fptr / clusterBytes fs)) (hbound : fptr % fs.ssize.toNat = 0) (hcc : 0 < cc)
    (hclip : fptr / fs.ssize.toNat % fs.csize.toNat + cc ≤ fs.csize.toNat)
    (hfptr : fp.fptr.toNat = fptr + fs.ssize.toNat * cc) : Positioned fs cl fp := by
  have hss := fs.ssize_pos
  have hq : fptr / fs.ssize.toNat * fs.ssize.toNat = fptr := Nat.div_mul_cancel (Nat.dvd_of_mod_eq_zero hbound)
  have hbehind : fp.fptr.toNat % fs.ssize.toNat = 0 := by
    rw [hfptr, Nat.add_mul_mod_self_left, hbound]
  refine ⟨fun _ => ?_, fun hne => absurd hbehind hne⟩
  rw [hclust]
  refine congrArg cl ?_
  have hone : fs.ssize.toNat ≤ fs.ssize.toNat * cc := Nat.le_mul_of_pos_right _ hcc
  have hlast : fp.fptr.toNat - 1 = fptr / fs.ssize.toNat * fs.ssize.toNat + (fs.ssize.toNat * cc - 1) := by omega
  have hsector : (fp.fptr.toNat - 1) / fs.ssize.toNat =
      fptr / fs.ssize.toNat + (fs.ssize.toNat * cc - 1) / fs.ssize.toNat := by
    rw [hlast, Nat.mul_comm, Nat.mul_add_div hss]
  have hlt : (fs.ssize.toNat * cc - 1) / fs.ssize.toNat < cc := Nat.div_lt_of_lt_mul (by omega)
  rw [div_clusterBytes, div_clusterBytes, hsector, add_div_of_mod_lt (by omega)]

/-- A sector of a file ends before the file's clusters do. -/
theorem sector_fits {fs : MountedFs} {l : List Nat} {q m : Nat} (h : q + m ≤ l.length * fs.csize.toNat) :
    q * fs.ssize.toNat + fs.ssize.toNat * m ≤ l.length * clusterBytes fs := by
  have hmul := Nat.mul_le_mul_right fs.ssize.toNat h
  unfold clusterBytes
  rw [← Nat.mul_assoc]
  rwa [Nat.add_mul, Nat.mul_comm m] at hmul

theorem cluster_end {fs : MountedFs} {l : List Nat} {q m : Nat} (hq : q < l.length * fs.csize.toNat)
    (hclip : q % fs.csize.toNat + m ≤ fs.csize.toNat) : q + m ≤ l.length * fs.csize.toNat := by
  have hsucc := Nat.mul_le_mul_right fs.csize.toNat (Nat.succ_le_of_lt (div_csize_lt hq))
  have hsplit := Nat.div_add_mod' q fs.csize.toNat
  rw [Nat.succ_mul] at hsucc
  omega

section Model

variable {σ : Type} (bd : DeviceOps σ (Nat → UInt8)) (fs : MountedFs)

/-- `disk_write` of what is in the buffer from `pos` on. -/
def diskWrite (sect : UInt64) (count : UInt32) (data : Nat → UInt8) (pos : Nat) (w : Win σ) : Bool × Win σ :=
  let (res, dev) := bd.write sect (fun i k => data (pos + i * fs.ssize.toNat + k)) count.toUInt16 w.dev
  (res = count.toNat, { w with dev := dev })

/-- `cc` sectors at once; the window follows if it is one of them. -/
def writeSectors (sect : UInt64) (cc : UInt32) (data : Nat → UInt8) (pos : Nat) (w : Win σ) : Bool × Win σ :=
  let (ok, w) := diskWrite bd fs sect cc data pos w
  if ok ∧ w.winsect - sect < cc.toUInt64 then
    (ok, { w with win := fun k => data (pos + (w.winsect - sect).toNat * fs.ssize.toNat + k), wflag := false })
  else (ok, w)

/-- How a round of the loop ends: with the bytes it has written, at a full volume or with an error. -/
inductive Ending where
  | written (count : UInt32)
  | full
  | aborted (res : Nat)

structure Wrote (σ : Type) where
  ending : Ending
  file : FileObject
  alloc : Alloc σ

/-- A part of a sector. -/
def writePart (btw : UInt32) (data : Nat → UInt8) (pos : Nat) (fp : FileObject) (a : Alloc σ) : Wrote σ :=
  let ofs := fp.fptr.toUInt32 % fs.ssize.toUInt32
  let wcnt := fs.ssize.toUInt32 - ofs
  let wcnt := if btw < wcnt then btw else wcnt
  let (res, w) := editWin bd fs fp.sect
    (fun win => copyBytes win ofs.toNat wcnt.toNat fun i => data (pos + i)) a.win
  if res ≠ frOk then ⟨.aborted frDiskErr, fp, { a with win := w }⟩ else ⟨.written wcnt, fp, { a with win := w }⟩

/-- A sector that is not in the file yet is not read. -/
def growWindow (fp : FileObject) (sect : UInt64) (w : Win σ) : Nat × Win σ :=
  if fp.obj.objsize ≤ fp.fptr then
    let (res, w) := syncWindow bd fs w
    (res, if res = frOk then { w with winsect := sect } else w)
  else (frOk, w)

/-- A round at the boundary of a sector, sector `csect` of its cluster. -/
def writeSector (btw : UInt32) (data : Nat → UInt8) (pos : Nat) (csect : UInt32) (fp : FileObject) (a : Alloc σ) : Wrote σ :=
  let (res, w) := if a.win.winsect = fp.sect then syncWindow bd fs a.win else (frOk, a.win)
  if res ≠ frOk then ⟨.aborted frDiskErr, fp, { a with win := w }⟩
  else
    let sect := clst2sect fs.toFatfs fp.clust
    if sect = 0 then ⟨.aborted frIntErr, fp, { a with win := w }⟩
    else
      let sect := sect + csect.toUInt64
      let cc := btw / fs.ssize.toUInt32
      if 0 < cc then
        let cc := if fs.csize.toUInt32 < csect + cc then fs.csize.toUInt32 - csect else cc
        let (ok, w) := writeSectors bd fs sect cc data pos w
        if ok then ⟨.written (fs.ssize.toUInt32 * cc), fp, { a with win := w }⟩
        else ⟨.aborted frDiskErr, fp, { a with win := w }⟩
      else
        let (res, w) := growWindow bd fs fp sect w
        if res ≠ frOk then ⟨.aborted frDiskErr, fp, { a with win := w }⟩
        else writePart bd fs btw data pos { fp with sect := sect } { a with win := w }

/-- The cluster of the position; at the end of the chain it is a new one. -/
def stretchClust (fp : FileObject) (a : Alloc σ) : Option (UInt32 × ObjId × Alloc σ) :=
  if fp.fptr = 0 then
    if fp.obj.sclust = 0 then createChain bd fs fp.obj 0 a else some (fp.obj.sclust, fp.obj, a)
  else
    match fp.cltbl with
    | some cltbl =>
        some (clmtWalk cltbl.tail (fp.fptr / fs.ssize.toUInt64 / fs.csize.toUInt64).toUInt32, fp.obj, a)
    | none => createChain bd fs fp.obj fp.clust a

def writeRound (btw : UInt32) (data : Nat → UInt8) (pos : Nat) (fp : FileObject) (a : Alloc σ) : Option (Wrote σ) :=
  if fp.fptr % fs.ssize.toUInt64 = 0 then
    let csect := (fp.fptr / fs.ssize.toUInt64).toUInt32 &&& (fs.csize.toUInt32 - 1)
    if csect = 0 then
      match stretchClust bd fs fp a with
      | none => none
      | some (clst, obj, a) =>
          let fp := { fp with obj := obj }
          if clst = 0 then some ⟨.full, fp, a⟩
          else if clst = 1 then some ⟨.aborted frIntErr, fp, a⟩
          else if clst = 0xFFFFFFFF then some ⟨.aborted frDiskErr, fp, a⟩
          else
            let sclust := if fp.obj.sclust = 0 then clst else fp.obj.sclust
            let fp := { fp with clust := clst, obj := { fp.obj with sclust := sclust } }
            some (writeSector bd fs btw data pos csect fp a)
    else some (writeSector bd fs btw data pos csect fp a)
  else some (writePart bd fs btw data pos fp a)

/-- What `f_write` has done: its result, `*bw`, the file and the volume. -/
structure Written (σ : Type) where
  res : Nat
  done : UInt32
  file : FileObject
  alloc : Alloc σ

/-- The position behind `count` bytes, which the file has now. -/
def FileObject.advance (fp : FileObject) (count : UInt32) : FileObject :=
  let fptr := fp.fptr + count.toUInt64
  { fp with fptr := fptr, obj := { fp.obj with objsize := if fp.obj.objsize < fptr then fptr else fp.obj.objsize } }

def FileObject.modified (fp : FileObject) : FileObject := { fp with flag := fp.flag ||| faModified }

/-- The loop of `f_write`; `none` if it has not come to an end. -/
def writeLoop (data : Nat → UInt8) : Nat → UInt32 → UInt32 → FileObject → Alloc σ → Option (Written σ)
  | 0, btw, bw, fp, a => if btw = 0 then some ⟨frOk, bw, fp.modified, a⟩ else none
  | fuel + 1, btw, bw, fp, a =>
      if btw = 0 then some ⟨frOk, bw, fp.modified, a⟩
      else
        match writeRound bd fs btw data bw.toNat fp a with
        | none => none
        | some r =>
            match r.ending with
            | .written count => writeLoop data fuel (btw - count) (bw + count) (r.file.advance count) r.alloc
            | .full => some ⟨frOk, bw, r.file.modified, r.alloc⟩
            | .aborted res => some ⟨res, bw, r.file.abort res, r.alloc⟩

/-- A file of a FAT volume ends before 4 GiB. -/
def clipWrite (fp : FileObject) (btw : UInt32) : UInt32 :=
  if fs.fsType ≠ .exfat ∧ (fp.fptr + btw.toUInt64).toUInt32 < fp.fptr.toUInt32 then 0xFFFFFFFF - fp.fptr.toUInt32
  else btw

/-- `validate` is the answer of the function of this name. -/
def fWrite (validate : Nat) (fp : FileObject) (data : Nat → UInt8) (btw : UInt32) (a : Alloc σ) : Option (Written σ) :=
  let res := if validate = frOk then fp.err.toNat else validate
  if res ≠ frOk then some ⟨res, 0, fp, a⟩
  else if fp.flag &&& faWrite = 0 then some ⟨frDenied, 0, fp, a⟩
  else
    let btw := clipWrite fs fp btw
    writeLoop bd fs data btw.toNat btw 0 fp a

end Model

section Sectors

variable {σ : Type} {bd : DeviceOps σ (Nat → UInt8)} {contents : σ → UInt64 → Nat → UInt8} {fs : MountedFs}
  {w : Win σ}

/-! ## Sectors -/

theorem diskWrite_spec (hbd : HasSectors bd contents) (sect : UInt64) {cc : UInt32} (hcc : cc.toNat < 65536)
    (data : Nat → UInt8) (pos : Nat) (w : Win σ) :
    ((diskWrite bd fs sect cc data pos w).1 = true → ∀ j < cc.toNat,
        contents (diskWrite bd fs sect cc data pos w).2.dev (sect + .ofNat j) =
          fun k => data (pos + j * fs.ssize.toNat + k)) ∧
      ∀ a, (∀ j < cc.toNat, a ≠ sect + .ofNat j) →
        contents (diskWrite bd fs sect cc data pos w).2.dev a = contents w.dev a := by
  have hcount : cc.toUInt16.toNat = cc.toNat := by
    rw [UInt32.toNat_toUInt16]
    exact Nat.mod_eq_of_lt hcc
  refine ⟨fun hok j hj => ?_, fun a ha => ?_⟩
  · exact hbd.write_data sect (fun i k => data (pos + i * fs.ssize.toNat + k)) cc.toUInt16 w.dev
      (by rw [hcount]; exact of_decide_eq_true hok) j (by rwa [hcount])
  · exact hbd.write_keeps sect (fun i k => data (pos + i * fs.ssize.toNat + k)) cc.toUInt16 w.dev a
      fun j hj => ha j (by rwa [← hcount])

/-- The sectors have the new bytes, wherever the window is, and the others are as before. -/
theorem writeSectors_spec (hbd : HasSectors bd contents) (h : Coherent contents fs w) (sect : UInt64) {cc : UInt32}
    (hcc : cc.toNat < 65536) (data : Nat → UInt8) (pos : Nat)
    (hok : (writeSectors bd fs sect cc data pos w).1 = true) :
    Coherent contents fs (writeSectors bd fs sect cc data pos w).2 ∧
      (∀ j < cc.toNat, view contents (writeSectors bd fs sect cc data pos w).2 (sect + .ofNat j) =
        fun k => data (pos + j * fs.ssize.toNat + k)) ∧
      ∀ a, (∀ j < cc.toNat, a ≠ sect + .ofNat j) →
        view contents (writeSectors bd fs sect cc data pos w).2 a = view contents w a := by
  obtain ⟨hdata, hkeeps⟩ := @diskWrite_spec _ _ _ fs hbd sect _ hcc data pos w
  have hwin : (diskWrite bd fs sect cc data pos w).2.win = w.win ∧
      (diskWrite bd fs sect cc data pos w).2.winsect = w.winsect ∧
      (diskWrite bd fs sect cc data pos w).2.wflag = w.wflag := ⟨rfl, rfl, rfl⟩
  unfold writeSectors at hok ⊢
  generalize diskWrite bd fs sect cc data pos w = r at hdata hkeeps hwin hok
  obtain ⟨ok, w'⟩ := r
  dsimp only at hdata hkeeps hwin hok ⊢
  obtain ⟨hwin, hwinsect, hwflag⟩ := hwin
  rw [hwinsect] at hok ⊢
  -- the place of the window among the sectors
  have hself : sect + .ofNat (w.winsect - sect).toNat = w.winsect := by
    rw [UInt64.ofNat_toNat, UInt64.add_comm, UInt64.sub_add_cancel]
  have hinside : ∀ {j}, j < cc.toNat → sect + .ofNat j = w.winsect → w.winsect - sect < cc.toUInt64 := by
    intro j hj heq
    rw [UInt64.lt_iff_toNat_lt, UInt32.toNat_toUInt64, ← heq, UInt64.add_comm, UInt64.add_sub_cancel,
      UInt64.toNat_ofNat', Nat.mod_eq_of_lt (by show j < 18446744073709551616; omega)]
    exact hj
  by_cases hrefill : ok = true ∧ w.winsect - sect < cc.toUInt64
  · rw [if_pos hrefill]
    obtain ⟨htrue, hlt⟩ := hrefill
    rw [UInt64.lt_iff_toNat_lt, UInt32.toNat_toUInt64] at hlt
    have hview : ∀ a win winsect, view contents ⟨win, winsect, false, w'.dev⟩ a = contents w'.dev a :=
      fun a win winsect => if_neg fun h => Bool.false_ne_true h.1
    refine ⟨⟨h.outside, fun _ _ => ?_⟩, fun j hj => ?_, fun a ha => ?_⟩
    · dsimp only
      rw [← hdata htrue _ hlt, hself]
    · dsimp only
      rw [hview, hdata htrue j hj]
    · dsimp only
      rw [hview, hkeeps a ha]
      unfold view
      rw [if_neg]
      rintro ⟨-, rfl⟩
      exact ha _ hlt hself.symm
  · rw [if_neg hrefill] at hok ⊢
    dsimp only at hok ⊢
    have hout : ∀ j < cc.toNat, w.winsect ≠ sect + .ofNat j :=
      fun j hj heq => hrefill ⟨hok, hinside hj heq.symm⟩
    refine ⟨⟨by rw [hwinsect]; exact h.outside, fun hclean hvalid => ?_⟩, fun j hj => ?_, fun a ha => ?_⟩
    · rw [hwinsect] at hvalid ⊢
      rw [hwflag] at hclean
      rw [hwin, hkeeps _ hout]
      exact h.copy hclean hvalid
    · unfold view
      rw [hwinsect, if_neg fun h => hout j hj h.2.symm, hdata hok j hj]
    · unfold view
      rw [hwflag, hwinsect, hwin, hkeeps a ha]

/-! ## Sectors of a file -/

section Storing

variable {l : List Nat} {size : Nat}

theorem sectorAt_add (fs : MountedFs) (l : List Nat) {q j : Nat} (h : q % fs.csize.toNat + j < fs.csize.toNat) :
    sectorAt fs l q + .ofNat j = sectorAt fs l (q + j) := by
  unfold sectorAt
  rw [dataSector_add, add_div_of_mod_lt h, add_mod_of_mod_lt h]

/-- Whole sectors of a file, as many as are written at once. -/
theorem writeSectors_stored (hbd : HasSectors bd contents) (hlaid : Laid fs) (hclusters : Clusters fs l)
    (h : Coherent contents fs w) {q : Nat} (hq : q < l.length * fs.csize.toNat) {cc : UInt32}
    (hclip : q % fs.csize.toNat + cc.toNat ≤ fs.csize.toNat) (data : Nat → UInt8) (pos : Nat)
    (hsize : size ≤ l.length * clusterBytes fs)
    (hok : (writeSectors bd fs (sectorAt fs l q) cc data pos w).1 = true) :
    Coherent contents fs (writeSectors bd fs (sectorAt fs l q) cc data pos w).2 ∧
      Stored contents fs l w (writeSectors bd fs (sectorAt fs l q) cc data pos w).2 (q * fs.ssize.toNat)
        (fs.ssize.toNat * cc.toNat) (fun i => data (pos + i)) size := by
  have hcsize : fs.csize.toNat < 65536 := fs.csize.toNat_lt
  have hfew : cc.toNat < 65536 := by omega
  obtain ⟨hcoherent, hdata, hkeeps⟩ := writeSectors_spec hbd h (sectorAt fs l q) hfew data pos hok
  -- the sectors are all in one cluster
  have hend := cluster_end hq hclip
  have hplace : ∀ {j}, j < cc.toNat → sectorAt fs l q + .ofNat j = sectorAt fs l (q + j) :=
    fun hj => sectorAt_add fs l (by omega)
  have hbytes : q * fs.ssize.toNat + fs.ssize.toNat * cc.toNat = (q + cc.toNat) * fs.ssize.toNat := by
    rw [Nat.add_mul, Nat.mul_comm cc.toNat]
  refine ⟨hcoherent, stored_of_sectors hlaid hclusters hsize hend (Nat.le_refl _) (Nat.le_of_eq hbytes)
    (fun a _ hnone => hkeeps a fun j hj heq => ?_) (fun q' hlow hhigh k hk _ _ => ?_)
    fun q' hlow hhigh k hk _ hout => ?_⟩
  · exact hnone (q + j) (by omega) (by omega) (heq.trans (hplace hj))
  · obtain ⟨j, rfl⟩ := Nat.exists_eq_add_of_le hlow
    rw [← hplace (show j < cc.toNat by omega), hdata j (by omega)]
    refine congrArg data ?_
    rw [Nat.add_mul]
    omega
  · exfalso
    have hfirst := Nat.mul_le_mul_right fs.ssize.toNat hlow
    have hlast := Nat.mul_le_mul_right fs.ssize.toNat (Nat.succ_le_of_lt hhigh)
    rw [Nat.succ_mul] at hlast
    omega

/-- A part of a sector of a file. What the window had before is of no consequence behind the end. -/
theorem part_stored (hlaid : Laid fs) (hclusters : Clusters fs l) {w' : Win σ} {fptr n : Nat}
    (hq : fptr / fs.ssize.toNat < l.length * fs.csize.toNat) (hn : fptr % fs.ssize.toNat + n ≤ fs.ssize.toNat)
    (hsize : size ≤ l.length * clusterBytes fs) {base src : Nat → UInt8}
    (hothers : ∀ a, ¬ fs.inMirror a → a ≠ sectorAt fs l (fptr / fs.ssize.toNat) →
      view contents w' a = view contents w a)
    (hview : view contents w' (sectorAt fs l (fptr / fs.ssize.toNat)) = copyBytes base (fptr % fs.ssize.toNat) n src)
    (hbase : base = view contents w (sectorAt fs l (fptr / fs.ssize.toNat)) ∨
      size ≤ fptr ∧ fptr % fs.ssize.toNat = 0) : Stored contents fs l w w' fptr n src size := by
  have hsplit := Nat.div_add_mod' fptr fs.ssize.toNat
  refine stored_of_sectors (m := 1) hlaid hclusters hsize (Nat.succ_le_of_lt hq) (Nat.div_mul_le_self _ _) ?_
    (fun a ha hnone => hothers a ha (hnone _ (Nat.le_refl _) (Nat.lt_succ_self _))) (fun q hlow hhigh k hk hin hin' => ?_)
    fun q hlow hhigh k hk hlt hout => ?_
  · rw [Nat.add_mul]
    omega
  · obtain rfl : q = fptr / fs.ssize.toNat := by omega
    rw [hview, copyBytes_in (by omega) (by omega)]
    exact congrArg src (by omega)
  · obtain rfl : q = fptr / fs.ssize.toNat := by omega
    rw [hview, copyBytes_out (by omega)]
    rcases hbase with rfl | ⟨hle, hzero⟩
    · rfl
    · omega

/-- A round that writes. -/
structure RoundWritten (contents : σ → UInt64 → Nat → UInt8) (fs : MountedFs) (l : List Nat) (a : Alloc σ)
    (fp : FileObject) (btw count : UInt32) (src : Nat → UInt8) (size : Nat) (r : Wrote σ) : Prop where
  some : 0 < count.toNat ∧ count.toNat ≤ btw.toNat
  fits : fp.fptr.toNat + count.toNat ≤ l.length * clusterBytes fs
  file : r.file = { fp with sect := r.file.sect }
  counted : r.alloc = { a with win := r.alloc.win }
  position : ∀ fptr : UInt64, fptr.toNat = fp.fptr.toNat + count.toNat →
    Positioned fs (clusterAt l) { r.file with fptr := fptr }
  coherent : Coherent contents fs r.alloc.win
  stored : Stored contents fs l a.win r.alloc.win fp.fptr.toNat count.toNat src size

theorem writePart_edited (fp : FileObject) {a : Alloc σ} {btw : UInt32} (hbtw : btw ≠ 0) (data : Nat → UInt8) (pos : Nat)
    {count : UInt32} (hend : (writePart bd fs btw data pos fp a).ending = .written count) :
    (0 < count.toNat ∧ count.toNat ≤ btw.toNat ∧ fp.fptr.toNat % fs.ssize.toNat + count.toNat ≤ fs.ssize.toNat) ∧
      (editWin bd fs fp.sect (fun win => copyBytes win (fp.fptr.toNat % fs.ssize.toNat) count.toNat fun i =>
        data (pos + i)) a.win).1 = frOk ∧
      writePart bd fs btw data pos fp a = ⟨.written count, fp, { a with win := (editWin bd fs fp.sect
        (fun win => copyBytes win (fp.fptr.toNat % fs.ssize.toNat) count.toNat fun i => data (pos + i)) a.win).2 }⟩ := by
  have hpart := part_spec fs hbtw fp.fptr
  unfold writePart at hend ⊢
  dsimp only at hend ⊢
  generalize (if btw < fs.ssize.toUInt32 - fp.fptr.toUInt32 % fs.ssize.toUInt32 then btw
    else fs.ssize.toUInt32 - fp.fptr.toUInt32 % fs.ssize.toUInt32) = wcnt at hpart hend ⊢
  rw [sectorOfs_toNat] at hend ⊢
  split at hend
  · cases hend
  · rename_i hok
    cases hend
    rw [if_neg hok]
    exact ⟨hpart, not_not.mp hok, rfl⟩

theorem Stored.of_same (hlaid : Laid fs) (hclusters : Clusters fs l) {w₁ w' : Win σ} {ofs count : Nat}
    {src : Nat → UInt8} (hsame : SameView contents fs w w₁) (hsize : size ≤ l.length * clusterBytes fs)
    (h : Stored contents fs l w₁ w' ofs count src size) : Stored contents fs l w w' ofs count src size := by
  refine ⟨h.inside, fun k hk hout => (h.beyond k hk hout).trans (hsame.fileByte hlaid (hclusters.inRange ?_)),
    fun a ha hnone => (h.outside a ha hnone).trans (hsame a ha)⟩
  exact Nat.div_lt_of_lt_mul (by rw [Nat.mul_comm]; omega)

/-- The window is put at a sector that nobody reads before it is written. -/
theorem grown_edit (hbd : HasSectors bd contents) (h : Coherent contents fs w) {sect : UInt64}
    (hout : ¬ fs.inMirror sect) (hok : (syncWindow bd fs w).1 = frOk) (f : (Nat → UInt8) → Nat → UInt8) :
    Coherent contents fs (editWin bd fs sect f { (syncWindow bd fs w).2 with winsect := sect }).2 ∧
      view contents (editWin bd fs sect f { (syncWindow bd fs w).2 with winsect := sect }).2 sect =
        f (syncWindow bd fs w).2.win ∧
      ∀ a, ¬ fs.inMirror a → a ≠ sect →
        view contents (editWin bd fs sect f { (syncWindow bd fs w).2 with winsect := sect }).2 a = view contents w a := by
  have hsync := syncWindow_spec hbd h
  generalize syncWindow bd fs w = r at hsync hok
  obtain ⟨res, w'⟩ := r
  have hedit : editWin bd fs sect f { w' with winsect := sect } =
      (frOk, { w' with winsect := sect, win := f w'.win, wflag := true }) := by
    unfold editWin moveWindow
    rw [if_neg (not_not.mpr rfl)]
    rfl
  have hclean : w'.wflag = false := by
    rcases hsync.res with ⟨-, hflag⟩ | herr
    · exact hflag
    · exact absurd (herr.symm.trans hok) (by decide)
  dsimp only
  rw [hedit]
  refine ⟨⟨hout, fun hflag => absurd hflag.symm Bool.false_ne_true⟩, if_pos ⟨rfl, rfl⟩, fun a ha hne => ?_⟩
  rw [← hsync.same a ha]
  unfold view
  dsimp only
  rw [if_neg fun h => hne h.2, hclean, if_neg fun h => Bool.false_ne_true h.1]

theorem part_fits {fp : FileObject} {n : Nat} (hq : fp.fptr.toNat / fs.ssize.toNat < l.length * fs.csize.toNat)
    (hclust : fp.clust = clusterAt l (fp.fptr.toNat / clusterBytes fs))
    (hsect : fp.sect = sectorAt fs l (fp.fptr.toNat / fs.ssize.toNat)) (hpos : 0 < n)
    (hn : fp.fptr.toNat % fs.ssize.toNat + n ≤ fs.ssize.toNat) : fp.fptr.toNat + n ≤ l.length * clusterBytes fs ∧
      ∀ fptr : UInt64, fptr.toNat = fp.fptr.toNat + n → Positioned fs (clusterAt l) { fp with fptr := fptr } := by
  refine ⟨?_, fun fptr hfptr => positioned_part hclust ?_ hpos hn hfptr⟩
  · have hfits := sector_fits (m := 1) (Nat.succ_le_of_lt hq)
    have hsplit := Nat.div_add_mod' fp.fptr.toNat fs.ssize.toNat
    omega
  · rw [div_clusterBytes]
    exact hsect

theorem writePart_written (hbd : HasSectors bd contents) (hlaid : Laid fs) (hclusters : Clusters fs l)
    (fp : FileObject) {a : Alloc σ} (h : Coherent contents fs a.win)
    (hq : fp.fptr.toNat / fs.ssize.toNat < l.length * fs.csize.toNat)
    (hclust : fp.clust = clusterAt l (fp.fptr.toNat / clusterBytes fs))
    (hsect : fp.sect = sectorAt fs l (fp.fptr.toNat / fs.ssize.toNat)) (hsize : size ≤ l.length * clusterBytes fs)
    {btw count : UInt32} (hbtw : btw ≠ 0) (data : Nat → UInt8) (pos : Nat)
    (hend : (writePart bd fs btw data pos fp a).ending = .written count) :
    RoundWritten contents fs l a fp btw count (fun i => data (pos + i)) size
      (writePart bd fs btw data pos fp a) := by
  obtain ⟨⟨hsome, hle, hn⟩, hok, hwin⟩ := writePart_edited fp hbtw data pos hend
  obtain ⟨hvalid, hout⟩ := hclusters.sector_outside hlaid hq
  obtain ⟨hfits, hposition⟩ := @part_fits fs l fp _ hq hclust hsect hsome hn
  rw [hsect] at hok hwin
  have hedit := editWin_spec hbd hlaid.placed h hvalid hout fun win =>
    copyBytes win (fp.fptr.toNat % fs.ssize.toNat) count.toNat fun i => data (pos + i)
  rw [hwin]
  refine ⟨⟨hsome, hle⟩, hfits, rfl, rfl, hposition, hedit.coherent, ?_⟩
  · rcases hedit.res with ⟨-, hview⟩ | ⟨herr, -⟩
    · exact part_stored hlaid hclusters hq hn hsize hedit.others hview (.inl rfl)
    · exact absurd (herr.symm.trans hok) (by decide)

/-- The sector of a position at the boundary of a sector. -/
theorem sector_of_position (hclusters : Clusters fs l) (fp : FileObject)
    (hq : fp.fptr.toNat / fs.ssize.toNat < l.length * fs.csize.toNat)
    (hclust : fp.clust = clusterAt l (fp.fptr.toNat / clusterBytes fs)) :
    (csect fs fp.fptr).toNat < fs.csize.toNat ∧ fs.InRange fp.clust ∧
      clst2sect fs.toFatfs fp.clust + (csect fs fp.fptr).toUInt64 =
        sectorAt fs l (fp.fptr.toNat / fs.ssize.toNat) := by
  have hcsect := csect_toNat fs fp.fptr
  refine ⟨?_, ?_, ?_⟩
  · rw [hcsect]
    exact Nat.mod_lt _ fs.csize_pos
  · rw [hclust, div_clusterBytes]
    exact hclusters.inRange (div_csize_lt hq)
  · unfold sectorAt dataSector
    rw [hclust, div_clusterBytes, ← hcsect, ← UInt32.toNat_toUInt64, UInt64.ofNat_toNat]

theorem syncWindow_if (hbd : HasSectors bd contents) (h : Coherent contents fs w) (c : Prop) [Decidable c] :
    SameView contents fs w (if c then syncWindow bd fs w else (frOk, w)).2 ∧
      Coherent contents fs (if c then syncWindow bd fs w else (frOk, w)).2 ∧
      (Working bd → (if c then syncWindow bd fs w else (frOk, w)).1 = frOk) := by
  split
  · exact ⟨(syncWindow_spec hbd h).same, (syncWindow_spec hbd h).coherent, fun hworks => syncWindow_works hworks w⟩
  · exact ⟨SameView.refl _, h, fun _ => rfl⟩

/-- A round at the boundary of a sector: whole sectors, a part of a sector, or the first part of a new one. -/
theorem writeSector_written (hbd : HasSectors bd contents) (hlaid : Laid fs) (hclusters : Clusters fs l)
    (fp : FileObject) {a : Alloc σ} (h : Coherent contents fs a.win) (hbound : fp.fptr.toNat % fs.ssize.toNat = 0)
    (hq : fp.fptr.toNat / fs.ssize.toNat < l.length * fs.csize.toNat)
    (hclust : fp.clust = clusterAt l (fp.fptr.toNat / clusterBytes fs))
    (hsize : fp.obj.objsize.toNat ≤ l.length * clusterBytes fs) {btw count : UInt32} (hbtw : btw ≠ 0)
    (data : Nat → UInt8) (pos : Nat)
    (hend : (writeSector bd fs btw data pos (csect fs fp.fptr) fp a).ending = .written count) :
    RoundWritten contents fs l a fp btw count (fun i => data (pos + i)) fp.obj.objsize.toNat
      (writeSector bd fs btw data pos (csect fs fp.fptr) fp a) := by
  obtain ⟨hvalid, hout⟩ := hclusters.sector_outside hlaid hq
  have hcsect := csect_toNat fs fp.fptr
  obtain ⟨hin, hrange, hsect⟩ := sector_of_position hclusters fp hq hclust
  -- the window that waits for this file is written before
  have hsync := syncWindow_if hbd h (a.win.winsect = fp.sect)
  unfold writeSector at hend ⊢
  generalize (if a.win.winsect = fp.sect then syncWindow bd fs a.win else (frOk, a.win)) = r at hsync hend ⊢
  obtain ⟨res, w'⟩ := r
  obtain ⟨hsame, hcoherent, -⟩ := hsync
  dsimp only at hsame hcoherent hend ⊢
  by_cases hres : res ≠ frOk
  · rw [if_pos hres] at hend
    cases hend
  rw [if_neg hres, if_neg (clst2sect_ne_zero hlaid hrange), hsect] at hend ⊢
  by_cases hwhole : 0 < btw / fs.ssize.toUInt32
  · rw [if_pos hwhole] at hend ⊢
    obtain ⟨hsome, hle, hclip⟩ := clip_spec fs hin hwhole
    generalize (if fs.csize.toUInt32 < csect fs fp.fptr + btw / fs.ssize.toUInt32 then
      fs.csize.toUInt32 - csect fs fp.fptr else btw / fs.ssize.toUInt32) = cc at hsome hle hclip hend ⊢
    rw [hcsect] at hclip
    have hstored := @writeSectors_stored _ bd contents fs w' _ _ hbd hlaid hclusters hcoherent _ hq cc hclip data pos hsize
    generalize writeSectors bd fs _ cc data pos w' = r at hstored hend ⊢
    obtain ⟨ok, w''⟩ := r
    cases ok with
    | false => cases hend
    | true =>
        cases hend
        obtain ⟨hcoherent', hstored⟩ := hstored rfl
        have hbtw' : btw.toNat < 4294967296 := btw.toNat_lt
        have hcount : (fs.ssize.toUInt32 * cc).toNat = fs.ssize.toNat * cc.toNat := by
          rw [UInt32.toNat_mul, UInt16.toNat_toUInt32]
          exact Nat.mod_eq_of_lt (by show _ < 4294967296; omega)
        have hfptr : fp.fptr.toNat / fs.ssize.toNat * fs.ssize.toNat = fp.fptr.toNat :=
          Nat.div_mul_cancel (Nat.dvd_of_mod_eq_zero hbound)
        rw [hfptr, ← hcount] at hstored
        have hfits := sector_fits (cluster_end hq hclip)
        rw [hfptr] at hfits
        refine ⟨?_, by rwa [hcount], rfl, rfl, fun fptr hnew => ?_, hcoherent',
          hstored.of_same hlaid hclusters hsame hsize⟩
        · rw [hcount]
          exact ⟨Nat.mul_pos fs.ssize_pos hsome, hle⟩
        · exact @positioned_whole fs _ { fp with fptr := fptr } _ _ hclust hbound hsome hclip (hcount ▸ hnew)
  · rw [if_neg hwhole] at hend ⊢
    unfold growWindow at hend ⊢
    by_cases hgrow : fp.obj.objsize ≤ fp.fptr
    · rw [if_pos hgrow] at hend ⊢
      dsimp only at hend ⊢
      by_cases hok : (syncWindow bd fs w').1 ≠ frOk
      · rw [if_pos hok] at hend
        cases hend
      · rw [if_neg hok, if_pos (not_not.mp hok)] at hend ⊢
        obtain ⟨⟨hsome, hle, hn⟩, -, hwin⟩ := writePart_edited _ hbtw data pos hend
        obtain ⟨hcoherent', hview, hothers⟩ := @grown_edit _ bd contents fs w' hbd hcoherent _ hout (not_not.mp hok)
          fun win => copyBytes win (fp.fptr.toNat % fs.ssize.toNat) count.toNat fun i => data (pos + i)
        obtain ⟨hfits, hposition⟩ := @part_fits fs l
          { fp with sect := sectorAt fs l (fp.fptr.toNat / fs.ssize.toNat) } _ hq hclust rfl hsome hn
        rw [hwin]
        refine ⟨⟨hsome, hle⟩, hfits, rfl, rfl, hposition, hcoherent', Stored.of_same hlaid hclusters hsame hsize ?_⟩
        exact part_stored hlaid hclusters hq hn hsize hothers hview (.inr ⟨UInt64.le_iff_toNat_le.mp hgrow, hbound⟩)
    · rw [if_neg hgrow] at hend ⊢
      dsimp only at hend ⊢
      rw [if_neg (not_not.mpr rfl)] at hend ⊢
      have hwritten := writePart_written hbd hlaid hclusters { fp with sect := sectorAt fs l (fp.fptr.toNat / fs.ssize.toNat) }
        (a := { a with win := w' }) hcoherent hq hclust rfl hsize hbtw data pos hend
      exact ⟨hwritten.some, hwritten.fits, hwritten.file, hwritten.counted, hwritten.position, hwritten.coherent,
        hwritten.stored.of_same hlaid hclusters hsame hsize⟩

end Storing

end Sectors

end BdmAssault.FatFs
