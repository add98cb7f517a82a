import BdmAssault.FatFs.FileData
import BdmAssault.FatFs.TableRuns

/-! # Reading files

`f_read` of `bdmfs_ff.c` with `FF_FS_TINY`: whole sectors go from the device to the caller,
as many of a cluster as are asked for, and what the window has in wait for one of them goes
on top. Parts of sectors go through the window.
-/

namespace BdmAssault.FatFs

section Model

variable {σ : Type} (bd : DeviceOps σ (Nat → UInt8)) (fs : MountedFs)

/-- `disk_read`, and the sectors it has stored. -/
def diskRead (sect : UInt64) (count : UInt32) (w : Win σ) : Bool × (Nat → Nat → UInt8) × Win σ :=
  let (reply, dev) := bd.read sect count.toUInt16 w.dev
  (reply.result = count.toNat, reply.data, { w with dev := dev })

/-- The cluster of the position, from its link map or the table. -/
def followClust (fp : FileObject) (w : Win σ) : UInt32 × Win σ :=
  if fp.fptr = 0 then (fp.obj.sclust, w)
  else
    match fp.cltbl with
    | some cltbl => (clmtWalk cltbl.tail (fp.fptr / fs.ssize.toUInt64 / fs.csize.toUInt64).toUInt32, w)
    | none => getFatWin bd fs fp.obj fp.clust w

/-- A position at the boundary of a cluster. -/
def readClust (fp : FileObject) (w : Win σ) : Nat × FileObject × Win σ :=
  if csect fs fp.fptr = 0 then
    let (clst, w) := followClust bd fs fp w
    if clst < 2 then (frIntErr, fp, w)
    else if clst = 0xFFFFFFFF then (frDiskErr, fp, w)
    else (frOk, { fp with clust := clst }, w)
  else (frOk, fp, w)

/-- `cc` sectors at once, and the one in the window if it is newer. -/
def readSectors (sect : UInt64) (cc : UInt32) (pos : Nat) (w : Win σ) (buff : Nat → UInt8) :
    Bool × Win σ × (Nat → UInt8) :=
  let (ok, data, w) := diskRead bd sect cc w
  let ss := fs.ssize.toNat
  let buff := copyBytes buff pos (ss * cc.toNat) fun i => data (i / ss) (i % ss)
  if w.wflag ∧ w.winsect - sect < cc.toUInt64 then
    (ok, w, if ok then copyBytes buff (pos + (w.winsect - sect).toNat * ss) ss w.win else buff)
  else (ok, w, buff)

/-- What one round of a transfer leaves. -/
structure Round (σ : Type) where
  res : Nat
  count : UInt32
  file : FileObject
  win : Win σ
  buff : Nat → UInt8

/-- A part of a sector. -/
def readPart (btr : UInt32) (pos : Nat) (fp : FileObject) (w : Win σ) (buff : Nat → UInt8) : Round σ :=
  let ofs := fp.fptr.toUInt32 % fs.ssize.toUInt32
  let rcnt := fs.ssize.toUInt32 - ofs
  let rcnt := if btr < rcnt then btr else rcnt
  let (res, w) := moveWindow bd fs fp.sect w
  if res ≠ frOk then ⟨frDiskErr, 0, fp, w, buff⟩
  else ⟨frOk, rcnt, fp, w, copyBytes buff pos rcnt.toNat fun i => w.win (ofs.toNat + i)⟩

def readRound (btr : UInt32) (pos : Nat) (fp : FileObject) (w : Win σ) (buff : Nat → UInt8) : Round σ :=
  if fp.fptr % fs.ssize.toUInt64 = 0 then
    let csect := csect fs fp.fptr
    let (res, fp, w) := readClust bd fs fp w
    if res ≠ frOk then ⟨res, 0, fp, w, buff⟩
    else
      let sect := clst2sect fs.toFatfs fp.clust
      if sect = 0 then ⟨frIntErr, 0, fp, w, buff⟩
      else
        let sect := sect + csect.toUInt64
        let cc := btr / fs.ssize.toUInt32
        if 0 < cc then
          let cc := if fs.csize.toUInt32 < csect + cc then fs.csize.toUInt32 - csect else cc
          let (ok, w, buff) := readSectors bd fs sect cc pos w buff
          if ok then ⟨frOk, fs.ssize.toUInt32 * cc, fp, w, buff⟩ else ⟨frDiskErr, 0, fp, w, buff⟩
        else readPart bd fs btr pos { fp with sect := sect } w buff
  else readPart bd fs btr pos fp w buff

/-- What `f_read` has done: its result, `*br`, the file, the window and the buffer. -/
structure Transfer (σ : Type) where
  res : Nat
  done : UInt32
  file : FileObject
  win : Win σ
  buff : Nat → UInt8

/-- The loop of `f_read`; `none` if it has not come to an end. -/
def readLoop : Nat → UInt32 → UInt32 → FileObject → Win σ → (Nat → UInt8) → Option (Transfer σ)
  | 0, btr, br, fp, w, buff => if btr = 0 then some ⟨frOk, br, fp, w, buff⟩ else none
  | fuel + 1, btr, br, fp, w, buff =>
      if btr = 0 then some ⟨frOk, br, fp, w, buff⟩
      else
        let r := readRound bd fs btr br.toNat fp w buff
        if r.res ≠ frOk then some ⟨r.res, br, r.file.abort r.res, r.win, r.buff⟩
        else
          let fp := { r.file with fptr := r.file.fptr + r.count.toUInt64 }
          readLoop fuel (btr - r.count) (br + r.count) fp r.win r.buff

/-- `validate` is the answer of the function of this name. -/
def fRead (validate : Nat) (fp : FileObject) (btr : UInt32) (w : Win σ) (buff : Nat → UInt8) : Option (Transfer σ) :=
  let res := if validate = frOk then fp.err.toNat else validate
  if res ≠ frOk then some ⟨res, 0, fp, w, buff⟩
  else if fp.flag &&& faRead = 0 then some ⟨frDenied, 0, fp, w, buff⟩
  else
    let remain := fp.obj.objsize - fp.fptr
    let btr := if remain < btr.toUInt64 then remain.toUInt32 else btr
    readLoop bd fs btr.toNat btr 0 fp w buff

end Model

section Round

variable {σ : Type} {bd : DeviceOps σ (Nat → UInt8)} {contents : σ → UInt64 → Nat → UInt8} {fs : MountedFs}
  {w : Win σ} {fp : FileObject} {cl : Nat → UInt32} {n : Nat}

/-! ## Finding the cluster -/

/-- The beginning of a cluster. -/
theorem mod_clusterBytes (fs : MountedFs) {k : Nat} (hk : k % fs.ssize.toNat = 0) :
    k % clusterBytes fs = 0 ↔ k / fs.ssize.toNat % fs.csize.toNat = 0 := by
  have hsplit := Nat.div_add_mod k fs.ssize.toNat
  rw [hk, Nat.add_zero] at hsplit
  unfold clusterBytes
  rw [Nat.mul_comm fs.csize.toNat]
  generalize k / fs.ssize.toNat = q at hsplit
  subst hsplit
  rw [Nat.mul_mod_mul_left, Nat.mul_eq_zero]
  exact ⟨fun h => h.resolve_left (Nat.ne_of_gt fs.ssize_pos), .inr⟩

/-- The file and the window after a cluster has been looked for. -/
structure Found (bd : DeviceOps σ (Nat → UInt8)) (contents : σ → UInt64 → Nat → UInt8) (fs : MountedFs) (w : Win σ)
    (fp : FileObject) (clst : UInt32) (r : Nat × FileObject × Win σ) : Prop where
  res : r.1 = frOk ∧ r.2.1 = { fp with clust := clst } ∨ r.1 = frDiskErr ∧ r.2.1 = fp
  works : Working bd → r.1 = frOk
  same : SameView contents fs w r.2.2
  coherent : Coherent contents fs r.2.2

/-- What `followClust` finds at the beginning of a cluster. -/
theorem followClust_spec (hbd : HasSectors bd contents) (hlaid : Laid fs) (h : Coherent contents fs w)
    (hfollows : Follows contents fs w fp.obj fp.cltbl cl n) (hpos : Positioned fs cl fp)
    (hptr : fp.fptr.toNat < fp.obj.objsize.toNat) (hbound : fp.fptr.toNat % clusterBytes fs = 0) :
    Got bd contents fs w (cl (fp.fptr.toNat / clusterBytes fs)) (followClust bd fs fp w) := by
  obtain ⟨hn, -⟩ := hfollows.inRange hptr
  unfold followClust
  by_cases hzero : fp.fptr = 0
  · rw [if_pos hzero]
    have hfirst : cl (fp.fptr.toNat / clusterBytes fs) = fp.obj.sclust := by
      rw [hzero, show (0 : UInt64).toNat = 0 from rfl, Nat.zero_div]
      exact hfollows.first (Nat.lt_of_le_of_lt (Nat.zero_le _) hn)
    exact ⟨.inl hfirst.symm, fun _ => hfirst.symm, SameView.refl w, h⟩
  · rw [if_neg hzero]
    have hne : 0 < fp.fptr.toNat := Nat.pos_of_ne_zero fun heq => hzero (UInt64.toNat_inj.mp heq)
    have hpred := pred_div_of_eq hbound hne
    cases htbl : fp.cltbl with
    | some tbl =>
        have hmap := hfollows.map tbl htbl _ hn
        dsimp only
        rw [cluster_index, hmap]
        exact ⟨.inl rfl, fun _ => rfl, SameView.refl w, h⟩
    | none =>
        have hgot := getFatWin_spec hbd hlaid.placed h fp.obj fp.clust
        dsimp only
        rwa [hpos.clust hne, hfollows.next htbl _ (by omega), hpred, ← hpos.clust hne] at hgot

theorem inRange_found {clst : UInt32} (h : fs.InRange clst) : ¬ clst < 2 ∧ clst ≠ 0xFFFFFFFF := by
  obtain ⟨-, hhigh⟩ := Fatfs.inRange_iff.mp h
  have hlimit := fs.nFatent_lt
  refine ⟨UInt32.not_lt.mpr h.1, ?_⟩
  rintro rfl
  rw [show (0xFFFFFFFF : UInt32).toNat = 4294967295 from rfl] at hhigh
  omega

theorem readClust_spec (hbd : HasSectors bd contents) (hlaid : Laid fs) (h : Coherent contents fs w)
    (hfollows : Follows contents fs w fp.obj fp.cltbl cl n) (hpos : Positioned fs cl fp)
    (hptr : fp.fptr.toNat < fp.obj.objsize.toNat) (hbound : fp.fptr.toNat % fs.ssize.toNat = 0) :
    Found bd contents fs w fp (cl (fp.fptr.toNat / clusterBytes fs)) (readClust bd fs fp w) := by
  obtain ⟨-, hrange⟩ := hfollows.inRange hptr
  obtain ⟨hvalid, hvalid'⟩ := inRange_found hrange
  have hcsect := csect_toNat fs fp.fptr
  have hwhole := mod_clusterBytes fs hbound
  unfold readClust
  by_cases hzero : csect fs fp.fptr = 0
  · rw [if_pos hzero]
    rw [hzero] at hcsect
    have hgot := followClust_spec hbd hlaid h hfollows hpos hptr (hwhole.mpr hcsect.symm)
    generalize followClust bd fs fp w = r at hgot
    obtain ⟨clst, w'⟩ := r
    dsimp only
    by_cases herr : clst = 0xFFFFFFFF
    · rw [if_neg (by rw [herr]; decide), if_pos herr]
      exact ⟨.inr ⟨rfl, rfl⟩, fun hw => absurd ((hgot.works hw).symm.trans herr) hvalid', hgot.same, hgot.coherent⟩
    · have hclst : clst = cl (fp.fptr.toNat / clusterBytes fs) := hgot.res.resolve_right herr
      subst hclst
      rw [if_neg hvalid, if_neg hvalid']
      exact ⟨.inl ⟨rfl, rfl⟩, fun _ => rfl, hgot.same, hgot.coherent⟩
  · rw [if_neg hzero]
    have hne : fp.fptr.toNat % clusterBytes fs ≠ 0 := by
      intro heq
      refine hzero (UInt32.toNat_inj.mp ?_)
      rw [hcsect, hwhole.mp heq]
      rfl
    have hptr' : 0 < fp.fptr.toNat := by
      refine Nat.pos_of_ne_zero fun heq => hne ?_
      rw [heq, Nat.zero_mod]
    refine ⟨.inl ⟨rfl, ?_⟩, fun _ => rfl, SameView.refl w, h⟩
    rw [← pred_div_of_ne hne, ← hpos.clust hptr']

/-! ## Whole sectors -/

theorem diskRead_same (hbd : HasSectors bd contents) (h : Coherent contents fs w) (sect : UInt64) (count : UInt32) :
    SameView contents fs w (diskRead bd sect count w).2.2 ∧ Coherent contents fs (diskRead bd sect count w).2.2 ∧
      view contents (diskRead bd sect count w).2.2 = view contents w := by
  have hkeeps := hbd.read_keeps sect count.toUInt16 w.dev
  have hview : view contents (diskRead bd sect count w).2.2 = view contents w := by
    funext a
    unfold view
    show (if w.wflag = true ∧ a = w.winsect then w.win else contents (bd.read sect count.toUInt16 w.dev).2 a) = _
    rw [hkeeps]
  refine ⟨fun a _ => congrFun hview a, ⟨h.outside, fun hclean hvalid => ?_⟩, hview⟩
  exact (h.copy hclean hvalid).trans (congrFun hkeeps _).symm

/-- What the caller gets is what the volume has, the window included. -/
theorem readSectors_spec (hbd : HasSectors bd contents) (h : Coherent contents fs w) (sect : UInt64) {cc : UInt32}
    (hcc : cc.toNat < 65536) (pos : Nat) (buff : Nat → UInt8) :
    SameView contents fs w (readSectors bd fs sect cc pos w buff).2.1 ∧
      Coherent contents fs (readSectors bd fs sect cc pos w buff).2.1 ∧
      ((readSectors bd fs sect cc pos w buff).1 = true → (readSectors bd fs sect cc pos w buff).2.2 =
        copyBytes buff pos (fs.ssize.toNat * cc.toNat) fun i =>
          view contents w (sect + .ofNat (i / fs.ssize.toNat)) (i % fs.ssize.toNat)) ∧
      (∀ i, i < pos ∨ pos + fs.ssize.toNat * cc.toNat ≤ i → (readSectors bd fs sect cc pos w buff).2.2 i = buff i) := by
  have hss := fs.ssize_pos
  obtain ⟨hsame, hcoherent, hview⟩ := diskRead_same hbd h sect cc
  have hdata : (diskRead bd sect cc w).1 = true → ∀ j < cc.toNat,
      (diskRead bd sect cc w).2.1 j = contents w.dev (sect + .ofNat j) := by
    intro hok j hj
    have hcount : cc.toUInt16.toNat = cc.toNat := by
      rw [UInt32.toNat_toUInt16]
      exact Nat.mod_eq_of_lt hcc
    have hres : (bd.read sect cc.toUInt16 w.dev).1.result = cc.toUInt16.toNat := by
      rw [hcount]
      exact of_decide_eq_true hok
    exact hbd.read_data sect cc.toUInt16 w.dev hres j (by rwa [hcount])
  have hwin : (diskRead bd sect cc w).2.2.win = w.win ∧ (diskRead bd sect cc w).2.2.winsect = w.winsect ∧
      (diskRead bd sect cc w).2.2.wflag = w.wflag := ⟨rfl, rfl, rfl⟩
  unfold readSectors
  generalize diskRead bd sect cc w = r at hsame hcoherent hdata hwin
  obtain ⟨ok, data, w'⟩ := r
  dsimp only at hsame hcoherent hdata hwin ⊢
  obtain ⟨hwin, hwinsect, hwflag⟩ := hwin
  have hsectors : ∀ {i}, i < fs.ssize.toNat * cc.toNat → i / fs.ssize.toNat < cc.toNat :=
    fun hi => Nat.div_lt_of_lt_mul hi
  -- a sector that is not in the window
  have hclean : ok = true → ∀ {j}, j < cc.toNat → ¬ (w.wflag = true ∧ sect + .ofNat j = w.winsect) →
      data j = view contents w (sect + .ofNat j) := by
    intro hok j hj hnot
    unfold view
    rw [if_neg hnot]
    exact hdata hok j hj
  have hoffset : ∀ {j}, j < cc.toNat → sect + .ofNat j = w.winsect → (w.winsect - sect).toNat = j := by
    intro j hj heq
    rw [← heq, UInt64.add_comm, UInt64.add_sub_cancel, UInt64.toNat_ofNat']
    exact Nat.mod_eq_of_lt (by show j < 18446744073709551616; omega)
  rw [hwflag, hwinsect, hwin]
  by_cases hnewer : w.wflag = true ∧ w.winsect - sect < cc.toUInt64
  · rw [if_pos hnewer]
    dsimp only
    obtain ⟨hdirty, hlt⟩ := hnewer
    rw [UInt64.lt_iff_toNat_lt, UInt32.toNat_toUInt64] at hlt
    have hself : sect + .ofNat (w.winsect - sect).toNat = w.winsect := by
      rw [UInt64.ofNat_toNat, UInt64.add_comm, UInt64.sub_add_cancel]
    generalize (w.winsect - sect).toNat = d at hlt hself hoffset
    have hfits : d * fs.ssize.toNat + fs.ssize.toNat ≤ fs.ssize.toNat * cc.toNat := by
      rw [← Nat.succ_mul, Nat.mul_comm]
      exact Nat.mul_le_mul_left _ hlt
    refine ⟨hsame, hcoherent, fun hok => ?_, fun i hi => ?_⟩
    · rw [if_pos hok]
      funext i
      by_cases hpatch : pos + d * fs.ssize.toNat ≤ i ∧ i < pos + d * fs.ssize.toNat + fs.ssize.toNat
      · have hsplit : i - pos = fs.ssize.toNat * d + (i - (pos + d * fs.ssize.toNat)) := by
          rw [Nat.mul_comm]
          omega
        rw [copyBytes_in hpatch.1 hpatch.2, copyBytes_in (by omega) (by omega), hsplit, Nat.mul_add_div hss,
          Nat.div_eq_of_lt (by omega), Nat.mul_add_mod, Nat.mod_eq_of_lt (by omega), Nat.add_zero, hself]
        unfold view
        rw [if_pos ⟨hdirty, rfl⟩]
      · rw [copyBytes_out (by omega)]
        by_cases hin : pos ≤ i ∧ i < pos + fs.ssize.toNat * cc.toNat
        · rw [copyBytes_in hin.1 hin.2, copyBytes_in hin.1 hin.2]
          refine congrFun (hclean hok (hsectors (by omega)) fun hwinsect => hpatch ?_) _
          have hd := hoffset (hsectors (by omega)) hwinsect.2
          have hsplit := Nat.div_add_mod (i - pos) fs.ssize.toNat
          have hmod := Nat.mod_lt (i - pos) hss
          rw [← hd, Nat.mul_comm] at hsplit
          omega
        · rw [copyBytes_out (by omega), copyBytes_out (by omega)]
    · split
      · rw [copyBytes_out (by omega), copyBytes_out (by omega)]
      · rw [copyBytes_out (by omega)]
  · rw [if_neg hnewer]
    dsimp only
    refine ⟨hsame, hcoherent, fun hok => ?_, fun i hi => copyBytes_out (by omega)⟩
    funext i
    by_cases hin : pos ≤ i ∧ i < pos + fs.ssize.toNat * cc.toNat
    · rw [copyBytes_in hin.1 hin.2, copyBytes_in hin.1 hin.2]
      have hj := @hsectors (i - pos) (by omega)
      refine congrFun (hclean hok hj fun hwinsect => hnewer ⟨hwinsect.1, ?_⟩) _
      rw [UInt64.lt_iff_toNat_lt, UInt32.toNat_toUInt64, hoffset hj hwinsect.2]
      exact hj
    · rw [copyBytes_out (by omega), copyBytes_out (by omega)]

theorem readSectors_works (hworks : Working bd) (sect : UInt64) {cc : UInt32} (hcc : cc.toNat < 65536) (pos : Nat)
    (w : Win σ) (buff : Nat → UInt8) : (readSectors bd fs sect cc pos w buff).1 = true := by
  have hread : (diskRead bd sect cc w).1 = true := by
    refine decide_eq_true ?_
    rw [hworks.reads, UInt32.toNat_toUInt16]
    exact congrArg Int.ofNat (Nat.mod_eq_of_lt hcc)
  unfold readSectors
  dsimp only
  split
  · exact hread
  · exact hread

/-! ## One round -/

/-- What a round gives that has been asked for `btr` bytes. -/
structure RoundRead (bd : DeviceOps σ (Nat → UInt8)) (contents : σ → UInt64 → Nat → UInt8) (fs : MountedFs) (w : Win σ)
    (fp : FileObject) (cl : Nat → UInt32) (btr : UInt32) (pos : Nat) (buff : Nat → UInt8) (r : Round σ) : Prop where
  res : r.res = frOk ∨ r.res = frDiskErr
  works : Working bd → r.res = frOk
  same : SameView contents fs w r.win
  coherent : Coherent contents fs r.win
  file : r.file = { fp with clust := r.file.clust, sect := r.file.sect }
  count : r.res = frOk → 0 < r.count.toNat ∧ r.count.toNat ≤ btr.toNat
  bytes : r.res = frOk →
    r.buff = copyBytes buff pos r.count.toNat fun i => fileByte contents fs w cl (fp.fptr.toNat + i)
  position : r.res = frOk → ∀ fptr : UInt64, fptr.toNat = fp.fptr.toNat + r.count.toNat →
    Positioned fs cl { r.file with fptr := fptr }
  outside : ∀ i, i < pos ∨ pos + btr.toNat ≤ i → r.buff i = buff i

theorem readPart_spec (fp : FileObject) (hbd : HasSectors bd contents) (hlaid : Laid fs) (h : Coherent contents fs w)
    (hrange : fs.InRange (cl (fp.fptr.toNat / clusterBytes fs)))
    (hclust : fp.clust = cl (fp.fptr.toNat / clusterBytes fs))
    (hsect : fp.sect = dataSector fs (cl (fp.fptr.toNat / clusterBytes fs))
      (fp.fptr.toNat / fs.ssize.toNat % fs.csize.toNat)) {btr : UInt32} (hbtr : btr ≠ 0) (pos : Nat)
    (buff : Nat → UInt8) :
    RoundRead bd contents fs w fp cl btr pos buff (readPart bd fs btr pos fp w buff) := by
  have hss := fs.ssize_pos
  have hssize : fs.ssize.toNat < 65536 := fs.ssize.toNat_lt
  have hout := hlaid.dataSector_outside hrange (Nat.mod_lt (fp.fptr.toNat / fs.ssize.toNat) fs.csize_pos)
  rw [← hsect] at hout
  have hmoved := moveWindow_spec hbd h hout.1 hout.2 hlaid.placed
  have hofs := sectorOfs_toNat fs fp.fptr
  have hmod := Nat.mod_lt fp.fptr.toNat hss
  have hbtr' : btr.toNat ≠ 0 := fun heq => hbtr (UInt32.toNat_inj.mp heq)
  have hrest : (fs.ssize.toUInt32 - fp.fptr.toUInt32 % fs.ssize.toUInt32).toNat =
      fs.ssize.toNat - fp.fptr.toNat % fs.ssize.toNat := by
    rw [UInt32.toNat_sub_of_le, hofs, UInt16.toNat_toUInt32]
    rw [UInt32.le_iff_toNat_le, hofs, UInt16.toNat_toUInt32]
    exact Nat.le_of_lt hmod
  unfold readPart
  generalize hrcnt : (if btr < fs.ssize.toUInt32 - fp.fptr.toUInt32 % fs.ssize.toUInt32 then btr
    else fs.ssize.toUInt32 - fp.fptr.toUInt32 % fs.ssize.toUInt32) = rcnt
  have hcount : 0 < rcnt.toNat ∧ rcnt.toNat ≤ btr.toNat ∧
      fp.fptr.toNat % fs.ssize.toNat + rcnt.toNat ≤ fs.ssize.toNat := by
    rw [← hrcnt]
    split
    · rename_i hlt
      rw [UInt32.lt_iff_toNat_lt, hrest] at hlt
      omega
    · rename_i hlt
      rw [UInt32.lt_iff_toNat_lt, hrest] at hlt
      omega
  dsimp only
  rw [hrcnt]
  have hworks : Working bd → (moveWindow bd fs fp.sect w).1 = frOk := fun hworks => moveWindow_works hworks _ w
  generalize moveWindow bd fs fp.sect w = r at hmoved hworks
  obtain ⟨res, w'⟩ := r
  dsimp only
  by_cases hres : res ≠ frOk
  · rw [if_pos hres]
    have hfail : frDiskErr ≠ frOk := by decide
    exact ⟨.inr rfl, fun hw => absurd (hworks hw) hres, hmoved.same, hmoved.coherent, rfl, fun h => absurd h hfail, fun h => absurd h hfail,
      fun h => absurd h hfail, fun _ _ => rfl⟩
  · rw [if_neg hres]
    have hwin : w'.win = view contents w fp.sect := by
      rcases hmoved.res with ⟨-, -, hwin⟩ | herr
      · exact hwin
      · exact absurd (herr.symm.trans (not_not.mp hres)) (by decide)
    have hsame : ∀ i, fp.fptr.toNat % fs.ssize.toNat + i < fs.ssize.toNat →
        (fp.fptr.toNat + i) / fs.ssize.toNat = fp.fptr.toNat / fs.ssize.toNat := fun i hi => add_div_of_mod_lt hi
    refine ⟨.inl rfl, fun _ => rfl, hmoved.same, hmoved.coherent, rfl, fun _ => ⟨hcount.1, hcount.2.1⟩, fun _ => ?_,
      fun _ fptr hfptr => ?_, fun i hi => ?_⟩
    · dsimp only
      refine copyBytes_congr fun i hi => ?_
      have hsplit := Nat.div_add_mod fp.fptr.toNat fs.ssize.toNat
      have hbyte := @fileByte_at σ contents fs w cl (fp.fptr.toNat / fs.ssize.toNat)
        (fp.fptr.toNat % fs.ssize.toNat + i) (by omega)
      rw [← Nat.add_assoc, Nat.mul_comm, hsplit, ← div_clusterBytes, ← hsect] at hbyte
      rw [hbyte, hwin, hofs]
    · constructor
      · intro _
        show fp.clust = _
        rw [hclust]
        refine congrArg cl ?_
        rw [div_clusterBytes, div_clusterBytes, hfptr, Nat.add_sub_assoc hcount.1, hsame _ (by omega)]
      · intro hne
        show fp.sect = _
        rw [hfptr] at hne ⊢
        have hlt : fp.fptr.toNat % fs.ssize.toNat + rcnt.toNat < fs.ssize.toNat := by
          refine Nat.lt_of_le_of_ne hcount.2.2 fun heq => hne ?_
          have hsplit := Nat.div_add_mod fp.fptr.toNat fs.ssize.toNat
          rw [← hsplit, Nat.add_assoc, heq, ← Nat.mul_succ, Nat.mul_mod_right]
        rw [hsect, div_clusterBytes, div_clusterBytes, hsame _ hlt]
    · have hle := hcount.2.1
      dsimp only
      exact copyBytes_out (by omega)

theorem RoundRead.of_found {w' : Win σ} {fp' : FileObject} {btr : UInt32} {pos : Nat} {buff : Nat → UInt8} {r : Round σ}
    (h : RoundRead bd contents fs w' fp' cl btr pos buff r) (hlaid : Laid fs)
    (hfollows : Follows contents fs w fp.obj fp.cltbl cl n)
    (hleft : fp.fptr.toNat + btr.toNat ≤ fp.obj.objsize.toNat) (hsame : SameView contents fs w w')
    (hfile : fp' = { fp with clust := fp'.clust, sect := fp'.sect }) :
    RoundRead bd contents fs w fp cl btr pos buff r := by
  have hfptr : fp'.fptr = fp.fptr := by rw [hfile]
  refine ⟨h.res, h.works, hsame.trans h.same, h.coherent, ?_, h.count, fun hok => ?_, fun hok fptr hnew => ?_, h.outside⟩
  · rw [h.file, hfile]
  · have hcount := (h.count hok).2
    rw [h.bytes hok, hfptr]
    refine copyBytes_congr fun i hi => hsame.fileByte hlaid (hfollows.inRange (by omega)).2
  · exact h.position hok fptr (hfptr ▸ hnew)

/-- Bytes of consecutive sectors of a cluster. -/
theorem fileByte_sectors (w : Win σ) {q m i : Nat} (hm : q % fs.csize.toNat + m ≤ fs.csize.toNat)
    (hi : i < fs.ssize.toNat * m) : fileByte contents fs w cl (q * fs.ssize.toNat + i) =
      view contents w (dataSector fs (cl (q / fs.csize.toNat)) (q % fs.csize.toNat) + .ofNat (i / fs.ssize.toNat))
        (i % fs.ssize.toNat) := by
  have hss := fs.ssize_pos
  have hlt : i / fs.ssize.toNat < m := Nat.div_lt_of_lt_mul hi
  have hsplit := Nat.div_add_mod i fs.ssize.toNat
  have hpos : q * fs.ssize.toNat + i = (q + i / fs.ssize.toNat) * fs.ssize.toNat + i % fs.ssize.toNat := by
    rw [Nat.add_mul, Nat.add_assoc, Nat.mul_comm (i / _), hsplit]
  have hstay : q % fs.csize.toNat + i / fs.ssize.toNat < fs.csize.toNat := by omega
  rw [hpos, fileByte_at w cl (Nat.mod_lt _ hss), add_div_of_mod_lt hstay, add_mod_of_mod_lt hstay, dataSector_add]

/-- Whole sectors, up to the end of the cluster at most. -/
theorem readWhole_spec (fp : FileObject) (hbd : HasSectors bd contents) (h : Coherent contents fs w)
    (hclust : fp.clust = cl (fp.fptr.toNat / clusterBytes fs)) (hbound : fp.fptr.toNat % fs.ssize.toNat = 0)
    {btr cc : UInt32} (hcc : 0 < cc.toNat) (hle : fs.ssize.toNat * cc.toNat ≤ btr.toNat)
    (hclip : fp.fptr.toNat / fs.ssize.toNat % fs.csize.toNat + cc.toNat ≤ fs.csize.toNat) (pos : Nat)
    (buff : Nat → UInt8) : RoundRead bd contents fs w fp cl btr pos buff
      (let (ok, w, buff) := readSectors bd fs (dataSector fs (cl (fp.fptr.toNat / clusterBytes fs))
          (fp.fptr.toNat / fs.ssize.toNat % fs.csize.toNat)) cc pos w buff
        if ok then ⟨frOk, fs.ssize.toUInt32 * cc, fp, w, buff⟩ else ⟨frDiskErr, 0, fp, w, buff⟩) := by
  have hss := fs.ssize_pos
  have hcsize : fs.csize.toNat < 65536 := fs.csize.toNat_lt
  have hbtr : btr.toNat < 4294967296 := btr.toNat_lt
  have hfew : cc.toNat < 65536 := by omega
  have hspec := readSectors_spec hbd h (dataSector fs (cl (fp.fptr.toNat / clusterBytes fs))
    (fp.fptr.toNat / fs.ssize.toNat % fs.csize.toNat)) hfew pos buff
  have hcount : (fs.ssize.toUInt32 * cc).toNat = fs.ssize.toNat * cc.toNat := by
    rw [UInt32.toNat_mul, UInt16.toNat_toUInt32]
    exact Nat.mod_eq_of_lt (by show _ < 4294967296; omega)
  have hq : fp.fptr.toNat / fs.ssize.toNat * fs.ssize.toNat = fp.fptr.toNat :=
    Nat.div_mul_cancel (Nat.dvd_of_mod_eq_zero hbound)
  have hworks : Working bd → (readSectors bd fs (dataSector fs (cl (fp.fptr.toNat / clusterBytes fs))
      (fp.fptr.toNat / fs.ssize.toNat % fs.csize.toNat)) cc pos w buff).1 = true :=
    fun hworks => readSectors_works hworks _ hfew pos w buff
  generalize readSectors bd fs _ cc pos w buff = r at hspec hworks
  obtain ⟨ok, w', buff'⟩ := r
  obtain ⟨hsame, hcoherent, hdata, houtside⟩ := hspec
  dsimp only at hsame hcoherent hdata houtside ⊢
  cases ok with
  | false =>
      have hfail : frDiskErr ≠ frOk := by decide
      exact ⟨.inr rfl, fun hw => absurd (hworks hw) Bool.false_ne_true, hsame, hcoherent, rfl, fun h => absurd h hfail, fun h => absurd h hfail,
        fun h => absurd h hfail, fun i hi => houtside i (by omega)⟩
  | true =>
      refine ⟨.inl rfl, fun _ => rfl, hsame, hcoherent, rfl, fun _ => ?_, fun _ => ?_, fun _ fptr hfptr => ?_,
        fun i hi => houtside i (by omega)⟩
      · show 0 < (fs.ssize.toUInt32 * cc).toNat ∧ (fs.ssize.toUInt32 * cc).toNat ≤ btr.toNat
        rw [hcount]
        exact ⟨Nat.mul_pos hss hcc, hle⟩
      · show buff' = copyBytes buff pos (fs.ssize.toUInt32 * cc).toNat _
        rw [hdata rfl, hcount]
        refine copyBytes_congr fun i hi => ?_
        have hbyte := @fileByte_sectors σ contents fs cl w (fp.fptr.toNat / fs.ssize.toNat) cc.toNat i hclip hi
        rw [hq, ← div_clusterBytes] at hbyte
        exact hbyte.symm
      · change fptr.toNat = fp.fptr.toNat + (fs.ssize.toUInt32 * cc).toNat at hfptr
        rw [hcount] at hfptr
        have hbehind : fptr.toNat % fs.ssize.toNat = 0 := by
          rw [hfptr, Nat.add_mul_mod_self_left, hbound]
        refine ⟨fun _ => ?_, fun hne => absurd hbehind hne⟩
        show fp.clust = cl ((fptr.toNat - 1) / clusterBytes fs)
        rw [hclust]
        refine congrArg cl ?_
        have hone : fs.ssize.toNat ≤ fs.ssize.toNat * cc.toNat := Nat.le_mul_of_pos_right _ hcc
        have hlast : fptr.toNat - 1 = fp.fptr.toNat / fs.ssize.toNat * fs.ssize.toNat +
            (fs.ssize.toNat * cc.toNat - 1) := by omega
        have hsector : (fptr.toNat - 1) / fs.ssize.toNat =
            fp.fptr.toNat / fs.ssize.toNat + (fs.ssize.toNat * cc.toNat - 1) / fs.ssize.toNat := by
          rw [hlast, Nat.mul_comm, Nat.mul_add_div hss]
        have hlt : (fs.ssize.toNat * cc.toNat - 1) / fs.ssize.toNat < cc.toNat :=
          Nat.div_lt_of_lt_mul (by omega)
        rw [div_clusterBytes, div_clusterBytes, hsector, add_div_of_mod_lt (by omega)]

theorem readRound_spec (hbd : HasSectors bd contents) (hlaid : Laid fs) (h : Coherent contents fs w)
    (hfollows : Follows contents fs w fp.obj fp.cltbl cl n) (hpos : Positioned fs cl fp) {btr : UInt32}
    (hbtr : btr ≠ 0) (hleft : fp.fptr.toNat + btr.toNat ≤ fp.obj.objsize.toNat) (pos : Nat) (buff : Nat → UInt8) :
    RoundRead bd contents fs w fp cl btr pos buff (readRound bd fs btr pos fp w buff) := by
  have hss := fs.ssize_pos
  have hbtr' : btr.toNat ≠ 0 := fun heq => hbtr (UInt32.toNat_inj.mp heq)
  obtain ⟨-, hrange⟩ := hfollows.inRange (show fp.fptr.toNat < fp.obj.objsize.toNat by omega)
  have hboundary : fp.fptr % fs.ssize.toUInt64 = 0 ↔ fp.fptr.toNat % fs.ssize.toNat = 0 := by
    rw [← UInt64.toNat_inj, UInt64.toNat_mod, UInt16.toNat_toUInt64]
    rfl
  unfold readRound
  by_cases hbound : fp.fptr % fs.ssize.toUInt64 = 0
  · rw [if_pos hbound]
    rw [hboundary] at hbound
    have hfound := readClust_spec hbd hlaid h hfollows hpos (by omega) hbound
    have hcsect := csect_toNat fs fp.fptr
    have hin : fp.fptr.toNat / fs.ssize.toNat % fs.csize.toNat < fs.csize.toNat := Nat.mod_lt _ fs.csize_pos
    generalize readClust bd fs fp w = r at hfound
    obtain ⟨res, fp', w'⟩ := r
    dsimp only
    rcases hfound.res with ⟨hres, hfp'⟩ | ⟨hres, hfp'⟩
    · change fp' = _ at hfp'
      change res = frOk at hres
      subst hfp' hres
      have hsectnum : clst2sect fs.toFatfs (cl (fp.fptr.toNat / clusterBytes fs)) + (csect fs fp.fptr).toUInt64 =
          dataSector fs (cl (fp.fptr.toNat / clusterBytes fs)) (fp.fptr.toNat / fs.ssize.toNat % fs.csize.toNat) := by
        unfold dataSector
        rw [← hcsect, ← UInt32.toNat_toUInt64, UInt64.ofNat_toNat]
      rw [if_neg (fun h => h rfl), if_neg (clst2sect_ne_zero hlaid hrange)]
      by_cases hwhole : 0 < btr / fs.ssize.toUInt32
      · rw [if_pos hwhole, hsectnum]
        obtain ⟨hsome, hle, hclip⟩ := clip_spec fs (hcsect ▸ hin) hwhole
        generalize (if fs.csize.toUInt32 < csect fs fp.fptr + btr / fs.ssize.toUInt32 then
          fs.csize.toUInt32 - csect fs fp.fptr else btr / fs.ssize.toUInt32) = cc at hsome hle hclip
        rw [hcsect] at hclip
        have hread := readWhole_spec { fp with clust := cl (fp.fptr.toNat / clusterBytes fs) } hbd hfound.coherent rfl
          hbound hsome hle hclip pos buff
        exact hread.of_found hlaid hfollows hleft hfound.same rfl
      · rw [if_neg hwhole, hsectnum]
        have hread := readPart_spec { fp with
          clust := cl (fp.fptr.toNat / clusterBytes fs), sect := dataSector fs (cl (fp.fptr.toNat / clusterBytes fs))
            (fp.fptr.toNat / fs.ssize.toNat % fs.csize.toNat) } hbd hlaid hfound.coherent hrange rfl rfl hbtr pos buff
        exact hread.of_found hlaid hfollows hleft hfound.same rfl
    · change fp' = _ at hfp'
      change res = _ at hres
      subst hfp' hres
      have hfail : frDiskErr ≠ frOk := by decide
      rw [if_pos hfail]
      exact ⟨.inr rfl, fun hw => absurd (hfound.works hw) hfail, hfound.same, hfound.coherent, rfl, fun h => absurd h hfail, fun h => absurd h hfail,
        fun h => absurd h hfail, fun _ _ => rfl⟩
  · rw [if_neg hbound]
    rw [hboundary] at hbound
    have hptr : 0 < fp.fptr.toNat := Nat.pos_of_ne_zero fun heq => hbound (by rw [heq, Nat.zero_mod])
    have hwhole : fp.fptr.toNat % clusterBytes fs ≠ 0 := by
      intro heq
      refine hbound (Nat.mod_eq_zero_of_dvd ?_)
      exact Nat.dvd_trans (Nat.dvd_mul_left _ _) (Nat.dvd_of_mod_eq_zero heq)
    have hclust := hpos.clust hptr
    rw [pred_div_of_ne hwhole] at hclust
    exact readPart_spec fp hbd hlaid h hrange hclust (hpos.sect hbound) hbtr pos buff

/-! ## The loop -/

/-- What is left when `btr` bytes were still to come behind the first `br`. -/
structure ReadDone (bd : DeviceOps σ (Nat → UInt8)) (contents : σ → UInt64 → Nat → UInt8) (fs : MountedFs) (w : Win σ)
    (fp : FileObject) (cl : Nat → UInt32) (btr br : UInt32) (buff : Nat → UInt8) (r : Transfer σ) : Prop where
  res : r.res = frOk ∨ r.res = frDiskErr
  works : Working bd → r.res = frOk
  same : SameView contents fs w r.win
  coherent : Coherent contents fs r.win
  count : br.toNat ≤ r.done.toNat ∧ r.done.toNat ≤ br.toNat + btr.toNat
  all : r.res = frOk → r.done.toNat = br.toNat + btr.toNat
  bytes : ∀ i, br.toNat ≤ i → i < r.done.toNat →
    r.buff i = fileByte contents fs w cl (fp.fptr.toNat + (i - br.toNat))
  outside : ∀ i, i < br.toNat ∨ br.toNat + btr.toNat ≤ i → r.buff i = buff i
  file : r.file = { fp with err := r.file.err, fptr := r.file.fptr, clust := r.file.clust, sect := r.file.sect }
  fptr : r.file.fptr.toNat = fp.fptr.toNat + (r.done.toNat - br.toNat)
  err : r.file.err = if r.res = frOk then fp.err else .ofNat r.res
  position : r.res = frOk → Positioned fs cl r.file

theorem ReadDone.empty (h : Coherent contents fs w) (hpos : Positioned fs cl fp) (br : UInt32) (buff : Nat → UInt8) :
    ReadDone bd contents fs w fp cl 0 br buff ⟨frOk, br, fp, w, buff⟩ :=
  ⟨.inl rfl, fun _ => rfl, SameView.refl w, h, ⟨Nat.le_refl _, Nat.le_add_right _ _⟩, fun _ => rfl,
    fun _ hlow hhigh => absurd hhigh (Nat.not_lt.mpr hlow), fun _ _ => rfl, rfl,
    by rw [Nat.sub_self, Nat.add_zero], rfl, fun _ => hpos⟩

theorem readLoop_spec (hbd : HasSectors bd contents) (hlaid : Laid fs) {fuel : Nat} {btr br : UInt32} (hfuel : btr.toNat ≤ fuel)
    (hsum : br.toNat + btr.toNat < 4294967296) (h : Coherent contents fs w)
    (hfollows : Follows contents fs w fp.obj fp.cltbl cl n) (hpos : Positioned fs cl fp)
    (hleft : fp.fptr.toNat + btr.toNat ≤ fp.obj.objsize.toNat) (buff : Nat → UInt8) :
    ∃ r, readLoop bd fs fuel btr br fp w buff = some r ∧ ReadDone bd contents fs w fp cl btr br buff r := by
  induction fuel generalizing btr br fp w buff with
  | zero =>
      have hzero : btr = 0 := UInt32.toNat_inj.mp (Nat.le_zero.mp hfuel)
      subst hzero
      exact ⟨_, if_pos rfl, ReadDone.empty h hpos br buff⟩
  | succ fuel ih =>
      rw [readLoop]
      by_cases hzero : btr = 0
      · subst hzero
        exact ⟨_, if_pos rfl, ReadDone.empty h hpos br buff⟩
      · rw [if_neg hzero]
        have hround := readRound_spec hbd hlaid h hfollows hpos hzero hleft br.toNat buff
        generalize readRound bd fs btr br.toNat fp w buff = r at hround
        dsimp only
        by_cases hres : r.res ≠ frOk
        · rw [if_pos hres]
          refine ⟨_, rfl, hround.res, hround.works, hround.same, hround.coherent,
            ⟨Nat.le_refl _, Nat.le_add_right _ _⟩, fun hok => absurd hok hres,
            fun i hlow hhigh => absurd hhigh (Nat.not_lt.mpr hlow), hround.outside, ?_, ?_, ?_, fun hok => absurd hok hres⟩
          · show r.file.abort r.res = _
            rw [hround.file]
            rfl
          · show r.file.fptr.toNat = _
            rw [hround.file, Nat.sub_self, Nat.add_zero]
          · exact (if_neg hres).symm
        · rw [if_neg hres]
          rw [not_not] at hres
          obtain ⟨hsome, hle⟩ := hround.count hres
          have hobjsize : fp.obj.objsize.toNat < 18446744073709551616 := fp.obj.objsize.toNat_lt
          have hfptr : (fp.fptr + r.count.toUInt64).toNat = fp.fptr.toNat + r.count.toNat := by
            rw [UInt64.toNat_add, UInt32.toNat_toUInt64]
            exact Nat.mod_eq_of_lt (by omega)
          have hbtr : (btr - r.count).toNat = btr.toNat - r.count.toNat :=
            UInt32.toNat_sub_of_le _ _ (UInt32.le_iff_toNat_le.mpr hle)
          have hbr : (br + r.count).toNat = br.toNat + r.count.toNat := by
            rw [UInt32.toNat_add]
            exact Nat.mod_eq_of_lt (by omega)
          have hptr : r.file.fptr = fp.fptr := by rw [hround.file]
          have hobj : r.file.obj = fp.obj := by rw [hround.file]
          have hmap : r.file.cltbl = fp.cltbl := by rw [hround.file]
          obtain ⟨t, ht, hrest⟩ := @ih r.win { r.file with fptr := r.file.fptr + r.count.toUInt64 } (btr - r.count)
            (br + r.count) (by omega) (by omega) hround.coherent
            (by rw [hobj, hmap]; exact hfollows.same hround.same hlaid.placed)
            (hround.position hres _ (by rw [hptr, hfptr])) (by
              show (r.file.fptr + r.count.toUInt64).toNat + (btr - r.count).toNat ≤ r.file.obj.objsize.toNat
              rw [hptr, hobj, hfptr, hbtr]
              omega) r.buff
          have hcount := hrest.count
          rw [hbr, hbtr] at hcount
          refine ⟨t, ht, hrest.res, hrest.works, hround.same.trans hrest.same, hrest.coherent, by omega, fun hok => ?_,
            fun i hlow hhigh => ?_, fun i hi => ?_, ?_, ?_, ?_, hrest.position⟩
          · rw [hrest.all hok, hbr, hbtr]
            omega
          · by_cases hfirst : i < br.toNat + r.count.toNat
            · rw [hrest.outside i (.inl (hbr ▸ hfirst)), hround.bytes hres, copyBytes_in hlow hfirst]
            · have hbyte := hrest.bytes i (by omega) hhigh
              rw [show ({ r.file with fptr := r.file.fptr + r.count.toUInt64 } : FileObject).fptr.toNat =
                fp.fptr.toNat + r.count.toNat by rw [← hfptr, ← hptr], hbr, Nat.add_assoc,
                show r.count.toNat + (i - (br.toNat + r.count.toNat)) = i - br.toNat by omega] at hbyte
              rw [hbyte, hround.same.fileByte hlaid (hfollows.inRange (by omega)).2]
          · rw [hrest.outside i (by omega), hround.outside i hi]
          · rw [hrest.file, hround.file]
          · rw [hrest.fptr]
            show (r.file.fptr + r.count.toUInt64).toNat + _ = _
            rw [hptr, hfptr, hbr]
            omega
          · rw [hrest.err]
            show (if t.res = frOk then r.file.err else _) = _
            rw [hround.file]

/-- A call of `f_read` runs the loop for what there is of what is asked for. -/
theorem fRead_done (hbd : HasSectors bd contents) (hlaid : Laid fs) (h : Coherent contents fs w)
    (hfollows : Follows contents fs w fp.obj fp.cltbl cl n) (hpos : Positioned fs cl fp)
    (hptr : fp.fptr.toNat ≤ fp.obj.objsize.toNat) (hread : fp.flag &&& faRead ≠ 0) (herr : fp.err = 0) (btr : UInt32)
    (buff : Nat → UInt8) : ∃ (r : Transfer σ) (m : UInt32), fRead bd fs frOk fp btr w buff = some r ∧
      m.toNat = min btr.toNat (fp.obj.objsize.toNat - fp.fptr.toNat) ∧
      ReadDone bd contents fs w fp cl m 0 buff r := by
  have hremain : (fp.obj.objsize - fp.fptr).toNat = fp.obj.objsize.toNat - fp.fptr.toNat :=
    UInt64.toNat_sub_of_le _ _ (UInt64.le_iff_toNat_le.mpr hptr)
  have hbound : btr.toNat < 4294967296 := btr.toNat_lt
  unfold fRead
  rw [if_pos rfl, if_neg (by rw [herr]; decide), if_neg hread]
  dsimp only
  generalize hbtr : (if fp.obj.objsize - fp.fptr < btr.toUInt64 then (fp.obj.objsize - fp.fptr).toUInt32 else btr) = m
  have hm : m.toNat = min btr.toNat (fp.obj.objsize.toNat - fp.fptr.toNat) := by
    rw [← hbtr]
    by_cases hlt : fp.obj.objsize - fp.fptr < btr.toUInt64
    · rw [if_pos hlt, UInt64.toNat_toUInt32, hremain]
      rw [UInt64.lt_iff_toNat_lt, hremain, UInt32.toNat_toUInt64] at hlt
      rw [Nat.mod_eq_of_lt (by omega)]
      omega
    · rw [if_neg hlt]
      rw [UInt64.lt_iff_toNat_lt, hremain, UInt32.toNat_toUInt64] at hlt
      omega
  have hnil : (0 : UInt32).toNat = 0 := rfl
  have hsum : (0 : UInt32).toNat + m.toNat < 4294967296 := by omega
  obtain ⟨r, hr, hdone⟩ := readLoop_spec hbd hlaid (Nat.le_refl m.toNat) hsum h hfollows hpos (by omega) buff
  exact ⟨r, m, hr, hm, hdone⟩

/-- `f_read` gives the bytes of the file from its position on, as many as are asked for and
there are, and moves the position behind them; an error of the device only makes it stop
earlier. It is the same for files with a link map and without. -/
theorem f_read_file (hbd : HasSectors bd contents) (hlaid : Laid fs) (h : Coherent contents fs w)
    (hfollows : Follows contents fs w fp.obj fp.cltbl cl n) (hpos : Positioned fs cl fp)
    (hptr : fp.fptr.toNat ≤ fp.obj.objsize.toNat) (hread : fp.flag &&& faRead ≠ 0) (herr : fp.err = 0) (btr : UInt32)
    (buff : Nat → UInt8) : ∃ r, fRead bd fs frOk fp btr w buff = some r ∧
      (r.res = frOk ∨ r.res = frDiskErr) ∧ (Working bd → r.res = frOk) ∧
      (r.res = frOk → r.done.toNat = min btr.toNat (fp.obj.objsize.toNat - fp.fptr.toNat)) ∧
      (∀ i < r.done.toNat, r.buff i = fileByte contents fs w cl (fp.fptr.toNat + i)) ∧
      (∀ i, min btr.toNat (fp.obj.objsize.toNat - fp.fptr.toNat) ≤ i → r.buff i = buff i) ∧
      r.file.fptr.toNat = fp.fptr.toNat + r.done.toNat ∧ (r.res = frOk → Positioned fs cl r.file) ∧
      SameView contents fs w r.win ∧ Coherent contents fs r.win := by
  obtain ⟨r, m, hr, hm, hdone⟩ := fRead_done hbd hlaid h hfollows hpos hptr hread herr btr buff
  have hnil : (0 : UInt32).toNat = 0 := rfl
  refine ⟨r, hr, hdone.res, hdone.works, fun hok => ?_, fun i hi => hdone.bytes i (Nat.zero_le i) hi,
    fun i hi => hdone.outside i (.inr (by omega)), hdone.fptr, hdone.position, hdone.same, hdone.coherent⟩
  rw [hdone.all hok, hm, hnil, Nat.zero_add]

end Round

/-! ## A small file -/

/-- The file of cluster 5, with a link map. -/
def smallFile : FileObject := ⟨⟨0, 5, 512, 0, 0⟩, 1, 0, 100, 5, 13, some [4, 1, 5, 0]⟩

theorem smallVolume_laid : Laid smallVolume :=
  ⟨smallVolume_placed, by decide, by decide, by decide⟩

theorem smallFile_follows (w : Win (UInt64 → Nat → UInt8)) :
    Follows id smallVolume w smallFile.obj smallFile.cltbl (fun _ => 5) 1 where
  range _ _ := ⟨by decide, by decide⟩
  first _ := rfl
  next h := absurd h (by decide)
  map tbl htbl k hk := by
    cases htbl
    rw [show k = 0 by omega]
    rfl
  room := by decide
  few := by decide

theorem smallFile_positioned : Positioned smallVolume (fun _ => 5) smallFile := ⟨fun _ => rfl, fun _ => rfl⟩

theorem f_read_file_end : ∃ r, fRead arrayDevice smallVolume frOk smallFile 1000 emptyWin (fun _ => 7) = some r ∧
    r.done.toNat = 412 ∧ r.buff 0 = 0 ∧ r.buff 412 = 7 := by
  obtain ⟨r, hr, -, hworks, hdone, hbytes, houtside, -⟩ := f_read_file arrayDevice_holds smallVolume_laid
    emptyWin_coherent (smallFile_follows emptyWin) smallFile_positioned (by decide) (by decide) rfl 1000 fun _ => 7
  have hcount := hdone (hworks arrayDevice_working)
  exact ⟨r, hr, hcount, hbytes 0 (by rw [hcount]; decide), houtside 412 (by decide)⟩

end BdmAssault.FatFs
