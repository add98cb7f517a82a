import BdmAssault.FatFs.Reading
import BdmAssault.FatFs.Writing

/-! # Rounds of `f_write`

A round that begins at the end of the last cluster takes a new one from the table; every other
round stays in a cluster that the file has. Of a round that fails the volume shows no more
than sectors that were to be written as a whole.
-/

namespace BdmAssault.FatFs

open Lib

section Rounds

variable {σ ι : Type} {bd : DeviceOps σ (Nat → UInt8)} {contents : σ → UInt64 → Nat → UInt8} {fs : MountedFs}
  {l : List Nat} {w : Win σ}

/-! ## Rounds that fail -/

theorem writeSectors_works (hworks : Working bd) (sect : UInt64) {cc : UInt32} (hcc : cc.toNat < 65536)
    (data : Nat → UInt8) (pos : Nat) (w : Win σ) : (writeSectors bd fs sect cc data pos w).1 = true := by
  have hwrite : (diskWrite bd fs sect cc data pos w).1 = true := by
    refine decide_eq_true ?_
    rw [hworks.writes, UInt32.toNat_toUInt16]
    exact congrArg Int.ofNat (Nat.mod_eq_of_lt hcc)
  unfold writeSectors
  dsimp only
  split
  · exact hwrite
  · exact hwrite

/-- Sectors that could not all be written. -/
theorem writeSectors_failed (hbd : HasSectors bd contents) (sect : UInt64) {cc : UInt32} (hcc : cc.toNat < 65536)
    (data : Nat → UInt8) (pos : Nat) (hfail : (writeSectors bd fs sect cc data pos w).1 = false) :
    ∀ x, (∀ j < cc.toNat, x ≠ sect + .ofNat j) →
      view contents (writeSectors bd fs sect cc data pos w).2 x = view contents w x := by
  obtain ⟨-, hkeeps⟩ := @diskWrite_spec _ _ _ fs hbd sect _ hcc data pos w
  have hwin : (diskWrite bd fs sect cc data pos w).2.win = w.win ∧
      (diskWrite bd fs sect cc data pos w).2.winsect = w.winsect ∧
      (diskWrite bd fs sect cc data pos w).2.wflag = w.wflag := ⟨rfl, rfl, rfl⟩
  unfold writeSectors at hfail ⊢
  generalize diskWrite bd fs sect cc data pos w = r at hkeeps hwin hfail
  obtain ⟨ok, w'⟩ := r
  dsimp only at hkeeps hwin hfail ⊢
  obtain ⟨hwin, hwinsect, hwflag⟩ := hwin
  intro x hx
  split at hfail
  · rename_i hok
    exact absurd (hok.1.symm.trans hfail) (by decide)
  · rename_i hok
    rw [if_neg hok]
    dsimp only
    unfold view
    rw [hwflag, hwinsect, hwin, hkeeps x hx]

/-- A round that fails leaves the position where it was. On the volume no more has changed than
sectors of the file that were to be written as a whole. -/
structure RoundFailed (bd : DeviceOps σ (Nat → UInt8)) (contents : σ → UInt64 → Nat → UInt8) (fs : MountedFs)
    (l : List Nat) (a : Alloc σ) (fp : FileObject) (btw : UInt32) (res : Nat) (r : Wrote σ) : Prop where
  res : res = frDiskErr
  broken : ¬ Working bd
  file : r.file = { fp with sect := r.file.sect }
  counted : r.alloc = { a with win := r.alloc.win }
  outside : ∀ x, ¬ fs.inMirror x → (∀ q < l.length * fs.csize.toNat, fp.fptr.toNat ≤ q * fs.ssize.toNat →
    (q + 1) * fs.ssize.toNat ≤ fp.fptr.toNat + btw.toNat → x ≠ sectorAt fs l q) →
      view contents r.alloc.win x = view contents a.win x

theorem writePart_failed (hbd : HasSectors bd contents) (hlaid : Laid fs) (hclusters : Clusters fs l)
    (fp : FileObject) {a : Alloc σ} (h : Coherent contents fs a.win)
    (hq : fp.fptr.toNat / fs.ssize.toNat < l.length * fs.csize.toNat)
    (hsect : fp.sect = sectorAt fs l (fp.fptr.toNat / fs.ssize.toNat)) {btw : UInt32} (data : Nat → UInt8) (pos : Nat)
    {res : Nat} (hend : (writePart bd fs btw data pos fp a).ending = .aborted res) :
    RoundFailed bd contents fs l a fp btw res (writePart bd fs btw data pos fp a) := by
  obtain ⟨hvalid, hout⟩ := hclusters.sector_outside hlaid hq
  rw [← hsect] at hvalid hout
  unfold writePart at hend ⊢
  dsimp only at hend ⊢
  generalize (if btw < fs.ssize.toUInt32 - fp.fptr.toUInt32 % fs.ssize.toUInt32 then btw
    else fs.ssize.toUInt32 - fp.fptr.toUInt32 % fs.ssize.toUInt32) = wcnt at hend ⊢
  generalize hf : (fun win => copyBytes win (fp.fptr.toUInt32 % fs.ssize.toUInt32).toNat wcnt.toNat
    fun i => data (pos + i)) = f at hend ⊢
  have hedit := editWin_spec hbd hlaid.placed h hvalid hout f
  have hworks : Working bd → (editWin bd fs fp.sect f a.win).1 = frOk := fun hworks => editWin_works hworks _ _ _
  split at hend
  · rename_i herr
    cases hend
    rw [if_pos herr]
    refine ⟨rfl, fun hw => herr (hworks hw), rfl, rfl, fun x hx _ => ?_⟩
    rcases hedit.res with ⟨hok, -⟩ | ⟨-, hsame⟩
    · exact absurd hok herr
    · exact hsame x hx
  · cases hend

theorem RoundFailed.of_same {a : Alloc σ} {w' : Win σ} {fp : FileObject} {btw : UInt32} {res : Nat} {r : Wrote σ}
    (hsame : SameView contents fs a.win w') (h : RoundFailed bd contents fs l { a with win := w' } fp btw res r) :
    RoundFailed bd contents fs l a fp btw res r :=
  ⟨h.res, h.broken, h.file, h.counted, fun x hx hnone => (h.outside x hx hnone).trans (hsame x hx)⟩

/-- The sectors that are written at once are inside of what is to be written. -/
theorem sector_inside {q j cc btw : Nat} (hj : j < cc) (hle : fs.ssize.toNat * cc ≤ btw) :
    q * fs.ssize.toNat ≤ (q + j) * fs.ssize.toNat ∧
      (q + j + 1) * fs.ssize.toNat ≤ q * fs.ssize.toNat + btw := by
  have hmul := Nat.mul_le_mul_right fs.ssize.toNat (Nat.succ_le_of_lt hj)
  rw [Nat.mul_comm cc] at hmul
  refine ⟨Nat.mul_le_mul_right _ (Nat.le_add_right q j), ?_⟩
  rw [Nat.add_assoc, Nat.add_mul]
  exact Nat.add_le_add_left (Nat.le_trans hmul hle) _

theorem writeSector_failed (hbd : HasSectors bd contents) (hlaid : Laid fs) (hclusters : Clusters fs l)
    (fp : FileObject) {a : Alloc σ} (h : Coherent contents fs a.win) (hbound : fp.fptr.toNat % fs.ssize.toNat = 0)
    (hq : fp.fptr.toNat / fs.ssize.toNat < l.length * fs.csize.toNat)
    (hclust : fp.clust = clusterAt l (fp.fptr.toNat / clusterBytes fs)) {btw : UInt32} (data : Nat → UInt8) (pos : Nat)
    {res : Nat} (hend : (writeSector bd fs btw data pos (csect fs fp.fptr) fp a).ending = .aborted res) :
    RoundFailed bd contents fs l a fp btw res (writeSector bd fs btw data pos (csect fs fp.fptr) fp a) := by
  have hcsect := csect_toNat fs fp.fptr
  obtain ⟨hin, hrange, hsect⟩ := sector_of_position hclusters fp hq hclust
  have hsync := syncWindow_if hbd h (a.win.winsect = fp.sect)
  unfold writeSector at hend ⊢
  generalize (if a.win.winsect = fp.sect then syncWindow bd fs a.win else (frOk, a.win)) = r at hsync hend ⊢
  obtain ⟨res', w'⟩ := r
  obtain ⟨hsame, hcoherent, hworks⟩ := hsync
  dsimp only at hsame hcoherent hworks hend ⊢
  by_cases hres : res' ≠ frOk
  · rw [if_pos hres] at hend ⊢
    cases hend
    exact ⟨rfl, fun hw => hres (hworks hw), rfl, rfl, fun x hx _ => hsame x hx⟩
  rw [if_neg hres, if_neg (clst2sect_ne_zero hlaid hrange), hsect] at hend ⊢
  refine RoundFailed.of_same hsame ?_
  by_cases hwhole : 0 < btw / fs.ssize.toUInt32
  · rw [if_pos hwhole] at hend ⊢
    obtain ⟨-, hle, hclip⟩ := clip_spec fs hin hwhole
    generalize (if fs.csize.toUInt32 < csect fs fp.fptr + btw / fs.ssize.toUInt32 then
      fs.csize.toUInt32 - csect fs fp.fptr else btw / fs.ssize.toUInt32) = cc at hle hclip hend ⊢
    rw [hcsect] at hclip
    have hcsize : fs.csize.toNat < 65536 := fs.csize.toNat_lt
    have hfew : cc.toNat < 65536 := by omega
    have hfailed := @writeSectors_failed _ bd contents fs w' hbd (sectorAt fs l (fp.fptr.toNat / fs.ssize.toNat)) cc
      hfew data pos
    have hok : Working bd → (writeSectors bd fs (sectorAt fs l (fp.fptr.toNat / fs.ssize.toNat)) cc data pos w').1 =
      true := fun hw => writeSectors_works hw _ hfew data pos w'
    generalize writeSectors bd fs _ cc data pos w' = r at hfailed hok hend ⊢
    obtain ⟨ok, w''⟩ := r
    cases ok with
    | true => cases hend
    | false =>
        cases hend
        refine ⟨rfl, fun hw => Bool.false_ne_true (hok hw), rfl, rfl, fun x hx hnone => ?_⟩
        refine hfailed rfl x fun j hj heq => ?_
        obtain ⟨hlow, hhigh⟩ := @sector_inside fs (fp.fptr.toNat / fs.ssize.toNat) j cc.toNat btw.toNat hj hle
        rw [Nat.div_mul_cancel (Nat.dvd_of_mod_eq_zero hbound)] at hlow hhigh
        refine hnone _ ?_ hlow hhigh (heq.trans (sectorAt_add fs l (by omega)))
        have hlast := cluster_end hq hclip
        omega
  · rw [if_neg hwhole] at hend ⊢
    unfold growWindow at hend ⊢
    by_cases hgrow : fp.obj.objsize ≤ fp.fptr
    · rw [if_pos hgrow] at hend ⊢
      dsimp only at hend ⊢
      by_cases hok : (syncWindow bd fs w').1 ≠ frOk
      · rw [if_pos hok] at hend ⊢
        cases hend
        exact ⟨rfl, fun hw => hok (syncWindow_works hw _), rfl, rfl,
          fun x hx _ => by rw [if_neg hok]; exact (syncWindow_spec hbd hcoherent).same x hx⟩
      · -- the window is at the sector already
        rw [if_neg hok, if_pos (not_not.mp hok)] at hend
        unfold writePart editWin moveWindow at hend
        dsimp only at hend
        rw [if_neg (not_not.mpr rfl)] at hend
        cases hend
    · rw [if_neg hgrow] at hend ⊢
      dsimp only at hend ⊢
      rw [if_neg (not_not.mpr rfl)] at hend ⊢
      have hpart := writePart_failed hbd hlaid hclusters
        { fp with sect := sectorAt fs l (fp.fptr.toNat / fs.ssize.toNat) } (a := { a with win := w' }) hcoherent hq rfl
        data pos hend
      exact ⟨hpart.res, hpart.broken, hpart.file, hpart.counted, hpart.outside⟩

theorem writePart_not_full (fp : FileObject) (a : Alloc σ) (btw : UInt32) (data : Nat → UInt8) (pos : Nat) :
    (writePart bd fs btw data pos fp a).ending ≠ .full := by
  intro hfull
  unfold writePart at hfull
  dsimp only at hfull
  generalize (if btw < fs.ssize.toUInt32 - fp.fptr.toUInt32 % fs.ssize.toUInt32 then btw
    else fs.ssize.toUInt32 - fp.fptr.toUInt32 % fs.ssize.toUInt32) = wcnt at hfull
  split at hfull
  · cases hfull
  · cases hfull

/-- Only the search for a cluster finds the volume full. -/
theorem writeSector_not_full (fp : FileObject) (a : Alloc σ) (btw csect : UInt32) (data : Nat → UInt8) (pos : Nat) :
    (writeSector bd fs btw data pos csect fp a).ending ≠ .full := by
  intro hfull
  unfold writeSector at hfull
  generalize (if a.win.winsect = fp.sect then syncWindow bd fs a.win else (frOk, a.win)) = r at hfull
  obtain ⟨res, w'⟩ := r
  dsimp only at hfull
  split at hfull
  · cases hfull
  split at hfull
  · cases hfull
  by_cases hwhole : 0 < btw / fs.ssize.toUInt32
  · rw [if_pos hwhole] at hfull
    generalize (if fs.csize.toUInt32 < csect + btw / fs.ssize.toUInt32 then fs.csize.toUInt32 - csect
      else btw / fs.ssize.toUInt32) = cc at hfull
    split at hfull
    · cases hfull
    · cases hfull
  · rw [if_neg hwhole] at hfull
    split at hfull
    · cases hfull
    · exact writePart_not_full _ _ _ _ _ hfull

/-! ## Clusters at the end of the file -/

section Growing

variable [DecidableEq ι] {s : Disk σ ι} {i : ι} {fp : FileObject} {k : Nat}

/-- The file `i` may have more clusters than before; only the tables have changed. -/
structure Grown (contents : σ → UInt64 → Nat → UInt8) (fs : MountedFs) (s : Disk σ ι) (i : ι) (a : Alloc σ)
    (l : List Nat) : Prop where
  longer : s.files i <+: l
  kept : Undisturbed contents fs s.alloc.win a.win
  sound : Sound contents fs ⟨a, Function.update s.files i l⟩

theorem Grown.refl (h : Sound contents fs s) : Grown contents fs s i s.alloc (s.files i) := by
  refine ⟨List.prefix_refl _, ⟨h.coherent, fun _ _ _ => rfl⟩, ?_⟩
  rw [Function.update_eq_self]
  exact h

/-- What the search for cluster `k` of the file `i` has come to. With `broken` an access of the
device has failed, or the table is damaged. -/
inductive Sought (bd : DeviceOps σ (Nat → UInt8)) (contents : σ → UInt64 → Nat → UInt8) (fs : MountedFs) (s : Disk σ ι)
    (i : ι) (mapped : Bool) (k : Nat) (a : Alloc σ) : List Nat → UInt32 → Prop where
  | found {l : List Nat} (hk : k < l.length)
      (hmap : mapped = true → ∀ j, 0 < j → clusterAt l j = clusterAt (s.files i) j) :
      Sought bd contents fs s i mapped k a l (clusterAt l k)
  | full (hk : k = (s.files i).length) (hfull : mapped = true ∨ a.freeClst = 0 ∨
      ∀ d, 2 ≤ d → d < fs.nFatent.toNat → chainTable contents fs a.win d ≠ .free) :
      Sought bd contents fs s i mapped k a (s.files i) 0
  | broken {clst : UInt32} (hclst : clst = 1 ∨ clst = 0xFFFFFFFF) (hk : Working bd → (s.files i).length ≤ k) :
      Sought bd contents fs s i mapped k a (s.files i) clst

omit [DecidableEq ι] in
/-- The end of a chain is where its list ends. -/
theorem Sound.last_length (h : Sound contents fs s) {j : Nat} (hj : j < (s.files i).length)
    (hlast : chainTable contents fs s.alloc.win (clusterAt (s.files i) j).toNat = .last) :
    (s.files i).length = j + 1 := by
  rw [(h.clusters i).toNat hj] at hlast
  by_contra hne
  have hlink := (h.owned.chain i (List.ne_nil_of_length_pos (Nat.zero_lt_of_lt hj))).link_getElem
    (show j + 1 < (s.files i).length by omega)
  rw [hlast] at hlink
  cases hlink

/-- `create_chain` for a file that has no cluster, or behind one that it has. -/
theorem createChain_sought (hbd : HasSectors bd contents) (hplaced : fs.Placed) (hwhole : Unbroken bd fs)
    (hexfat : fs.fsType ≠ .exfat) (hsize : 3 ≤ fs.nFatent.toNat) (h : Sound contents fs s) (obj : ObjId)
    {clst : UInt32} (hplace : clst = 0 ∧ s.files i = [] ∧ k = 0 ∨
      ∃ j, k = j + 1 ∧ j < (s.files i).length ∧ clst = clusterAt (s.files i) j) {mapped : Bool}
    (hmapped : mapped = true → s.files i = []) :
    ∃ ret a l, createChain bd fs obj clst s.alloc = some (ret, obj, a) ∧ Grown contents fs s i a l ∧
      Sought bd contents fs s i mapped k a l ret := by
  have hclusters := h.clusters i
  have hallowed : ChainCall.Allowed fs s (.create i obj clst) := by
    rcases hplace with ⟨hzero, hnil, -⟩ | ⟨j, -, hj, rfl⟩
    · exact .inl ⟨hzero, hnil⟩
    · refine .inr ?_
      rw [hclusters.toNat hj]
      exact List.getElem_mem hj
  -- the place of the new cluster is the end of the list
  have hend : clst = 0 ∨ chainTable contents fs s.alloc.win clst.toNat = .last → k = (s.files i).length := by
    intro hlast
    rcases hplace with ⟨-, hnil, hk⟩ | ⟨j, hk, hj, rfl⟩
    · rw [hnil, hk]
      rfl
    · rw [hk]
      refine (h.last_length hj (hlast.resolve_left fun hzero => ?_)).symm
      have hrange := hclusters.inRange hj
      rw [hzero] at hrange
      exact absurd hrange.1 (by decide)
  obtain ⟨ret, a, hcreate, hkept, hcreated⟩ :=
    createChain_spec hbd hplaced hwhole hexfat hsize h.coherent obj clst
  have hsound := created_sound h hallowed hkept.coherent hcreated
  refine ⟨ret, a, _, hcreate, ⟨?_, hkept, hsound⟩, ?_⟩
  · unfold stretched
    split
    · exact List.prefix_append _ _
    · exact List.prefix_refl _
  cases hcreated with
  | followed hlink hrange hT hfree =>
      rw [h.stretched_linked hlink]
      rcases hplace with ⟨rfl, -, -⟩ | ⟨j, rfl, hj, rfl⟩
      · exact absurd hlink chainTable_nil
      · rw [hclusters.toNat hj] at hlink
        have hchain := h.owned.chain i (List.ne_nil_of_length_pos (Nat.zero_lt_of_lt hj))
        have hlt : j + 1 < (s.files i).length := by
          by_contra hnot
          rw [hchain.last_getElem hj (by omega)] at hlink
          cases hlink
        rw [hchain.link_getElem hlt, ← hclusters.toNat hlt] at hlink
        rw [← UInt32.toNat_inj.mp (Cell.link.inj hlink)]
        exact .found hlt fun _ _ _ => rfl
  | full hlast hfull hT hfree =>
      rw [stretched_out fun hor => absurd hor.1 (by decide)]
      refine .full (hend hlast) (.inr ?_)
      rw [hT, hfree]
      exact hfull
  | taken hlast hncl hT hpos hfree =>
      rw [(h.stretched_last hallowed (chainTable_free hncl) hlast).1]
      have hlt : (s.files i).length < (s.files i ++ [ret.toNat]).length := by
        rw [List.length_append]
        exact Nat.lt_succ_self _
      have hfound : Sought bd contents fs s i mapped (s.files i).length a (s.files i ++ [ret.toNat])
          (clusterAt (s.files i ++ [ret.toNat]) (s.files i).length) := by
        refine .found hlt fun hmap j hj => ?_
        rw [hmapped hmap]
        exact clusterAt_single _ hj
      rw [hend hlast]
      rwa [clusterAt_length] at hfound
  | failed hret hT hfree =>
      rw [stretched_out (errors_out fs hret)]
      refine .broken hret fun hworks => Nat.le_of_not_lt fun hlt => ?_
      rcases hplace with ⟨-, hnil, -⟩ | ⟨j, rfl, hj, rfl⟩
      · rw [hnil] at hlt
        exact absurd hlt (Nat.not_lt_zero _)
      · have hlink := (h.owned.chain i (List.ne_nil_of_length_pos (Nat.zero_lt_of_lt hj))).link_getElem hlt
        rw [← hclusters.toNat hj] at hlink
        obtain ⟨cs, w, hfollow, hcs⟩ := createChain_followed hbd hworks hplaced hexfat h.coherent obj hlink
        rw [hcreate] at hfollow
        cases hfollow
        exact errors_out fs hret hcs

/-- The cluster that a round at the beginning of a cluster writes to. -/
theorem stretchClust_sought (hbd : HasSectors bd contents) (hplaced : fs.Placed) (hwhole : Unbroken bd fs)
    (hexfat : fs.fsType ≠ .exfat) (hsize : 3 ≤ fs.nFatent.toNat) (h : Sound contents fs s)
    (htracks : Tracks fs (s.files i) fp) (hbound : fp.fptr.toNat % clusterBytes fs = 0) :
    ∃ clst a l, stretchClust bd fs fp s.alloc = some (clst, fp.obj, a) ∧ Grown contents fs s i a l ∧
      Sought bd contents fs s i fp.cltbl.isSome (fp.fptr.toNat / clusterBytes fs) a l clst := by
  have hclusters := h.clusters i
  unfold stretchClust
  by_cases hzero : fp.fptr = 0
  · have hk : fp.fptr.toNat / clusterBytes fs = 0 := by
      rw [hzero]
      exact Nat.zero_div _
    rw [if_pos hzero, hk]
    by_cases hnil : s.files i = []
    · have hsclust : fp.obj.sclust = 0 := by
        rw [htracks.sclust, hnil]
        rfl
      rw [if_pos hsclust]
      exact createChain_sought hbd hplaced hwhole hexfat hsize h fp.obj (.inl ⟨rfl, hnil, rfl⟩) fun _ => hnil
    · have hpos := List.length_pos_of_ne_nil hnil
      have hsclust : fp.obj.sclust ≠ 0 := by
        have hrange := hclusters.inRange hpos
        rw [htracks.sclust]
        intro heq
        rw [heq] at hrange
        exact absurd hrange.1 (by decide)
      rw [if_neg hsclust, htracks.sclust]
      exact ⟨_, _, _, rfl, .refl h, .found hpos fun _ _ _ => rfl⟩
  · rw [if_neg hzero]
    have hne : 0 < fp.fptr.toNat := Nat.pos_of_ne_zero fun heq => hzero (UInt64.toNat_inj.mp heq)
    have hpred := pred_div_of_eq hbound hne
    have hle : fp.fptr.toNat / clusterBytes fs ≤ (s.files i).length := by
      refine Nat.div_le_of_le_mul ?_
      rw [Nat.mul_comm]
      exact Nat.le_trans htracks.inside htracks.room
    cases htbl : fp.cltbl with
    | some tbl =>
        have hmap := htracks.map tbl htbl (fp.fptr.toNat / clusterBytes fs) (hpred ▸ Nat.succ_pos _)
          (Nat.lt_of_le_of_lt hle (h.few i))
        dsimp only
        rw [cluster_index, hmap]
        refine ⟨_, _, _, rfl, .refl h, ?_⟩
        rcases Nat.lt_or_eq_of_le hle with hlt | heq
        · exact .found hlt fun _ _ _ => rfl
        · rw [heq]
          have hout : clusterAt (s.files i) (s.files i).length = 0 := by
            unfold clusterAt
            rw [List.getElem?_eq_none (Nat.le_refl _)]
            rfl
          rw [hout]
          exact .full rfl (.inl rfl)
    | none =>
        dsimp only
        have hlast : (fp.fptr.toNat - 1) / clusterBytes fs < (s.files i).length :=
          Nat.lt_of_lt_of_le (Nat.lt_of_succ_le (Nat.le_of_eq hpred)) hle
        exact createChain_sought hbd hplaced hwhole hexfat hsize h fp.obj
          (.inr ⟨_, hpred.symm, hlast, htracks.position.clust hne⟩) nofun

end Growing

/-! ## What is in the file -/

/-- The bytes `src` are in the file from `ofs` on. Of the `size` bytes that it had before only
those up to `top` may be others, and on the volume only the tables besides. -/
structure Filled (contents : σ → UInt64 → Nat → UInt8) (fs : MountedFs) (l : List Nat) (w w' : Win σ)
    (ofs count top : Nat) (src : Nat → UInt8) (size : Nat) : Prop where
  inside : ∀ j < count, fileByte contents fs w' (clusterAt l) (ofs + j) = src j
  beyond : ∀ k < size, k < ofs ∨ top ≤ k →
    fileByte contents fs w' (clusterAt l) k = fileByte contents fs w (clusterAt l) k
  outside : ∀ x, ¬ fs.inMirror x → (∀ k < fs.fsType.tableSize fs.nFatent.toNat, x ≠ tableSector fs k) →
    (∀ q < l.length * fs.csize.toNat, x ≠ sectorAt fs l q) → view contents w' x = view contents w x

theorem Undisturbed.fileByte {w w' : Win σ} (h : Undisturbed contents fs w w') (hlaid : Laid fs)
    (hexfat : fs.fsType ≠ .exfat) (hclusters : Clusters fs l) {k : Nat} (hk : k < l.length * clusterBytes fs) :
    FatFs.fileByte contents fs w' (clusterAt l) k = FatFs.fileByte contents fs w (clusterAt l) k := by
  have hq := div_ssize_lt hk
  rw [fileByte_eq, fileByte_eq, h.data _ (hclusters.sector_outside hlaid hq).2
    fun _ hi => hclusters.sector_table hlaid hexfat hq hi]

section Filling

variable {w w₁ w' : Win σ} {ofs count top size : Nat} {src : Nat → UInt8}

theorem Undisturbed.filled (h : Undisturbed contents fs w w') (hlaid : Laid fs) (hexfat : fs.fsType ≠ .exfat)
    (hclusters : Clusters fs l) (hsize : size ≤ l.length * clusterBytes fs) :
    Filled contents fs l w w' ofs 0 top src size :=
  ⟨fun j hj => absurd hj (Nat.not_lt_zero j),
    fun _ hk _ => h.fileByte hlaid hexfat hclusters (Nat.lt_of_lt_of_le hk hsize),
    fun x hx htable _ => h.data x hx htable⟩

/-- A round that writes, after the tables may have changed. -/
theorem Stored.filled (h : Stored contents fs l w₁ w' ofs count src size) (hkept : Undisturbed contents fs w w₁)
    (hlaid : Laid fs) (hexfat : fs.fsType ≠ .exfat) (hclusters : Clusters fs l)
    (hsize : size ≤ l.length * clusterBytes fs) : Filled contents fs l w w' ofs count (ofs + count) src size :=
  ⟨h.inside,
    fun k hk hout => (h.beyond k hk hout).trans
      (hkept.fileByte hlaid hexfat hclusters (Nat.lt_of_lt_of_le hk hsize)),
    fun x hx htable hnone => (h.outside x hx hnone).trans (hkept.data x hx htable)⟩

/-- A round that fails. -/
theorem RoundFailed.filled {a : Alloc σ} {fp : FileObject} {btw : UInt32} {res : Nat} {r : Wrote σ}
    (h : RoundFailed bd contents fs l a fp btw res r) (hkept : Undisturbed contents fs w a.win) (hlaid : Laid fs)
    (hexfat : fs.fsType ≠ .exfat) (hclusters : Clusters fs l) (hsize : size ≤ l.length * clusterBytes fs) :
    Filled contents fs l w r.alloc.win fp.fptr.toNat 0 (fp.fptr.toNat + btw.toNat) src size := by
  refine ⟨fun j hj => absurd hj (Nat.not_lt_zero j), fun k hk hout => ?_, fun x hx htable hnone => ?_⟩
  · have hk' := Nat.lt_of_lt_of_le hk hsize
    have hq := div_ssize_lt hk'
    have hsplit := Nat.div_add_mod' k fs.ssize.toNat
    have hmod := Nat.mod_lt k fs.ssize_pos
    rw [← hkept.fileByte hlaid hexfat hclusters hk', fileByte_eq, fileByte_eq]
    refine congrFun (h.outside _ (hclusters.sector_outside hlaid hq).2 fun q hq' hlow hhigh heq => ?_) _
    obtain rfl := hclusters.sector_inj hlaid hq hq' heq
    rw [Nat.succ_mul] at hhigh
    omega
  · exact (h.outside x hx fun q hq _ _ => hnone q hq).trans (hkept.data x hx htable)

/-- Data that is written leaves the table as it is. -/
theorem chainTable_written (hlaid : Laid fs) (hexfat : fs.fsType ≠ .exfat) (hclusters : Clusters fs l)
    (h : ∀ x, ¬ fs.inMirror x → (∀ q < l.length * fs.csize.toNat, x ≠ sectorAt fs l q) →
      view contents w' x = view contents w x) : chainTable contents fs w' = chainTable contents fs w :=
  chainTable_congr fun _ hk => h _ (tableSector_outside hlaid.placed hk).2
    fun _ hq => (hclusters.sector_table hlaid hexfat hq hk).symm

/-- One piece behind another. The second one may be in a longer file. -/
theorem Filled.trans {r : List Nat} {n : Nat} (h : Filled contents fs l w w₁ ofs count (ofs + count) src size)
    (h' : Filled contents fs (l ++ r) w₁ w' (ofs + count) n top (fun j => src (count + j)) (max size (ofs + count)))
    (hsize : size ≤ l.length * clusterBytes fs) (hend : ofs + count ≤ l.length * clusterBytes fs)
    (htop : ofs + count ≤ top) : Filled contents fs (l ++ r) w w' ofs (count + n) top src size := by
  refine ⟨fun j hj => ?_, fun k hk hout => ?_, fun x hx htable hnone => ?_⟩
  · by_cases hfst : j < count
    · rw [h'.beyond _ (by omega) (.inl (by omega)), fileByte_append _ (by omega), h.inside j hfst]
    · have hsnd := h'.inside (j - count) (by omega)
      rwa [show ofs + count + (j - count) = ofs + j by omega, show count + (j - count) = j by omega] at hsnd
  · rw [h'.beyond k (by omega) (by omega), fileByte_append _ (by omega), fileByte_append _ (by omega),
      h.beyond k hk (by omega)]
  · refine (h'.outside x hx htable hnone).trans (h.outside x hx htable fun q hq => ?_)
    rw [← sectorAt_append (r := r) hq]
    exact hnone q (Nat.lt_of_lt_of_le hq (Nat.mul_le_mul_right _ (by rw [List.length_append]; omega)))

end Filling

/-! ## One round -/

/-- How a round in a cluster of the file ends. -/
structure RoundEnds (bd : DeviceOps σ (Nat → UInt8)) (contents : σ → UInt64 → Nat → UInt8) (fs : MountedFs)
    (l : List Nat) (a : Alloc σ) (fp : FileObject) (btw : UInt32) (src : Nat → UInt8) (size : Nat) (r : Wrote σ) :
    Prop where
  written : ∀ count, r.ending = .written count → RoundWritten contents fs l a fp btw count src size r
  failed : ∀ res, r.ending = .aborted res → RoundFailed bd contents fs l a fp btw res r
  not_full : r.ending ≠ .full

section Ending

variable {fp : FileObject} {a : Alloc σ} {btw : UInt32}

theorem writeSector_ends (hbd : HasSectors bd contents) (hlaid : Laid fs) (hclusters : Clusters fs l)
    (h : Coherent contents fs a.win) (hbound : fp.fptr.toNat % fs.ssize.toNat = 0)
    (hq : fp.fptr.toNat / fs.ssize.toNat < l.length * fs.csize.toNat)
    (hclust : fp.clust = clusterAt l (fp.fptr.toNat / clusterBytes fs))
    (hsize : fp.obj.objsize.toNat ≤ l.length * clusterBytes fs) (hbtw : btw ≠ 0) (data : Nat → UInt8) (pos : Nat) :
    RoundEnds bd contents fs l a fp btw (fun i => data (pos + i)) fp.obj.objsize.toNat
      (writeSector bd fs btw data pos (csect fs fp.fptr) fp a) where
  written _ hend := writeSector_written hbd hlaid hclusters fp h hbound hq hclust hsize hbtw data pos hend
  failed _ hend := writeSector_failed hbd hlaid hclusters fp h hbound hq hclust data pos hend
  not_full := writeSector_not_full fp a btw _ data pos

theorem writePart_ends (hbd : HasSectors bd contents) (hlaid : Laid fs) (hclusters : Clusters fs l)
    (h : Coherent contents fs a.win) (hq : fp.fptr.toNat / fs.ssize.toNat < l.length * fs.csize.toNat)
    (hclust : fp.clust = clusterAt l (fp.fptr.toNat / clusterBytes fs))
    (hsect : fp.sect = sectorAt fs l (fp.fptr.toNat / fs.ssize.toNat))
    (hsize : fp.obj.objsize.toNat ≤ l.length * clusterBytes fs) (hbtw : btw ≠ 0) (data : Nat → UInt8) (pos : Nat) :
    RoundEnds bd contents fs l a fp btw (fun i => data (pos + i)) fp.obj.objsize.toNat
      (writePart bd fs btw data pos fp a) where
  written _ hend := writePart_written hbd hlaid hclusters fp h hq hclust hsect hsize hbtw data pos hend
  failed _ hend := writePart_failed hbd hlaid hclusters fp h hq hsect data pos hend
  not_full := writePart_not_full fp a btw data pos

/-- `f_write` masks after the conversion, `f_read` before it. -/
theorem csect_eq (fs : MountedFs) (fptr : UInt64) :
    (fptr / fs.ssize.toUInt64).toUInt32 &&& (fs.csize.toUInt32 - 1) = csect fs fptr := by
  unfold csect
  rw [UInt64.toUInt32_and, UInt64.toUInt32_sub, UInt16.toUInt32_toUInt64]
  rfl

theorem csect_eq_zero (fs : MountedFs) {fptr : UInt64} (hbound : fptr.toNat % fs.ssize.toNat = 0) :
    csect fs fptr = 0 ↔ fptr.toNat % clusterBytes fs = 0 := by
  rw [mod_clusterBytes fs hbound, ← csect_toNat, ← UInt32.toNat_inj]
  rfl

theorem sector_boundary (fs : MountedFs) (fptr : UInt64) :
    fptr % fs.ssize.toUInt64 = 0 ↔ fptr.toNat % fs.ssize.toNat = 0 := by
  rw [← UInt64.toNat_inj, UInt64.toNat_mod, UInt16.toNat_toUInt64]
  rfl

/-- A round inside of a cluster that the file has. -/
theorem writeRound_inside (hbd : HasSectors bd contents) (hlaid : Laid fs) (hclusters : Clusters fs l)
    (h : Coherent contents fs a.win) (hpos : Positioned fs (clusterAt l) fp)
    (hinside : fp.fptr.toNat % clusterBytes fs ≠ 0) (hfits : fp.fptr.toNat < l.length * clusterBytes fs)
    (hsize : fp.obj.objsize.toNat ≤ l.length * clusterBytes fs) (hbtw : btw ≠ 0) (data : Nat → UInt8) (pos : Nat) :
    ∃ r, writeRound bd fs btw data pos fp a = some r ∧
      RoundEnds bd contents fs l a fp btw (fun i => data (pos + i)) fp.obj.objsize.toNat r := by
  have hq := div_ssize_lt hfits
  have hsome : 0 < fp.fptr.toNat := Nat.pos_of_ne_zero fun heq => hinside (by rw [heq, Nat.zero_mod])
  have hclust : fp.clust = clusterAt l (fp.fptr.toNat / clusterBytes fs) := by
    rw [hpos.clust hsome, pred_div_of_ne hinside]
  unfold writeRound
  rw [csect_eq]
  by_cases hbound : fp.fptr % fs.ssize.toUInt64 = 0
  · rw [if_pos hbound]
    rw [sector_boundary] at hbound
    dsimp only
    rw [if_neg fun hzero => hinside ((csect_eq_zero fs hbound).mp hzero)]
    exact ⟨_, rfl, writeSector_ends hbd hlaid hclusters h hbound hq hclust hsize hbtw data pos⟩
  · rw [if_neg hbound]
    rw [sector_boundary] at hbound
    refine ⟨_, rfl, writePart_ends hbd hlaid hclusters h hq hclust ?_ hsize hbtw data pos⟩
    rw [hpos.sect hbound, div_clusterBytes]
    rfl

end Ending

section Round

variable [DecidableEq ι] {s : Disk σ ι} {i : ι} {fp : FileObject} {btw : UInt32}

/-- The file in the cluster `clust`, with `first` as its first one. -/
def FileObject.enter (fp : FileObject) (clust first : UInt32) : FileObject :=
  { fp with clust := clust, obj := { fp.obj with sclust := first } }

/-- What a round can come to. Only at the beginning of a cluster the file may get one first. -/
inductive Rounded (bd : DeviceOps σ (Nat → UInt8)) (contents : σ → UInt64 → Nat → UInt8) (fs : MountedFs)
    (s : Disk σ ι) (i : ι) (fp : FileObject) (btw : UInt32) (src : Nat → UInt8) (r : Wrote σ) : Prop where
  | inside {l : List Nat} {a : Alloc σ} (clust : UInt32) (hgrown : Grown contents fs s i a l)
      (hmap : fp.cltbl.isSome = true → ∀ j, 0 < j → clusterAt l j = clusterAt (s.files i) j)
      (hends : RoundEnds bd contents fs l a (fp.enter clust (clusterAt l 0)) btw src fp.obj.objsize.toNat r)
  | full {a : Alloc σ} (hgrown : Grown contents fs s i a (s.files i)) (hr : r = ⟨.full, fp, a⟩)
      (hend : fp.fptr.toNat = (s.files i).length * clusterBytes fs) (hfull : fp.cltbl.isSome = true ∨ a.freeClst = 0 ∨
        ∀ d, 2 ≤ d → d < fs.nFatent.toNat → chainTable contents fs a.win d ≠ .free)
  | broken {a : Alloc σ} {res : Nat} (hgrown : Grown contents fs s i a (s.files i)) (hr : r = ⟨.aborted res, fp, a⟩)
      (hres : res = frDiskErr ∨ res = frIntErr)
      (hworks : Working bd → (s.files i).length * clusterBytes fs ≤ fp.fptr.toNat)

theorem clusterAt_of_longer {l l' : List Nat} {k : Nat} (h : l <+: l') (hk : k < l.length) :
    clusterAt l' k = clusterAt l k := by
  obtain ⟨r, rfl⟩ := h
  exact clusterAt_append hk

omit [DecidableEq ι] in
/-- The first cluster of a file is in `FIL`, or it has none. -/
theorem Sound.sclust_zero (h : Sound contents fs s) (htracks : Tracks fs (s.files i) fp) :
    fp.obj.sclust = 0 ↔ s.files i = [] := by
  rw [htracks.sclust]
  constructor
  · intro heq
    by_contra hnil
    have hrange := (h.clusters i).inRange (List.length_pos_of_ne_nil hnil)
    rw [heq] at hrange
    exact absurd hrange.1 (by decide)
  · intro hnil
    rw [hnil]
    rfl

/-- The first cluster after a round has found one. -/
theorem Grown.sclust {l : List Nat} {a : Alloc σ} (hgrown : Grown contents fs s i a l) (h : Sound contents fs s)
    (htracks : Tracks fs (s.files i) fp) :
    (if fp.obj.sclust = 0 then clusterAt l (fp.fptr.toNat / clusterBytes fs) else fp.obj.sclust) = clusterAt l 0 := by
  split
  · rename_i hzero
    have hnil := (h.sclust_zero htracks).mp hzero
    have hroom := htracks.room
    rw [hnil, List.length_nil, Nat.zero_mul] at hroom
    rw [Nat.le_zero.mp (Nat.le_trans htracks.inside hroom), Nat.zero_div]
  · rename_i hzero
    have hne : s.files i ≠ [] := fun hnil => hzero ((h.sclust_zero htracks).mpr hnil)
    rw [htracks.sclust]
    exact (clusterAt_of_longer hgrown.longer (List.length_pos_of_ne_nil hne)).symm

theorem Grown.room {l : List Nat} {a : Alloc σ} (hgrown : Grown contents fs s i a l)
    (htracks : Tracks fs (s.files i) fp) : fp.obj.objsize.toNat ≤ l.length * clusterBytes fs :=
  Nat.le_trans htracks.room (Nat.mul_le_mul_right _ hgrown.longer.length_le)

theorem Grown.clusters {l : List Nat} {a : Alloc σ} (hgrown : Grown contents fs s i a l) : Clusters fs l := by
  have hclusters := hgrown.sound.clusters i
  dsimp only at hclusters
  rwa [Function.update_self] at hclusters

theorem clusterBytes_pos (fs : MountedFs) : 0 < clusterBytes fs := Nat.mul_pos fs.csize_pos fs.ssize_pos

/-- A round at the beginning of a cluster. -/
theorem writeRound_beginning (hbd : HasSectors bd contents) (hlaid : Laid fs) (hwhole : Unbroken bd fs)
    (hexfat : fs.fsType ≠ .exfat) (hsize : 3 ≤ fs.nFatent.toNat) (h : Sound contents fs s)
    (htracks : Tracks fs (s.files i) fp) (hstart : fp.fptr.toNat % clusterBytes fs = 0) (hbtw : btw ≠ 0)
    (data : Nat → UInt8) (pos : Nat) : ∃ r, writeRound bd fs btw data pos fp s.alloc = some r ∧
      Rounded bd contents fs s i fp btw (fun i => data (pos + i)) r := by
  obtain ⟨clst, a, l, hstretch, hgrown, hsought⟩ :=
    stretchClust_sought hbd hlaid.placed hwhole hexfat hsize h htracks hstart
  have hroom := hgrown.room htracks
  have hbound : fp.fptr.toNat % fs.ssize.toNat = 0 := by
    unfold clusterBytes at hstart
    rw [Nat.mul_comm, Nat.mod_mul] at hstart
    exact (Nat.add_eq_zero_iff.mp hstart).1
  have hend : ∀ {n}, fp.fptr.toNat / clusterBytes fs = n → fp.fptr.toNat = n * clusterBytes fs := by
    rintro n rfl
    exact (Nat.div_mul_cancel (Nat.dvd_of_mod_eq_zero hstart)).symm
  unfold writeRound
  rw [csect_eq, if_pos ((sector_boundary fs fp.fptr).mpr hbound)]
  dsimp only
  rw [if_pos ((csect_eq_zero fs hbound).mpr hstart), hstretch]
  dsimp only
  cases hsought with
  | found hk hmap =>
      have hrange := hgrown.clusters.inRange hk
      obtain ⟨hlow, herr⟩ := inRange_found hrange
      have hfits : fp.fptr.toNat < l.length * clusterBytes fs := by
        rw [hend rfl]
        exact Nat.mul_lt_mul_of_pos_right hk (clusterBytes_pos fs)
      rw [if_neg, if_neg, if_neg herr, hgrown.sclust h htracks]
      · have hends := @writeSector_ends _ bd contents fs l
          (fp.enter (clusterAt l (fp.fptr.toNat / clusterBytes fs)) (clusterAt l 0)) a btw hbd hlaid hgrown.clusters
          hgrown.sound.coherent hbound (div_ssize_lt hfits) rfl hroom hbtw data pos
        exact ⟨_, rfl, .inside _ hgrown hmap hends⟩
      · intro hone
        rw [hone] at hlow
        exact hlow (by decide)
      · intro hzero
        rw [hzero] at hlow
        exact hlow (by decide)
  | full hk hfull =>
      rw [if_pos rfl]
      exact ⟨_, rfl, .full hgrown rfl (hend hk) hfull⟩
  | broken hclst hk =>
      have hbroken : Working bd → (s.files i).length * clusterBytes fs ≤ fp.fptr.toNat := by
        intro hworks
        rw [hend rfl]
        exact Nat.mul_le_mul_right _ (hk hworks)
      rcases hclst with rfl | rfl
      · exact ⟨_, rfl, .broken hgrown rfl (.inr rfl) hbroken⟩
      · exact ⟨_, rfl, .broken hgrown rfl (.inl rfl) hbroken⟩

theorem writeRound_rounded (hbd : HasSectors bd contents) (hlaid : Laid fs) (hwhole : Unbroken bd fs)
    (hexfat : fs.fsType ≠ .exfat) (hsize : 3 ≤ fs.nFatent.toNat) (h : Sound contents fs s)
    (htracks : Tracks fs (s.files i) fp) (hbtw : btw ≠ 0) (data : Nat → UInt8) (pos : Nat) :
    ∃ r, writeRound bd fs btw data pos fp s.alloc = some r ∧
      Rounded bd contents fs s i fp btw (fun i => data (pos + i)) r := by
  by_cases hstart : fp.fptr.toNat % clusterBytes fs = 0
  · exact writeRound_beginning hbd hlaid hwhole hexfat hsize h htracks hstart hbtw data pos
  · have hfits : fp.fptr.toNat < (s.files i).length * clusterBytes fs := by
      refine Nat.lt_of_le_of_ne (Nat.le_trans htracks.inside htracks.room) fun heq => hstart ?_
      rw [heq, Nat.mul_mod_left]
    obtain ⟨r, hr, hends⟩ := writeRound_inside hbd hlaid (h.clusters i) h.coherent htracks.position hstart hfits
      htracks.room hbtw data pos
    refine ⟨r, hr, .inside fp.clust (.refl h) (fun _ _ _ => rfl) ?_⟩
    rw [← htracks.sclust]
    exact hends

end Round

end Rounds

end BdmAssault.FatFs
