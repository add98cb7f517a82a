import BdmAssault.FatFs.WriteRounds

/-! # Whole calls of `f_write`

The loop of `f_write`, round after round. What it has counted is in the file, where `f_read`
finds it, and the other files and the rest of the volume are as before.
-/

namespace BdmAssault.FatFs

open Lib

section Runs

variable {σ ι : Type} {bd : DeviceOps σ (Nat → UInt8)} {contents : σ → UInt64 → Nat → UInt8} {fs : MountedFs}

/-! ## All rounds -/

section Loop

variable [DecidableEq ι] {s : Disk σ ι} {i : ι} {fp : FileObject} {btw : UInt32} {src : Nat → UInt8} {l : List Nat}

/-- A round after which the loop goes on. -/
structure Advanced (contents : σ → UInt64 → Nat → UInt8) (fs : MountedFs) (s : Disk σ ι) (i : ι) (fp : FileObject)
    (btw count : UInt32) (src : Nat → UInt8) (a : Alloc σ) (fp' : FileObject) (l : List Nat) : Prop where
  bounds : 0 < count.toNat ∧ count.toNat ≤ btw.toNat
  longer : s.files i <+: l
  sound : Sound contents fs ⟨a, Function.update s.files i l⟩
  tracks : Tracks fs l fp'
  fits : fp.fptr.toNat + count.toNat ≤ l.length * clusterBytes fs
  filled : Filled contents fs l s.alloc.win a.win fp.fptr.toNat count.toNat (fp.fptr.toNat + count.toNat) src
    fp.obj.objsize.toNat
  fptr : fp'.fptr.toNat = fp.fptr.toNat + count.toNat
  objsize : fp'.obj.objsize.toNat = max fp.obj.objsize.toNat (fp.fptr.toNat + count.toNat)
  cltbl : fp'.cltbl = fp.cltbl

/-- What `f_write` has done that was to write the `btw` bytes `src` to the file `i`, whose
clusters are `l` now: `count` of them are in the file. -/
structure FileWritten (bd : DeviceOps σ (Nat → UInt8)) (contents : σ → UInt64 → Nat → UInt8) (fs : MountedFs)
    (s : Disk σ ι) (i : ι) (fp : FileObject) (src : Nat → UInt8) (btw : Nat) (r : Written σ) (l : List Nat)
    (count : Nat) : Prop where
  le : count ≤ btw
  longer : s.files i <+: l
  owned : (chainTable contents fs r.alloc.win).Owned (Function.update s.files i l)
  filled : Filled contents fs l s.alloc.win r.alloc.win fp.fptr.toNat count
    (fp.fptr.toNat + if r.res = frOk then count else btw) src fp.obj.objsize.toNat
  fptr : r.file.fptr.toNat = fp.fptr.toNat + count
  objsize : r.file.obj.objsize.toNat = max fp.obj.objsize.toNat (fp.fptr.toNat + count)
  done : r.res = frOk → Coherent contents fs r.alloc.win ∧ Tracks fs l r.file
  short : r.res = frOk → count < btw → fp.fptr.toNat + count = l.length * clusterBytes fs ∧
    (fp.cltbl.isSome = true ∨ r.alloc.freeClst = 0 ∨
      ∀ d, 2 ≤ d → d < fs.nFatent.toNat → chainTable contents fs r.alloc.win d ≠ .free)
  failed : r.res ≠ frOk → (r.res = frDiskErr ∨ r.res = frIntErr) ∧ r.file.err = .ofNat r.res
  works : Working bd → fp.fptr.toNat + btw ≤ (s.files i).length * clusterBytes fs → r.res = frOk ∧ count = btw

omit [DecidableEq ι] in
theorem FileObject.advance_spec (fp : FileObject) {count : UInt32}
    (h : fp.fptr.toNat + count.toNat < 18446744073709551616) :
    (fp.advance count).fptr.toNat = fp.fptr.toNat + count.toNat ∧
      (fp.advance count).obj.objsize.toNat = max fp.obj.objsize.toNat (fp.fptr.toNat + count.toNat) := by
  have hsum : (fp.fptr + count.toUInt64).toNat = fp.fptr.toNat + count.toNat := by
    rw [UInt64.toNat_add, UInt32.toNat_toUInt64]
    exact Nat.mod_eq_of_lt h
  refine ⟨hsum, ?_⟩
  show (if fp.obj.objsize < fp.fptr + count.toUInt64 then fp.fptr + count.toUInt64 else fp.obj.objsize).toNat = _
  split
  · rename_i hlt
    rw [UInt64.lt_iff_toNat_lt, hsum] at hlt
    rw [hsum]
    omega
  · rename_i hlt
    rw [UInt64.lt_iff_toNat_lt, hsum] at hlt
    omega

omit [DecidableEq ι] in
theorem Tracks.modified (h : Tracks fs l fp) : Tracks fs l fp.modified :=
  ⟨h.sclust, h.room, h.small, h.inside, ⟨h.position.clust, h.position.sect⟩, h.map⟩

/-- The file behind the bytes of a round. -/
theorem RoundWritten.advanced {a : Alloc σ} {clust count : UInt32} {r : Wrote σ}
    (h : RoundWritten contents fs l a (fp.enter clust (clusterAt l 0)) btw count src fp.obj.objsize.toNat r)
    (hlaid : Laid fs) (hexfat : fs.fsType ≠ .exfat) (hgrown : Grown contents fs s i a l)
    (hmap : fp.cltbl.isSome = true → ∀ j, 0 < j → clusterAt l j = clusterAt (s.files i) j)
    (htracks : Tracks fs (s.files i) fp) (hsmall : fp.fptr.toNat + btw.toNat < 4294967296) :
    Advanced contents fs s i fp btw count src r.alloc (r.file.advance count) l := by
  have hroom := hgrown.room htracks
  have hcount := h.some.2
  have hptr : r.file.fptr = fp.fptr := Eq.trans (congrArg FileObject.fptr h.file) rfl
  have hobj : r.file.obj = { fp.obj with sclust := clusterAt l 0 } := congrArg FileObject.obj h.file
  have hcltbl : r.file.cltbl = fp.cltbl := Eq.trans (congrArg FileObject.cltbl h.file) rfl
  obtain ⟨hfptr, hobjsize⟩ := @FileObject.advance_spec r.file count (by rw [hptr]; omega)
  rw [hptr] at hfptr hobjsize
  rw [hobj] at hobjsize
  dsimp only at hobjsize
  have hfits : fp.fptr.toNat + count.toNat ≤ l.length * clusterBytes fs := h.fits
  have hposition := h.position _ hfptr
  refine ⟨h.some, hgrown.longer, ⟨h.coherent, ?_⟩, ⟨?_, ?_, ?_, ?_, ⟨hposition.clust, hposition.sect⟩, ?_⟩, hfits,
    h.stored.filled hgrown.kept hlaid hexfat hgrown.clusters hroom, hfptr, hobjsize, hcltbl⟩
  · rw [chainTable_written hlaid hexfat hgrown.clusters h.stored.outside]
    exact hgrown.sound.owned
  · show r.file.obj.sclust = _
    rw [hobj]
  · rw [hobjsize]
    exact Nat.max_le.mpr ⟨hroom, hfits⟩
  · have hold := htracks.small
    omega
  · omega
  · intro tbl htbl k hk hlt
    have hsome : fp.cltbl = Option.some tbl := hcltbl.symm.trans htbl
    rw [hmap (by rw [hsome]; rfl) k hk]
    exact htracks.map tbl hsome k hk hlt

/-- A round after which `f_write` returns with an error. -/
theorem RoundFailed.written {a : Alloc σ} {clust : UInt32} {res : Nat} {r : Wrote σ}
    (h : RoundFailed bd contents fs l a (fp.enter clust (clusterAt l 0)) btw res r)
    (hlaid : Laid fs) (hexfat : fs.fsType ≠ .exfat) (hgrown : Grown contents fs s i a l)
    (htracks : Tracks fs (s.files i) fp) (bw : UInt32) :
    FileWritten bd contents fs s i fp src btw.toNat ⟨res, bw, r.file.abort res, r.alloc⟩ l 0 := by
  have hres : res ≠ frOk := by
    rw [h.res]
    decide
  have hfilled : Filled contents fs l s.alloc.win r.alloc.win fp.fptr.toNat 0 (fp.fptr.toNat + btw.toNat) src
      fp.obj.objsize.toNat := h.filled hgrown.kept hlaid hexfat hgrown.clusters (hgrown.room htracks)
  have hptr : r.file.fptr = fp.fptr := Eq.trans (congrArg FileObject.fptr h.file) rfl
  have hobj : r.file.obj.objsize = fp.obj.objsize := congrArg (fun fp => fp.obj.objsize) h.file
  have hinside := htracks.inside
  refine ⟨Nat.zero_le _, hgrown.longer, ?_, ?_, congrArg UInt64.toNat hptr, ?_, fun hok => absurd hok hres,
    fun hok => absurd hok hres, fun _ => ⟨.inl h.res, rfl⟩, fun hworks => absurd hworks h.broken⟩
  · rw [chainTable_written hlaid hexfat hgrown.clusters fun x hx hnone => h.outside x hx fun q hq _ _ => hnone q hq]
    exact hgrown.sound.owned
  · rw [if_neg hres]
    exact hfilled
  · show r.file.obj.objsize.toNat = _
    rw [hobj]
    omega

/-- A round that has written nothing and does not fail on the data. -/
theorem Grown.written {a : Alloc σ} (hgrown : Grown contents fs s i a (s.files i)) (hlaid : Laid fs)
    (hexfat : fs.fsType ≠ .exfat) (htracks : Tracks fs (s.files i) fp) {r : Written σ} (hr : r.alloc = a)
    (hfile : r.file.fptr = fp.fptr ∧ r.file.obj = fp.obj) {btw : Nat}
    (hdone : r.res = frOk → Tracks fs (s.files i) r.file)
    (hshort : r.res = frOk → 0 < btw → fp.fptr.toNat = (s.files i).length * clusterBytes fs ∧
      (fp.cltbl.isSome = true ∨ a.freeClst = 0 ∨
        ∀ d, 2 ≤ d → d < fs.nFatent.toNat → chainTable contents fs a.win d ≠ .free))
    (hfailed : r.res ≠ frOk → (r.res = frDiskErr ∨ r.res = frIntErr) ∧ r.file.err = .ofNat r.res)
    (hworks : Working bd → fp.fptr.toNat + btw ≤ (s.files i).length * clusterBytes fs → r.res = frOk ∧ 0 = btw) :
    FileWritten bd contents fs s i fp src btw r (s.files i) 0 := by
  subst hr
  have hinside := htracks.inside
  refine ⟨Nat.zero_le _, List.prefix_refl _, hgrown.sound.owned,
    hgrown.kept.filled hlaid hexfat hgrown.clusters htracks.room, congrArg UInt64.toNat hfile.1, ?_,
    fun hok => ⟨hgrown.sound.coherent, hdone hok⟩, hshort, hfailed, hworks⟩
  rw [hfile.2]
  omega

/-- One round, and then the rest. -/
theorem Advanced.then {count : UInt32} {a : Alloc σ} {fp' : FileObject} {n : Nat} {r : Written σ} {l' : List Nat}
    (h : Advanced contents fs s i fp btw count src a fp' l) (htracks : Tracks fs (s.files i) fp)
    (h' : FileWritten bd contents fs ⟨a, Function.update s.files i l⟩ i fp' (fun j => src (count.toNat + j))
      (btw.toNat - count.toNat) r l' n) :
    FileWritten bd contents fs s i fp src btw.toNat r l' (count.toNat + n) := by
  have hself : Function.update s.files i l i = l := Function.update_self _ _ _
  obtain ⟨hsome, hle⟩ := h.bounds
  have hlonger : l <+: l' := by
    have hlonger := h'.longer
    dsimp only at hlonger
    rwa [hself] at hlonger
  have hroom : fp.obj.objsize.toNat ≤ l.length * clusterBytes fs :=
    Nat.le_trans htracks.room (Nat.mul_le_mul_right _ h.longer.length_le)
  have hn := h'.le
  have hptr := h'.fptr
  have hobjsize := h'.objsize
  have hfilled := h'.filled
  have hdone := h'.done
  have hshort := h'.short
  have hworks := h'.works
  rw [h.fptr] at hptr hobjsize hfilled hshort hworks
  rw [h.objsize] at hobjsize hfilled
  rw [h.cltbl] at hshort
  dsimp only at hworks
  rw [hself] at hworks
  refine ⟨by omega, h.longer.trans hlonger, ?_, ?_, by omega, by omega, hdone, fun hok hlt => ?_, h'.failed,
    fun hworking hfits => ?_⟩
  · have howned := h'.owned
    dsimp only at howned
    rwa [Function.update_idem] at howned
  · obtain ⟨more, rfl⟩ := hlonger
    have htop : fp.fptr.toNat + count.toNat + (if r.res = frOk then n else btw.toNat - count.toNat) =
        fp.fptr.toNat + if r.res = frOk then count.toNat + n else btw.toNat := by
      split
      · exact Nat.add_assoc _ _ _
      · omega
    rw [htop] at hfilled
    refine h.filled.trans hfilled hroom h.fits ?_
    split
    · omega
    · omega
  · obtain ⟨hend, hfull⟩ := hshort hok (by omega)
    exact ⟨by omega, hfull⟩
  · have hmul := Nat.mul_le_mul_right (clusterBytes fs) h.longer.length_le
    obtain ⟨hok, hall⟩ := hworks hworking (by omega)
    exact ⟨hok, by omega⟩

/-- The loop of `f_write` ends, and what it has counted is in the file. -/
theorem writeLoop_written (hbd : HasSectors bd contents) (hlaid : Laid fs) (hwhole : Unbroken bd fs)
    (hexfat : fs.fsType ≠ .exfat) (hsize : 3 ≤ fs.nFatent.toNat) (data : Nat → UInt8) (fuel : Nat) :
    ∀ {btw bw : UInt32} {fp : FileObject} {s : Disk σ ι}, btw.toNat ≤ fuel → bw.toNat + btw.toNat < 4294967296 →
      fp.fptr.toNat + btw.toNat < 4294967296 → Sound contents fs s → Tracks fs (s.files i) fp →
      ∃ r l count, writeLoop bd fs data fuel btw bw fp s.alloc = some r ∧ r.done.toNat = bw.toNat + count ∧
        FileWritten bd contents fs s i fp (fun j => data (bw.toNat + j)) btw.toNat r l count := by
  -- nothing is left
  have hend : ∀ {bw : UInt32} {fp : FileObject} {s : Disk σ ι}, Sound contents fs s → Tracks fs (s.files i) fp →
      FileWritten bd contents fs s i fp (fun j => data (bw.toNat + j)) 0 ⟨frOk, bw, fp.modified, s.alloc⟩
        (s.files i) 0 := by
    intro bw fp s h htracks
    exact (Grown.refl h).written hlaid hexfat htracks rfl ⟨rfl, rfl⟩ (fun _ => htracks.modified)
      (fun _ hlt => absurd hlt (Nat.lt_irrefl 0)) (fun hne => absurd rfl hne) fun _ _ => ⟨rfl, rfl⟩
  induction fuel with
  | zero =>
      intro btw bw fp s hfuel _ _ h htracks
      obtain rfl : btw = 0 := UInt32.toNat_inj.mp (Nat.le_zero.mp hfuel)
      exact ⟨_, _, 0, rfl, rfl, hend h htracks⟩
  | succ fuel ih =>
      intro btw bw fp s hfuel hcount hsmall h htracks
      rw [writeLoop]
      by_cases hzero : btw = 0
      · subst hzero
        exact ⟨_, _, 0, if_pos rfl, rfl, hend h htracks⟩
      have hpos : 0 < btw.toNat := Nat.pos_of_ne_zero fun heq => hzero (UInt32.toNat_inj.mp heq)
      obtain ⟨r, hr, hrounded⟩ :=
        writeRound_rounded hbd hlaid hwhole hexfat hsize h htracks hzero data bw.toNat
      rw [if_neg hzero, hr]
      dsimp only
      cases hrounded with
      | full hgrown hround hlast hfull =>
          subst hround
          exact ⟨_, _, 0, rfl, rfl, hgrown.written hlaid hexfat htracks rfl ⟨rfl, rfl⟩ (fun _ => htracks.modified)
            (fun _ _ => ⟨hlast, hfull⟩) (fun hne => absurd rfl hne) fun _ hfits => by omega⟩
      | @broken a res hgrown hround hres hworks =>
          subst hround
          have hne : res ≠ frOk := by
            rcases hres with rfl | rfl
            · decide
            · decide
          exact ⟨_, _, 0, rfl, rfl, hgrown.written hlaid hexfat htracks rfl ⟨rfl, rfl⟩ (fun hok => absurd hok hne)
            (fun hok => absurd hok hne) (fun _ => ⟨hres, rfl⟩) fun hworking hfits => by
              have hout := hworks hworking
              omega⟩
      | @inside l a clust hgrown hmap hends =>
          cases hending : r.ending with
          | full => exact absurd hending hends.not_full
          | aborted res =>
              exact ⟨_, _, 0, rfl, rfl, (hends.failed res hending).written hlaid hexfat hgrown htracks bw⟩
          | written count =>
              have hadvanced := (hends.written count hending).advanced hlaid hexfat hgrown hmap htracks hsmall
              obtain ⟨hsome, hle⟩ := hadvanced.bounds
              have hrest : (btw - count).toNat = btw.toNat - count.toNat :=
                UInt32.toNat_sub_of_le _ _ (UInt32.le_iff_toNat_le.mpr hle)
              have hbw : (bw + count).toNat = bw.toNat + count.toNat := by
                rw [UInt32.toNat_add]
                exact Nat.mod_eq_of_lt (by omega)
              have htracks' : Tracks fs (Function.update s.files i l i) (r.file.advance count) := by
                rw [Function.update_self]
                exact hadvanced.tracks
              obtain ⟨r', l', n, hloop, hdone, hwritten⟩ := @ih (btw - count) (bw + count) _ _ (by omega) (by omega)
                (by rw [hadvanced.fptr]; omega) hadvanced.sound htracks'
              refine ⟨r', l', count.toNat + n, hloop, by omega, hadvanced.then htracks ?_⟩
              rw [hrest, hbw] at hwritten
              simpa only [Nat.add_assoc] using hwritten

end Loop

/-! ## A call -/

section Call

variable [DecidableEq ι] {s : Disk σ ι} {i : ι} {fp : FileObject} {src : Nat → UInt8} {l : List Nat}

/-- How much of the request there is room for below 4 GiB. -/
theorem clipWrite_toNat (hexfat : fs.fsType ≠ .exfat) {fptr : Nat} (hptr : fp.fptr.toNat = fptr)
    (hsmall : fptr < 4294967296) (btw : UInt32) :
    (clipWrite fs fp btw).toNat = min btw.toNat (4294967295 - fptr) := by
  have hbtw : btw.toNat < 4294967296 := btw.toNat_lt
  have hlow : fp.fptr.toUInt32.toNat = fptr := by
    rw [UInt64.toNat_toUInt32, hptr]
    exact Nat.mod_eq_of_lt hsmall
  have hsum : (fp.fptr + btw.toUInt64).toUInt32.toNat = (fptr + btw.toNat) % 4294967296 := by
    rw [UInt64.toNat_toUInt32, UInt64.toNat_add, UInt32.toNat_toUInt64, hptr]
    show (fptr + btw.toNat) % 18446744073709551616 % 4294967296 = _
    rw [Nat.mod_eq_of_lt (by omega : fptr + btw.toNat < 18446744073709551616)]
  unfold clipWrite
  split
  · rename_i hwrap
    have hlt := UInt32.lt_iff_toNat_lt.mp hwrap.2
    rw [hsum, hlow] at hlt
    rw [UInt32.toNat_sub_of_le _ _ (by rw [UInt32.le_iff_toNat_le, hlow]; exact Nat.le_of_lt_succ hsmall), hlow]
    show 4294967295 - fptr = _
    omega
  · rename_i hwrap
    have hlt : ¬ (fp.fptr + btw.toUInt64).toUInt32 < fp.fptr.toUInt32 := fun hlt => hwrap ⟨hexfat, hlt⟩
    rw [UInt32.lt_iff_toNat_lt, hsum, hlow] at hlt
    omega

/-- What another file has is as before. -/
theorem FileWritten.others {btw count : Nat} {r : Written σ} (h : FileWritten bd contents fs s i fp src btw r l count)
    (hlaid : Laid fs) (hexfat : fs.fsType ≠ .exfat) (hsound : Sound contents fs s) {j : ι} (hj : j ≠ i) {k : Nat}
    (hk : k < (s.files j).length * clusterBytes fs) :
    fileByte contents fs r.alloc.win (clusterAt (s.files j)) k =
      fileByte contents fs s.alloc.win (clusterAt (s.files j)) k := by
  have hclusters := hsound.clusters j
  have hq := div_ssize_lt hk
  have hself : Function.update s.files i l i = l := Function.update_self _ _ _
  have hother : Function.update s.files i l j = s.files j := Function.update_of_ne hj _ _
  have hl : Clusters fs l := by
    have hl := owned_clusters h.owned i
    rwa [hself] at hl
  have hapart : ∀ d ∈ s.files j, d ∉ l := by
    intro d hd hd'
    rw [← hother] at hd
    rw [← hself] at hd'
    exact hj (h.owned.apart j i d hd hd')
  rw [fileByte_eq, fileByte_eq]
  exact congrFun (h.filled.outside _ (hclusters.sector_outside hlaid hq).2
    (fun _ hi => hclusters.sector_table hlaid hexfat hq hi)
    fun _ hq' => hclusters.sector_apart hlaid hl hapart hq hq') _

theorem fWrite_written (hbd : HasSectors bd contents) (hlaid : Laid fs) (hwhole : Unbroken bd fs)
    (hexfat : fs.fsType ≠ .exfat) (hsize : 3 ≤ fs.nFatent.toNat) (h : Sound contents fs s)
    (htracks : Tracks fs (s.files i) fp) (hwrite : fp.flag &&& faWrite ≠ 0) (herr : fp.err = 0) (data : Nat → UInt8)
    (btw : UInt32) : ∃ r l, fWrite bd fs frOk fp data btw s.alloc = some r ∧
      FileWritten bd contents fs s i fp data (min btw.toNat (4294967295 - fp.fptr.toNat)) r l r.done.toNat := by
  have hsmall := Nat.lt_of_le_of_lt htracks.inside htracks.small
  have hclip := @clipWrite_toNat fs fp hexfat _ rfl hsmall btw
  unfold fWrite
  rw [if_pos rfl, if_neg (by rw [herr]; decide), if_neg hwrite]
  dsimp only
  have hnil : (0 : UInt32).toNat = 0 := rfl
  have hsum : (0 : UInt32).toNat + (clipWrite fs fp btw).toNat < 4294967296 := by omega
  obtain ⟨r, l, count, hloop, hdone, hwritten⟩ := writeLoop_written hbd hlaid hwhole hexfat hsize data
    (clipWrite fs fp btw).toNat (Nat.le_refl _) hsum (by omega) h htracks
  have hcount : r.done.toNat = count := by
    rw [hdone, hnil, Nat.zero_add]
  refine ⟨r, l, hloop, ?_⟩
  rw [hcount, ← hclip]
  simpa only [hnil, Nat.zero_add] using hwritten

/-- `f_write` puts the bytes into the file, as far as there is room below 4 GiB and on the
volume, and takes the clusters for them; a device error makes it stop earlier. The other files
are as before. -/
theorem f_write_file (hbd : HasSectors bd contents) (hlaid : Laid fs) (hwhole : Unbroken bd fs)
    (hexfat : fs.fsType ≠ .exfat) (hsize : 3 ≤ fs.nFatent.toNat) (h : Sound contents fs s)
    (htracks : Tracks fs (s.files i) fp) (hwrite : fp.flag &&& faWrite ≠ 0) (herr : fp.err = 0) (data : Nat → UInt8)
    (btw : UInt32) : ∃ r l, fWrite bd fs frOk fp data btw s.alloc = some r ∧
      FileWritten bd contents fs s i fp data (min btw.toNat (4294967295 - fp.fptr.toNat)) r l r.done.toNat ∧
      ∀ j ≠ i, ∀ k < (s.files j).length * clusterBytes fs,
        fileByte contents fs r.alloc.win (clusterAt (s.files j)) k =
          fileByte contents fs s.alloc.win (clusterAt (s.files j)) k := by
  obtain ⟨r, l, hcall, hwritten⟩ := fWrite_written hbd hlaid hwhole hexfat hsize h htracks hwrite herr data btw
  exact ⟨r, l, hcall, hwritten, fun _ hj _ hk => hwritten.others hlaid hexfat h hj hk⟩

/-- What `f_write` has put into a file `f_read` gives back, through any handle of the file and at
any position; around it are the bytes that were there before. -/
theorem f_write_read (hbd : HasSectors bd contents) (hlaid : Laid fs) (hwhole : Unbroken bd fs)
    (hexfat : fs.fsType ≠ .exfat) (hsize : 3 ≤ fs.nFatent.toNat) (h : Sound contents fs s)
    (htracks : Tracks fs (s.files i) fp) (hwrite : fp.flag &&& faWrite ≠ 0) (herr : fp.err = 0) (data : Nat → UInt8)
    (btw : UInt32) : ∃ r l, fWrite bd fs frOk fp data btw s.alloc = some r ∧
      (r.res = frOk → Sound contents fs ⟨r.alloc, Function.update s.files i l⟩ ∧ Tracks fs l r.file ∧
        ∀ rd : FileObject, Tracks fs l rd → rd.obj.objsize = r.file.obj.objsize →
          (∀ tbl, rd.cltbl = some tbl → clmtWalk tbl.tail 0 = rd.obj.sclust) → rd.flag &&& faRead ≠ 0 → rd.err = 0 →
          ∀ btr buff, ∃ t, fRead bd fs frOk rd btr r.alloc.win buff = some t ∧ (Working bd → t.res = frOk) ∧
            (t.res = frOk → t.done.toNat = min btr.toNat (r.file.obj.objsize.toNat - rd.fptr.toNat)) ∧
            ∀ j < t.done.toNat, t.buff j =
              if fp.fptr.toNat ≤ rd.fptr.toNat + j ∧ rd.fptr.toNat + j < fp.fptr.toNat + r.done.toNat then
                data (rd.fptr.toNat + j - fp.fptr.toNat)
              else fileByte contents fs s.alloc.win (clusterAt (s.files i)) (rd.fptr.toNat + j)) := by
  obtain ⟨r, l, hcall, hwritten⟩ := fWrite_written hbd hlaid hwhole hexfat hsize h htracks hwrite herr data btw
  refine ⟨r, l, hcall, fun hok => ?_⟩
  obtain ⟨hcoherent, htracks'⟩ := hwritten.done hok
  have hsound : Sound contents fs ⟨r.alloc, Function.update s.files i l⟩ := ⟨hcoherent, hwritten.owned⟩
  refine ⟨hsound, htracks', fun rd hrd hobjsize hfirst hread hrderr btr buff => ?_⟩
  have hself : Function.update s.files i l i = l := Function.update_self _ _ _
  have hfollows := @Sound.follows _ _ contents fs rd hexfat _ hsound i (by dsimp only; rwa [hself]) hfirst
  dsimp only at hfollows
  rw [hself] at hfollows
  obtain ⟨t, m, ht, hm, hdone⟩ :=
    fRead_done hbd hlaid hcoherent hfollows hrd.position hrd.inside hread hrderr btr buff
  have hnil : (0 : UInt32).toNat = 0 := rfl
  have hcount := hdone.count.2
  have hsum := hwritten.objsize
  rw [hobjsize] at hm
  refine ⟨t, ht, hdone.works, fun hok' => ?_, fun j hj => ?_⟩
  · rw [hdone.all hok', hm, hnil, Nat.zero_add]
  · have hbyte := hdone.bytes j (Nat.zero_le j) hj
    have hfilled := hwritten.filled
    rw [hnil, Nat.sub_zero] at hbyte
    rw [if_pos hok] at hfilled
    have hbelow : rd.fptr.toNat + j < max fp.obj.objsize.toNat (fp.fptr.toNat + r.done.toNat) := by
      rw [← hsum]
      omega
    rw [hbyte]
    split
    · rename_i hin
      have hdata := hfilled.inside (rd.fptr.toNat + j - fp.fptr.toNat) (Nat.sub_lt_left_of_lt_add hin.1 hin.2)
      rwa [Nat.add_sub_of_le hin.1] at hdata
    · rename_i hnot
      have hout : rd.fptr.toNat + j < fp.fptr.toNat ∨ fp.fptr.toNat + r.done.toNat ≤ rd.fptr.toNat + j := by
        by_cases hlow : fp.fptr.toNat ≤ rd.fptr.toNat + j
        · exact .inr (Nat.le_of_not_lt fun hlt => hnot ⟨hlow, hlt⟩)
        · exact .inl (Nat.lt_of_not_le hlow)
      -- what was in the file before
      have hold : rd.fptr.toNat + j < fp.obj.objsize.toNat := by
        rcases hout with hlt | hle
        · exact Nat.lt_of_lt_of_le hlt htracks.inside
        · exact (lt_max_iff.mp hbelow).resolve_right (Nat.not_lt.mpr hle)
      obtain ⟨more, rfl⟩ := hwritten.longer
      rw [hfilled.beyond _ hold hout, fileByte_append _ (Nat.lt_of_lt_of_le hold htracks.room)]

end Call

end Runs

/-! ## Two files of a small volume -/

/-- The file of cluster 3, open for reading and writing in front of its last byte. -/
def growingFile : FileObject := ⟨⟨0, 3, 512, 0, 0⟩, 3, 0, 511, 3, 11, none⟩

theorem growingFile_tracks : Tracks smallVolume (twoFiles.files false) growingFile where
  sclust := rfl
  room := by decide
  small := by decide
  inside := by decide
  position := ⟨fun _ => rfl, fun _ => rfl⟩
  map _ h := by cases h

/-- The second byte needs a cluster behind the cluster 3. -/
theorem growingFile_written : (fWrite arrayDevice smallVolume frOk growingFile (fun i => .ofNat (7 + i)) 2
    twoFiles.alloc).map (fun r => (r.res, r.done, r.file.obj.objsize, r.file.obj.sclust)) = some (frOk, 2, 513, 3) := by
  decide

theorem f_write_file_grown : ∃ r l, fWrite arrayDevice smallVolume frOk growingFile (fun i => .ofNat (7 + i)) 2
    twoFiles.alloc = some r ∧ r.res = frOk ∧ r.done = 2 ∧ [3] <+: l ∧ 2 ≤ l.length ∧
      fileByte id smallVolume r.alloc.win (clusterAt l) 511 = 7 ∧
      fileByte id smallVolume r.alloc.win (clusterAt l) 512 = 8 ∧
      fileByte id smallVolume r.alloc.win (clusterAt [2, 4]) 600 =
        fileByte id smallVolume twoFiles.alloc.win (clusterAt [2, 4]) 600 := by
  obtain ⟨r, l, hcall, hwritten, hothers⟩ := f_write_file arrayDevice_holds smallVolume_laid smallVolume_unbroken
    (by decide) (by decide) twoFiles_sound growingFile_tracks (by decide) rfl (fun i => .ofNat (7 + i)) 2
  have hval := growingFile_written
  rw [hcall] at hval
  obtain ⟨hres, hrest⟩ := Prod.mk.inj (Option.some.inj hval)
  obtain ⟨hdone, hrest⟩ := Prod.mk.inj hrest
  have hobjsize := (Prod.mk.inj hrest).1
  have hroom := (hwritten.done hres).2.room
  rw [hobjsize] at hroom
  have hlength : 513 ≤ l.length * 512 := hroom
  have hcount : r.done.toNat = 2 := by rw [hdone]; rfl
  exact ⟨r, l, hcall, hres, hdone, hwritten.longer, by omega, hwritten.filled.inside 0 (by omega),
    hwritten.filled.inside 1 (by omega), hothers true (by decide) 600 (by decide)⟩

/-- The same file, opened again after it has grown. -/
def reopenedFile : FileObject := ⟨⟨0, 3, 513, 0, 0⟩, 1, 0, 0, 0, 0, none⟩

theorem f_write_read_grown : ∃ r t, fWrite arrayDevice smallVolume frOk growingFile (fun i => .ofNat (7 + i)) 2
    twoFiles.alloc = some r ∧ fRead arrayDevice smallVolume frOk reopenedFile 1000 r.alloc.win (fun _ => 1) = some t ∧
      t.done.toNat = 513 ∧ t.buff 511 = 7 ∧ t.buff 512 = 8 ∧
      t.buff 0 = fileByte id smallVolume twoFiles.alloc.win (clusterAt [3]) 0 := by
  obtain ⟨r, l, hcall, hread⟩ := f_write_read arrayDevice_holds smallVolume_laid smallVolume_unbroken
    (by decide) (by decide) twoFiles_sound growingFile_tracks (by decide) rfl (fun i => .ofNat (7 + i)) 2
  have hval := growingFile_written
  rw [hcall] at hval
  obtain ⟨hres, hrest⟩ := Prod.mk.inj (Option.some.inj hval)
  obtain ⟨hdone, hrest⟩ := Prod.mk.inj hrest
  obtain ⟨hobjsize, hsclust⟩ := Prod.mk.inj hrest
  obtain ⟨-, htracks, hread⟩ := hread hres
  have hroom := htracks.room
  rw [hobjsize] at hroom
  have hreopened : Tracks smallVolume l reopenedFile := by
    refine ⟨?_, hroom, by decide, by decide, ⟨fun h => absurd h (by decide), fun h => absurd rfl h⟩,
      fun _ h => by cases h⟩
    rw [← htracks.sclust, hsclust]
    rfl
  obtain ⟨t, ht, hworks, hall, hbytes⟩ :=
    hread reopenedFile hreopened hobjsize.symm (fun _ h => by cases h) (by decide) rfl 1000 fun _ => 1
  have hcount : t.done.toNat = 513 := by
    rw [hall (hworks arrayDevice_working), hobjsize]
    rfl
  have hend : growingFile.fptr.toNat + r.done.toNat = 513 := by rw [hdone]; rfl
  have hfst := hbytes 511 (by omega)
  have hsnd := hbytes 512 (by omega)
  have hold := hbytes 0 (by omega)
  rw [if_pos ⟨by decide, by rw [hend]; decide⟩] at hfst hsnd
  rw [if_neg fun h => absurd h.1 (by decide)] at hold
  exact ⟨r, t, hcall, ht, hcount, hfst, hsnd, hold⟩

end BdmAssault.FatFs
