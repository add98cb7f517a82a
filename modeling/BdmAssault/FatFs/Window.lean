import Mathlib.Algebra.Group.Nat.Defs
import BdmAssault.DeviceOps
import BdmAssault.FatFs.Select
import BdmAssault.FatFs.Volume

/-! # The sector window

`move_window` and `sync_window` of `bdmfs_ff.c`: one sector of the volume is kept in
memory, is written back when another one is needed, and goes to the second table as well
if it is a sector of the first one. `get_fat` and `put_fat` work on this window.
-/

namespace BdmAssault.FatFs

open Cache

/-- The bytes that a table of `n` entries needs. -/
def FsType.tableSize (t : FsType) (n : Nat) : Nat :=
  match t with
  | .fat12 => n * 3 / 2 + n % 2
  | .fat16 => n * 2
  | .fat32 => n * 4
  | .exfat => n * 4

/-- `FATFS` with the fields that writing needs, and what `mount_volume` has tested. The size
of the table of exFAT is not tested. -/
structure MountedFs extends Fatfs where
  nFats : UInt8
  fsize : UInt32
  bitbase : UInt64
  csize_pow : ∃ n, csize.toNat = 2 ^ n
  ssize_dvd : ssize.toNat ∣ 4096
  nFats_eq : nFats = 1 ∨ nFats = 2
  exfat_eq : fsType = .exfat → nFats = 1
  fits : fsType ≠ .exfat → fsType.tableSize nFatent.toNat ≤ fsize.toNat * ssize.toNat

/-- The window of `FATFS`, and the state of the device. -/
structure Win (σ : Type) where
  win : Nat → UInt8
  winsect : UInt64
  wflag : Bool
  dev : σ

/-- The sector number of an invalid window. -/
def noSector : UInt64 := 0 - 1

section Model

variable {σ : Type} (bd : DeviceOps σ (Nat → UInt8)) (fs : MountedFs)

/-- A sector of the first table. -/
def MountedFs.inFat (fs : MountedFs) (sect : UInt64) : Prop := sect - fs.fatbase < fs.fsize.toUInt64

instance instDecidableInFat (fs : MountedFs) (sect : UInt64) : Decidable (fs.inFat sect) :=
  inferInstanceAs (Decidable (_ < _))

/-- The write to the second table; nobody looks at its result. -/
def reflectFat (w : Win σ) : Win σ :=
  if fs.inFat w.winsect ∧ fs.nFats = 2 then
    { w with dev := (bd.write (w.winsect + fs.fsize.toUInt64) (fun _ => w.win) 1 w.dev).2 }
  else w

def syncWindow (w : Win σ) : Nat × Win σ :=
  if w.wflag then
    let (res, dev) := bd.write w.winsect (fun _ => w.win) 1 w.dev
    if res = 1 then (frOk, reflectFat bd fs { w with wflag := false, dev := dev })
    else (frDiskErr, { w with dev := dev })
  else (frOk, w)

def moveWindow (sect : UInt64) (w : Win σ) : Nat × Win σ :=
  if sect ≠ w.winsect then
    let (res, w) := syncWindow bd fs w
    if res = frOk then
      let (reply, dev) := bd.read sect 1 w.dev
      if reply.result = 1 then (frOk, { w with win := reply.data 0, winsect := sect, dev := dev })
      else (frDiskErr, { w with win := reply.data 0, winsect := noSector, dev := dev })
    else (res, w)
  else (frOk, w)

end Model

/-! ## What the window stands for -/

/-- A sector of the second table. -/
def MountedFs.inMirror (fs : MountedFs) (sect : UInt64) : Prop :=
  fs.nFats = 2 ∧ sect - fs.fatbase - fs.fsize.toUInt64 < fs.fsize.toUInt64

/-- The volume does not begin at the end of the sector numbers. -/
def MountedFs.Placed (fs : MountedFs) : Prop := fs.fatbase.toNat + 8589934592 < 18446744073709551616

section View

variable {σ : Type} {bd : DeviceOps σ (Nat → UInt8)} {contents : σ → UInt64 → Nat → UInt8} {fs : MountedFs}

/-- The sectors of the volume: those of the device, but for the one that waits to be written. -/
def view (contents : σ → UInt64 → Nat → UInt8) (w : Win σ) (sect : UInt64) : Nat → UInt8 :=
  if w.wflag = true ∧ sect = w.winsect then w.win else contents w.dev sect

/-- What holds between calls: the window is not in the second table, and unless it waits to
be written it is a copy. -/
structure Coherent (contents : σ → UInt64 → Nat → UInt8) (fs : MountedFs) (w : Win σ) : Prop where
  outside : ¬ fs.inMirror w.winsect
  copy : w.wflag = false → w.winsect ≠ noSector → w.win = contents w.dev w.winsect

/-- No sector has changed, second table apart. -/
def SameView (contents : σ → UInt64 → Nat → UInt8) (fs : MountedFs) (w w' : Win σ) : Prop :=
  ∀ sect, ¬ fs.inMirror sect → view contents w' sect = view contents w sect

theorem SameView.refl (w : Win σ) : SameView contents fs w w := fun _ _ => rfl

theorem SameView.trans {w w' w'' : Win σ} (h : SameView contents fs w w') (h' : SameView contents fs w' w'') :
    SameView contents fs w w'' := fun sect hsect => (h' sect hsect).trans (h sect hsect)

theorem Coherent.view_winsect {w : Win σ} (h : Coherent contents fs w) (hsect : w.winsect ≠ noSector) :
    view contents w w.winsect = w.win := by
  unfold view
  by_cases hflag : w.wflag = true
  · rw [if_pos ⟨hflag, rfl⟩]
  · rw [if_neg fun h => hflag h.1, h.copy (Bool.eq_false_iff.mpr hflag) hsect]

/-- A sector of the first table and its copy are different sectors. -/
theorem MountedFs.inFat.mirror {sect : UInt64} (h : fs.inFat sect) (hfats : fs.nFats = 2) :
    fs.inMirror (sect + fs.fsize.toUInt64) ∧ sect + fs.fsize.toUInt64 ≠ sect := by
  unfold inFat at h
  constructor
  · refine ⟨hfats, ?_⟩
    rwa [show sect + fs.fsize.toUInt64 - fs.fatbase - fs.fsize.toUInt64 = sect - fs.fatbase by grind]
  · intro heq
    have hzero : fs.fsize.toUInt64 = 0 := by grind
    rw [hzero] at h
    exact absurd h (UInt64.not_lt.mpr (UInt64.le_iff_toNat_le.mpr (Nat.zero_le _)))

/-- A write of one sector. -/
theorem write_one (hbd : HasSectors bd contents) (lba : UInt64) (win : Nat → UInt8) (dev : σ) :
    (∀ sect ≠ lba, contents (bd.write lba (fun _ => win) 1 dev).2 sect = contents dev sect) ∧
      ((bd.write lba (fun _ => win) 1 dev).1 = 1 → contents (bd.write lba (fun _ => win) 1 dev).2 lba = win) := by
  constructor
  · intro sect hne
    refine hbd.write_keeps _ _ _ _ _ fun i hi heq => hne ?_
    have hzero : i = 0 := Nat.lt_one_iff.mp hi
    rw [heq, hzero]
    exact UInt64.add_zero _
  · intro hres
    have hdata := hbd.write_data lba (fun _ => win) 1 dev hres 0 Nat.one_pos
    rwa [show lba + UInt64.ofNat 0 = lba from UInt64.add_zero _] at hdata

/-- What a call of `sync_window` keeps, whether it succeeds or not. -/
structure Synced (contents : σ → UInt64 → Nat → UInt8) (fs : MountedFs) (w : Win σ) (r : Nat × Win σ) : Prop where
  res : r.1 = frOk ∧ r.2.wflag = false ∨ r.1 = frDiskErr
  win : r.2.win = w.win
  winsect : r.2.winsect = w.winsect
  same : SameView contents fs w r.2
  coherent : Coherent contents fs r.2

theorem reflectFat_spec (hbd : HasSectors bd contents) {w : Win σ} (hflag : w.wflag = false) (h : Coherent contents fs w) :
    Synced contents fs w (frOk, reflectFat bd fs w) := by
  unfold reflectFat
  split
  · rename_i hfat
    obtain ⟨hmirror, hne⟩ := hfat.1.mirror hfat.2
    have hkeeps := (write_one hbd (w.winsect + fs.fsize.toUInt64) w.win w.dev).1
    refine ⟨.inl ⟨rfl, hflag⟩, rfl, rfl, fun sect hsect => ?_, h.outside, fun _ hvalid => ?_⟩
    · unfold view
      dsimp only
      rw [hflag, if_neg (fun h => Bool.false_ne_true h.1), if_neg (fun h => Bool.false_ne_true h.1)]
      refine hkeeps sect ?_
      rintro rfl
      exact hsect hmirror
    · exact (h.copy hflag hvalid).trans (hkeeps _ (Ne.symm hne)).symm
  · exact ⟨.inl ⟨rfl, hflag⟩, rfl, rfl, SameView.refl w, h⟩

theorem syncWindow_spec (hbd : HasSectors bd contents) {w : Win σ} (h : Coherent contents fs w) :
    Synced contents fs w (syncWindow bd fs w) := by
  unfold syncWindow
  by_cases hflag : w.wflag = true
  · rw [if_pos hflag]
    dsimp only
    obtain ⟨hkeeps, hdata⟩ := write_one hbd w.winsect w.win w.dev
    split
    · rename_i hres
      -- written back, and then perhaps to the second table
      have hcoherent : Coherent contents fs { w with wflag := false, dev := (bd.write w.winsect (fun _ => w.win) 1 w.dev).2 } :=
        ⟨h.outside, fun _ _ => (hdata hres).symm⟩
      have hreflect := reflectFat_spec hbd rfl hcoherent
      refine ⟨hreflect.res, hreflect.win, hreflect.winsect, SameView.trans (fun sect _ => ?_) hreflect.same,
        hreflect.coherent⟩
      unfold view
      dsimp only
      rw [if_neg (fun h => Bool.false_ne_true h.1)]
      by_cases hsect : sect = w.winsect
      · rw [if_pos ⟨hflag, hsect⟩, hsect, hdata hres]
      · rw [if_neg fun h => hsect h.2, hkeeps sect hsect]
    · refine ⟨.inr rfl, rfl, rfl, fun sect _ => ?_, h.outside, fun hclean => ?_⟩
      · unfold view
        dsimp only
        by_cases hsect : sect = w.winsect
        · rw [if_pos ⟨hflag, hsect⟩, if_pos ⟨hflag, hsect⟩]
        · rw [if_neg fun h => hsect h.2, if_neg fun h => hsect h.2, hkeeps sect hsect]
      · rw [hflag] at hclean
        exact absurd hclean.symm Bool.false_ne_true
  · rw [if_neg hflag]
    exact ⟨.inl ⟨rfl, Bool.eq_false_iff.mpr hflag⟩, rfl, rfl, SameView.refl w, h⟩

theorem MountedFs.Placed.noSector (h : fs.Placed) : ¬ fs.inMirror noSector := by
  rintro ⟨-, hlt⟩
  unfold Placed at h
  have hsize : fs.fsize.toNat < 4294967296 := fs.fsize.toNat_lt
  rw [UInt64.lt_iff_toNat_lt, UInt64.toNat_sub, UInt64.toNat_sub, UInt32.toNat_toUInt64] at hlt
  unfold FatFs.noSector at hlt
  rw [show (0 - 1 : UInt64).toNat = 18446744073709551615 from rfl] at hlt
  omega

/-- The tables do not overlap. -/
theorem MountedFs.inFat.not_mirror {sect : UInt64} (h : fs.inFat sect) : ¬ fs.inMirror sect := by
  rintro ⟨-, hlt⟩
  unfold inFat at h
  have hsize : fs.fsize.toNat < 4294967296 := fs.fsize.toNat_lt
  have hsect := sect.toNat_lt
  rw [UInt64.lt_iff_toNat_lt, UInt64.toNat_sub, UInt32.toNat_toUInt64] at h
  rw [UInt64.lt_iff_toNat_lt, UInt64.toNat_sub, UInt64.toNat_sub, UInt32.toNat_toUInt64] at hlt
  omega

/-- A sector behind the beginning of the tables. -/
theorem MountedFs.Placed.ne_noSector (h : fs.Placed) {n : Nat} (hn : n < 8589934592) :
    fs.fatbase + .ofNat n ≠ FatFs.noSector := by
  unfold Placed at h
  intro heq
  have hnat := congrArg UInt64.toNat heq
  rw [UInt64.toNat_add, UInt64.toNat_ofNat'] at hnat
  unfold FatFs.noSector at hnat
  rw [show (0 - 1 : UInt64).toNat = 18446744073709551615 from rfl] at hnat
  omega

/-- What a call of `move_window` for a sector keeps, and what it brings. -/
structure Moved (contents : σ → UInt64 → Nat → UInt8) (fs : MountedFs) (w : Win σ) (sect : UInt64)
    (r : Nat × Win σ) : Prop where
  res : r.1 = frOk ∧ r.2.winsect = sect ∧ r.2.win = view contents w sect ∨ r.1 = frDiskErr
  same : SameView contents fs w r.2
  coherent : Coherent contents fs r.2

theorem moveWindow_spec (hbd : HasSectors bd contents) {w : Win σ} (h : Coherent contents fs w) {sect : UInt64}
    (hsect : sect ≠ noSector) (hout : ¬ fs.inMirror sect) (hplaced : fs.Placed) :
    Moved contents fs w sect (moveWindow bd fs sect w) := by
  unfold moveWindow
  by_cases hmove : sect ≠ w.winsect
  · rw [if_pos hmove]
    have hsync := syncWindow_spec hbd h
    generalize syncWindow bd fs w = r at hsync
    obtain ⟨res, w'⟩ := r
    dsimp only
    rcases hsync.res with ⟨hres, hflag⟩ | hres
    · dsimp only at hres hflag
      subst hres
      rw [if_pos rfl]
      have hkeeps := hbd.read_keeps sect 1 w'.dev
      have hclean : ∀ win winsect, view contents ⟨win, winsect, w'.wflag, (bd.read sect 1 w'.dev).2⟩ = view contents w' := by
        intro win winsect
        funext a
        unfold view
        dsimp only
        rw [hflag, if_neg (fun h => Bool.false_ne_true h.1), if_neg (fun h => Bool.false_ne_true h.1), hkeeps]
      split
      · rename_i hread
        have hdata := hbd.read_data sect 1 w'.dev hread 0 Nat.one_pos
        rw [show sect + UInt64.ofNat 0 = sect from UInt64.add_zero _] at hdata
        have hview : contents w'.dev sect = view contents w sect := by
          rw [← hsync.same sect hout]
          unfold view
          dsimp only
          rw [hflag, if_neg (fun h => Bool.false_ne_true h.1)]
        refine ⟨.inl ⟨rfl, rfl, hdata.trans hview⟩, fun a ha => ?_, hout, fun _ _ => ?_⟩
        · exact (congrFun (hclean _ _) a).trans (hsync.same a ha)
        · exact hdata.trans (congrFun hkeeps sect).symm
      · refine ⟨.inr rfl, fun a ha => ?_, hplaced.noSector, fun _ hvalid => absurd rfl hvalid⟩
        exact (congrFun (hclean _ _) a).trans (hsync.same a ha)
    · dsimp only at hres
      subst hres
      rw [if_neg (by decide)]
      exact ⟨.inr rfl, hsync.same, hsync.coherent⟩
  · rw [if_neg hmove]
    have heq : sect = w.winsect := not_not.mp hmove
    subst heq
    exact ⟨.inl ⟨rfl, rfl, (h.view_winsect hsect).symm⟩, SameView.refl w, h⟩

theorem syncWindow_works (hworks : Working bd) (w : Win σ) : (syncWindow bd fs w).1 = frOk := by
  unfold syncWindow
  split
  · dsimp only
    split
    · rfl
    · rename_i hres
      exact absurd (hworks.writes _ _ _ _) hres
  · rfl

theorem moveWindow_works (hworks : Working bd) (sect : UInt64) (w : Win σ) : (moveWindow bd fs sect w).1 = frOk := by
  have hsync := @syncWindow_works _ bd fs hworks w
  unfold moveWindow
  split
  · dsimp only
    rw [if_pos hsync]
    split
    · rfl
    · rename_i hres
      exact absurd (hworks.reads _ _ _) hres
  · rfl

end View

end BdmAssault.FatFs
