import Mathlib
import BdmAssault.FatFs.Table
import BdmAssault.Lib.Transition

/-! # Runs of the window

The functions of `bdmfs_ff.c` load sectors of tables, directories and files into one
window, in any order, and any access of the device may fail. Every entry of the table keeps
the value that the last successful `put_fat` has given it, and the second table follows the
first one.
-/

namespace BdmAssault.FatFs

open Lib

/-- What is done to the window. -/
inductive TableCall where
  | get (obj : ObjId) (clst : UInt32)
  | put (clst val : UInt32)
  | move (sect : UInt64)
  | edit (sect : UInt64) (f : (Nat → UInt8) → Nat → UInt8)
  | sync

/-- The other functions keep away from the tables. -/
def TableCall.Proper (fs : MountedFs) : TableCall → Prop
  | .move sect => sect ≠ noSector ∧ ¬ fs.inMirror sect
  | .edit sect _ => sect ≠ noSector ∧ ¬ fs.inMirror sect ∧
      ∀ k < fs.fsType.tableSize fs.nFatent.toNat, sect ≠ tableSector fs k
  | _ => True

section Runs

variable {σ : Type} (bd : DeviceOps σ (Nat → UInt8)) (fs : MountedFs)

def performTable (w : Win σ) : TableCall → UInt32 × Win σ
  | .get obj clst => getFatWin bd fs obj clst w
  | .put clst val => let (res, w) := putFat bd fs clst val w; (.ofNat res, w)
  | .move sect => let (res, w) := moveWindow bd fs sect w; (.ofNat res, w)
  | .edit sect f => let (res, w) := editWin bd fs sect f w; (.ofNat res, w)
  | .sync => let (res, w) := syncWindow bd fs w; (.ofNat res, w)

/-- Runs from `w₀`; every call stands with what it has returned. -/
def tableCalls (w₀ : Win σ) : System (Win σ) (TableCall × UInt32) where
  init w := w = w₀
  step w c w' := performTable bd fs w c.1 = (c.2, w')

end Runs

/-- What is known of an entry. -/
inductive Held where
  | initial
  | value (n : Nat)
  | unknown

/-- The last successful change of entry `d`, latest call first. A change of FAT12 that fails
may have been made by half. -/
def lastPut (t : FsType) (d : Nat) : List (TableCall × UInt32) → Held
  | [] => .initial
  | (.put clst val, res) :: calls =>
      if clst.toNat = d then
        if res = 0 then .value (val.toNat % t.entryMask) else if t = .fat12 then .unknown else lastPut t d calls
      else lastPut t d calls
  | _ :: calls => lastPut t d calls

/-- A value that agrees with what is known. -/
def Held.Allows (held : Held) (initial n : Nat) : Prop :=
  match held with
  | .initial => n = initial
  | .value v => n = v
  | .unknown => True

section Table

variable {σ : Type} {bd : DeviceOps σ (Nat → UInt8)} {contents : σ → UInt64 → Nat → UInt8} {fs : MountedFs}
  {w₀ w w' : Win σ}

/-- What every call keeps. -/
structure Kept (contents : σ → UInt64 → Nat → UInt8) (fs : MountedFs) (w : Win σ) (c : TableCall × UInt32)
    (w' : Win σ) : Prop where
  coherent : Coherent contents fs w'
  entries : ∀ d < fs.nFatent.toNat, 2 ≤ d → ∀ calls initial,
    (lastPut fs.fsType d calls).Allows initial (entry contents fs w d) →
      (lastPut fs.fsType d (c :: calls)).Allows initial (entry contents fs w' d)

theorem SameView.kept (h : SameView contents fs w w') (hplaced : fs.Placed) (hcoherent : Coherent contents fs w')
    {c : TableCall × UInt32} (hc : ∀ d calls, lastPut fs.fsType d (c :: calls) = lastPut fs.fsType d calls) :
    Kept contents fs w c w' := by
  refine ⟨hcoherent, fun d hd _ calls initial hallows => ?_⟩
  rwa [hc, h.entry hplaced hd]

/-- A small volume with two tables, all zeros. -/
def smallVolume : MountedFs where
  fsType := .fat16
  csize := 1
  ssize := 512
  nFatent := 100
  fatbase := 1
  database := 10
  csize_pos := Nat.one_pos
  ssize_le := sectorSize_le
  nFatent_le := by decide
  nFats := 2
  fsize := 1
  bitbase := 0
  csize_pow := ⟨0, rfl⟩
  ssize_dvd := by decide
  nFats_eq := by decide
  exfat_eq := by decide
  fits := by decide

def emptyWin : Win (UInt64 → Nat → UInt8) := ⟨fun _ => 0, noSector, false, fun _ _ => 0⟩

theorem smallVolume_placed : smallVolume.Placed := by
  unfold MountedFs.Placed
  decide

theorem emptyWin_coherent : Coherent id smallVolume emptyWin :=
  ⟨smallVolume_placed.noSector, fun _ h => absurd rfl h⟩

/-- One change of an entry, and another call. -/
theorem putSeven_run (call : TableCall) (h : call.Proper smallVolume) :
    (tableCalls arrayDevice smallVolume emptyWin).Run (fun _ c => c.1.Proper smallVolume)
      [(call, (performTable arrayDevice smallVolume (putFat arrayDevice smallVolume 3 7 emptyWin).2 call).1),
        (.put 3 7, 0)]
      (performTable arrayDevice smallVolume (putFat arrayDevice smallVolume 3 7 emptyWin).2 call).2 :=
  .step (.step (.start rfl) True.intro rfl) h rfl

/-- The tables agree, but for the sector that waits to be written. -/
def Mirrored (contents : σ → UInt64 → Nat → UInt8) (fs : MountedFs) (w : Win σ) : Prop :=
  ∀ sect, fs.inFat sect → (w.wflag = true → sect ≠ w.winsect) →
    contents w.dev (sect + fs.fsize.toUInt64) = contents w.dev sect

theorem Mirrored.edit (h : Mirrored contents fs w) (win : Nat → UInt8) :
    Mirrored contents fs { w with win := win, wflag := true } := fun sect hsect hne =>
  h sect hsect fun _ => hne rfl

theorem reflectFat_wflag (w : Win σ) (hflag : w.wflag = false) : (reflectFat bd fs w).wflag = false := by
  unfold reflectFat
  split
  · exact hflag
  · exact hflag

/-- The two writes of `sync_window`. -/
theorem reflectFat_mirrored (hbd : HasSectors bd contents) (hworks : Working bd) (hfats : fs.nFats = 2)
    (hcoherent : Coherent contents fs w) (h : Mirrored contents fs w) :
    Mirrored contents fs
      (reflectFat bd fs { w with wflag := false, dev := (bd.write w.winsect (fun _ => w.win) 1 w.dev).2 }) := by
  obtain ⟨hkeeps, hdata⟩ := write_one hbd w.winsect w.win w.dev
  replace hdata := hdata (hworks.writes _ _ _ _)
  generalize (bd.write w.winsect (fun _ => w.win) 1 w.dev).2 = dev at hkeeps hdata
  have hapart : ∀ {sect}, fs.inFat sect → sect + fs.fsize.toUInt64 ≠ w.winsect := by
    intro sect hsect heq
    exact hcoherent.outside (heq ▸ (hsect.mirror hfats).1)
  unfold reflectFat
  split
  · rename_i hfat
    obtain ⟨hmirror, -⟩ := hfat.1.mirror hfat.2
    obtain ⟨hkeeps', hdata'⟩ := write_one hbd (w.winsect + fs.fsize.toUInt64) w.win dev
    replace hdata' := hdata' (hworks.writes _ _ _ _)
    intro sect hsect _
    dsimp only
    have hne : sect ≠ w.winsect + fs.fsize.toUInt64 := by
      rintro rfl
      exact hsect.not_mirror hmirror
    rw [hkeeps' sect hne]
    by_cases heq : sect = w.winsect
    · rw [heq, hdata', hdata]
    · rw [hkeeps' _ fun h => heq ((UInt64.add_left_inj _).mp h), hkeeps _ (hapart hsect), hkeeps _ heq]
      exact h sect hsect fun _ => heq
  · rename_i hfat
    intro sect hsect _
    have hne : sect ≠ w.winsect := by
      rintro rfl
      exact hfat ⟨hsect, hfats⟩
    dsimp only
    rw [hkeeps _ (hapart hsect), hkeeps _ hne]
    exact h sect hsect fun _ => hne

theorem syncWindow_mirrored (hbd : HasSectors bd contents) (hworks : Working bd) (hfats : fs.nFats = 2)
    (hcoherent : Coherent contents fs w) (h : Mirrored contents fs w) :
    Mirrored contents fs (syncWindow bd fs w).2 ∧ (syncWindow bd fs w).2.wflag = false ∧
      (syncWindow bd fs w).1 = frOk := by
  unfold syncWindow
  by_cases hflag : w.wflag = true
  · rw [if_pos hflag]
    dsimp only
    split
    · exact ⟨reflectFat_mirrored hbd hworks hfats hcoherent h, reflectFat_wflag _ rfl, rfl⟩
    · rename_i hres
      exact absurd (hworks.writes _ _ _ _) hres
  · rw [if_neg hflag]
    exact ⟨h, Bool.eq_false_iff.mpr hflag, rfl⟩

/-- What is true of the window between calls. -/
structure Paired (contents : σ → UInt64 → Nat → UInt8) (fs : MountedFs) (w : Win σ) : Prop where
  coherent : Coherent contents fs w
  mirrored : Mirrored contents fs w

theorem moveWindow_paired (hbd : HasSectors bd contents) (hworks : Working bd) (hplaced : fs.Placed)
    (hfats : fs.nFats = 2) (h : Paired contents fs w) {sect : UInt64} (hsect : sect ≠ noSector)
    (hout : ¬ fs.inMirror sect) : Paired contents fs (moveWindow bd fs sect w).2 := by
  refine ⟨(moveWindow_spec hbd h.coherent hsect hout hplaced).coherent, ?_⟩
  unfold moveWindow
  split
  · obtain ⟨hmirrored, hflag, hres⟩ := syncWindow_mirrored hbd hworks hfats h.coherent h.mirrored
    generalize syncWindow bd fs w = r at hmirrored hflag hres
    obtain ⟨res, w'⟩ := r
    dsimp only at hmirrored hflag hres ⊢
    rw [if_pos hres]
    have hclean : ∀ win winsect, Mirrored contents fs ⟨win, winsect, w'.wflag, (bd.read sect 1 w'.dev).2⟩ := by
      intro win winsect a ha _
      dsimp only
      rw [hbd.read_keeps]
      exact hmirrored a ha fun htrue => absurd (hflag.symm.trans htrue) Bool.false_ne_true
    split
    · exact hclean _ _
    · exact hclean _ _
  · exact h.mirrored

section Keeps

variable {P : Win σ → Prop}
  (hmove : ∀ w sect, sect ≠ noSector → ¬ fs.inMirror sect → P w → P (moveWindow bd fs sect w).2)
  (hedit : ∀ w win, P w → P { w with win := win, wflag := true })

include hmove

theorem readWin_keeps {sect : UInt64} (hsect : sect ≠ noSector ∧ ¬ fs.inMirror sect) (f : (Nat → UInt8) → UInt32)
    (h : P w) : P (readWin bd fs sect f w).2 := by
  have hmoved := hmove w sect hsect.1 hsect.2 h
  unfold readWin
  dsimp only
  split
  · exact hmoved
  · exact hmoved

/-- What `move_window` keeps, `get_fat` keeps. -/
theorem getFatWin_keeps (hplaced : fs.Placed) (obj : ObjId) (clst : UInt32) (h : P w) :
    P (getFatWin bd fs obj clst w).2 := by
  unfold getFatWin
  by_cases hrange : clst < 2 ∨ fs.nFatent ≤ clst
  · rw [if_pos hrange]
    exact h
  · rw [if_neg hrange]
    have hclst : clst < fs.nFatent := UInt32.not_le.mp fun hle => hrange (.inr hle)
    have hout := MountedFs.entry_outside hplaced hclst
    cases hfs : fs.fsType with
    | fat12 =>
        have hsnd := MountedFs.entry_outside_snd hplaced hfs hclst
        obtain ⟨hlow, hhigh⟩ := offset12_toNat hfs hclst
        rw [← hhigh, ← tableSector_eq] at hsnd
        rw [← hlow, ← tableSector_eq] at hout
        have hmoved := hmove w _ hout.1 hout.2 h
        dsimp only
        by_cases hres : (moveWindow bd fs (fs.fatbase + ((clst + clst / 2) / fs.ssize.toUInt32).toUInt64) w).1 ≠ frOk
        · rw [if_pos hres]
          exact hmoved
        · rw [if_neg hres]
          exact readWin_keeps hmove hsnd _ hmoved
    | fat16 =>
        rw [hfs] at hout
        refine readWin_keeps hmove ?_ _ h
        rw [entrySector_eq fs clst (.inl rfl)]
        exact hout
    | fat32 => exact readWin_keeps hmove (dwordSector_outside hplaced (.inl hfs) hclst) _ h
    | exfat =>
        dsimp only
        unfold exfatWin
        dsimp only
        split_ifs
        · exact h
        · exact h
        · exact h
        · exact h
        · exact readWin_keeps hmove (dwordSector_outside hplaced (.inr hfs) hclst) _ h
        · exact h
        · exact h

include hedit

theorem editWin_keeps {sect : UInt64} (hsect : sect ≠ noSector ∧ ¬ fs.inMirror sect)
    (f : (Nat → UInt8) → Nat → UInt8) (h : P w) : P (editWin bd fs sect f w).2 := by
  have hmoved := hmove w sect hsect.1 hsect.2 h
  unfold editWin
  dsimp only
  split
  · exact hmoved
  · exact hedit _ _ hmoved

/-- The same for `put_fat`, which also edits. -/
theorem putFat_keeps (hplaced : fs.Placed) (clst val : UInt32) (h : P w) : P (putFat bd fs clst val w).2 := by
  unfold putFat
  by_cases hrange : 2 ≤ clst ∧ clst < fs.nFatent
  · rw [if_pos hrange]
    have hout := MountedFs.entry_outside hplaced hrange.2
    cases hfs : fs.fsType with
    | fat12 =>
        have hsnd := MountedFs.entry_outside_snd hplaced hfs hrange.2
        obtain ⟨hlow, hhigh⟩ := offset12_toNat hfs hrange.2
        rw [← hhigh, ← tableSector_eq] at hsnd
        rw [← hlow, ← tableSector_eq] at hout
        have hfst := editWin_keeps hmove hedit hout
          (fun win => Function.update win ((clst + clst / 2) % fs.ssize.toUInt32).toNat
            (putLow (clst % 2 = 1) val (win ((clst + clst / 2) % fs.ssize.toUInt32).toNat))) h
        dsimp only
        split
        · exact hfst
        · exact editWin_keeps hmove hedit hsnd _ hfst
    | fat16 =>
        rw [hfs] at hout
        refine editWin_keeps hmove hedit ?_ _ h
        rw [entrySector_eq fs clst (.inl rfl)]
        exact hout
    | fat32 => exact editWin_keeps hmove hedit (dwordSector_outside hplaced (.inl hfs) hrange.2) _ h
    | exfat => exact editWin_keeps hmove hedit (dwordSector_outside hplaced (.inr hfs) hrange.2) _ h
  · rw [if_neg hrange]
    exact h

end Keeps

theorem Paired.edit (h : Paired contents fs w) (win : Nat → UInt8) :
    Paired contents fs { w with win := win, wflag := true } :=
  ⟨⟨h.coherent.outside, fun hclean => absurd hclean.symm Bool.false_ne_true⟩, h.mirrored.edit win⟩

theorem performTable_paired (hbd : HasSectors bd contents) (hworks : Working bd) (hplaced : fs.Placed)
    (hfats : fs.nFats = 2) (h : Paired contents fs w) {call : TableCall} (hproper : call.Proper fs) :
    Paired contents fs (performTable bd fs w call).2 := by
  have hmove : ∀ w sect, sect ≠ noSector → ¬ fs.inMirror sect → Paired contents fs w →
      Paired contents fs (moveWindow bd fs sect w).2 :=
    fun _ _ hsect hout h => moveWindow_paired hbd hworks hplaced hfats h hsect hout
  have hedit : ∀ w win, Paired contents fs w → Paired contents fs { w with win := win, wflag := true } :=
    fun _ win h => h.edit win
  cases call with
  | get obj clst => exact getFatWin_keeps hmove hplaced obj clst h
  | put clst val => exact putFat_keeps hmove hedit hplaced clst val h
  | move sect => exact hmove w sect hproper.1 hproper.2 h
  | edit sect f => exact editWin_keeps hmove hedit ⟨hproper.1, hproper.2.1⟩ f h
  | sync =>
      exact ⟨(syncWindow_spec hbd h.coherent).coherent,
        (syncWindow_mirrored hbd hworks hfats h.coherent h.mirrored).1⟩

theorem tableCalls_paired (hbd : HasSectors bd contents) (hworks : Working bd) (hplaced : fs.Placed)
    (hfats : fs.nFats = 2) (h₀ : Paired contents fs w₀) {calls : List (TableCall × UInt32)}
    (hrun : (tableCalls bd fs w₀).Run (fun _ c => c.1.Proper fs) calls w) : Paired contents fs w := by
  induction hrun with
  | start hinit =>
      cases hinit
      exact h₀
  | @step _ c w w' _ hproper hnext ih =>
      have hw' : (performTable bd fs w c.1).2 = w' := congrArg Prod.snd hnext
      rw [← hw']
      exact performTable_paired hbd hworks hplaced hfats ih hproper

/-- On a device that works, both tables on the device are the table that `get_fat` reads
whenever `sync_window` has run, whatever was done before. -/
theorem sync_tables_agree (hbd : HasSectors bd contents) (hworks : Working bd) (hplaced : fs.Placed)
    (hfats : fs.nFats = 2) (h₀ : Paired contents fs w₀) {calls : List (TableCall × UInt32)} {res : UInt32}
    (hrun : (tableCalls bd fs w₀).Run (fun _ c => c.1.Proper fs) ((.sync, res) :: calls) w) :
    res = 0 ∧ ∀ sect, fs.inFat sect → contents w.dev sect = view contents w sect ∧
      contents w.dev (sect + fs.fsize.toUInt64) = view contents w sect := by
  cases hrun with
  | step hrun _ hnext =>
      have hpaired := tableCalls_paired hbd hworks hplaced hfats h₀ hrun
      obtain ⟨hmirrored, hflag, hres⟩ :=
        syncWindow_mirrored hbd hworks hfats hpaired.coherent hpaired.mirrored
      obtain ⟨rfl, rfl⟩ := Prod.mk.inj hnext
      refine ⟨congrArg UInt32.ofNat hres, fun sect hsect => ?_⟩
      have hview : view contents (syncWindow bd fs _).2 sect = contents (syncWindow bd fs _).2.dev sect :=
        if_neg fun h => Bool.false_ne_true (hflag.symm.trans h.1)
      refine ⟨hview.symm, (hmirrored sect hsect fun htrue => ?_).trans hview.symm⟩
      exact absurd (hflag.symm.trans htrue) Bool.false_ne_true

theorem emptyWin_paired : Paired id smallVolume emptyWin := ⟨emptyWin_coherent, fun _ _ _ => rfl⟩

theorem sync_tables_agree_seven :
    (syncWindow arrayDevice smallVolume (putFat arrayDevice smallVolume 3 7 emptyWin).2).2.dev 2 =
      view id (syncWindow arrayDevice smallVolume (putFat arrayDevice smallVolume 3 7 emptyWin).2).2 1 :=
  ((sync_tables_agree arrayDevice_holds arrayDevice_working smallVolume_placed rfl emptyWin_paired
    (putSeven_run .sync True.intro)).2 1 (by decide)).2

end Table

end BdmAssault.FatFs
