import Mathlib.Order.Interval.Finset.Nat
import BdmAssault.FatFs.Chains
import BdmAssault.Lib.ChainTable
import BdmAssault.Lib.Iterate

/-! # Chains of FAT volumes

What `create_chain` and `remove_chain` do to the chains of a volume with FAT12, FAT16 or
FAT32, when any access of the device may fail.
-/

namespace BdmAssault.FatFs

open Lib

/-! ## The table as chains -/

/-- What the value of an entry says, with `n` entries in all. -/
def cellOf (n v : Nat) : Cell Nat :=
  if v = 0 then .free else if v = 1 then .other else if v < n then .link v else .last

section Table

variable {σ : Type} {bd : DeviceOps σ (Nat → UInt8)} {contents : σ → UInt64 → Nat → UInt8} {fs : MountedFs}
  {w w' : Win σ}

/-- The clusters of the volume, and which one follows which. -/
def chainTable (contents : σ → UInt64 → Nat → UInt8) (fs : MountedFs) (w : Win σ) : ChainTable Nat := fun d =>
  if 2 ≤ d ∧ d < fs.nFatent.toNat then cellOf fs.nFatent.toNat (entry contents fs w d) else .other

theorem chainTable_congr (h : ∀ k < fs.fsType.tableSize fs.nFatent.toNat,
    view contents w' (tableSector fs k) = view contents w (tableSector fs k)) :
    chainTable contents fs w' = chainTable contents fs w := by
  funext d
  unfold chainTable
  split
  · rename_i hd
    have hentry : entry contents fs w' d = entry contents fs w d :=
      entryAt_congr hd.2 fun k hk => congrFun (h k hk) _
    rw [hentry]
  · rfl

theorem SameView.chainTable (h : SameView contents fs w w') (hplaced : fs.Placed) :
    chainTable contents fs w' = FatFs.chainTable contents fs w :=
  chainTable_congr fun _ hk => h _ (tableSector_outside hplaced hk).2

theorem chainTable_free {d : Nat} (h : chainTable contents fs w d = .free) : 2 ≤ d ∧ d < fs.nFatent.toNat := by
  unfold chainTable at h
  split at h
  · assumption
  · cases h

theorem MountedFs.nFatent_le_mask (fs : MountedFs) : fs.nFatent.toNat < fs.fsType.entryMask := by
  have hle := fs.nFatent_le
  cases hfs : fs.fsType with
  | fat12 => rw [hfs] at hle; exact Nat.lt_of_le_of_lt hle (by decide)
  | fat16 => rw [hfs] at hle; exact Nat.lt_of_le_of_lt hle (by decide)
  | fat32 => rw [hfs] at hle; exact Nat.lt_of_le_of_lt hle (by decide)
  | exfat => rw [hfs] at hle; exact Nat.lt_of_le_of_lt hle (by decide)

/-- What `get_fat` reports of a cell. -/
inductive CellRead (n : Nat) (r : UInt32) : Cell Nat → Prop where
  | free (h : r = 0) : CellRead n r .free
  | other (h : r = 1) : CellRead n r .other
  | link (h : 2 ≤ r.toNat ∧ r.toNat < n) : CellRead n r (.link r.toNat)
  | last (h : n ≤ r.toNat) (hlow : 2 ≤ r.toNat) (herr : r ≠ 0xFFFFFFFF) : CellRead n r .last

theorem CellRead.of_link {n d : Nat} {r : UInt32} (h : CellRead n r (.link d)) : r.toNat = d := by
  generalize hcell : Cell.link d = c at h
  cases h with
  | link => exact (Cell.link.inj hcell).symm
  | free => cases hcell
  | other => cases hcell
  | last => cases hcell

theorem cellRead_cellOf {n : Nat} {r : UInt32} (herr : r ≠ 0xFFFFFFFF) : CellRead n r (cellOf n r.toNat) := by
  unfold cellOf
  split
  · rename_i hzero
    exact .free (UInt32.toNat_inj.mp hzero)
  · split
    · rename_i hone
      exact .other (UInt32.toNat_inj.mp hone)
    · split
      · exact .link (by omega)
      · exact .last (by omega) (by omega) herr

theorem entry_lt (contents : σ → UInt64 → Nat → UInt8) (fs : MountedFs) (w : Win σ) (d : Nat) : entry contents fs w d < 2147483648 := by
  unfold entry entryAt
  have hword := fun k => wordAt_lt (row contents fs w) k
  cases fs.fsType with
  | fat12 =>
      dsimp only
      have hpair := hword (d + d / 2)
      split <;> omega
  | fat16 => exact Nat.lt_trans (hword _) (by decide)
  | fat32 => exact Nat.lt_trans (Nat.mod_lt _ (by decide)) (by decide)
  | exfat => exact Nat.mod_lt _ (by decide)

theorem getFat_cell {obj : ObjId} (hobj : Chained fs obj) {clst : UInt32} (hrange : fs.InRange clst) (w : Win σ) :
    CellRead fs.nFatent.toNat (getFat fs.toFatfs (fun a => some (view contents w a)) obj clst)
      (chainTable contents fs w clst.toNat) := by
  have hnat := @getFat_toNat _ contents _ _ hobj _ hrange w
  have hlt := entry_lt contents fs w clst.toNat
  unfold chainTable
  rw [if_pos (Fatfs.inRange_iff.mp hrange), ← hnat]
  refine cellRead_cellOf fun heq => ?_
  rw [← hnat, heq] at hlt
  exact absurd hlt (by decide)

/-- `get_fat` tells what the table says, or that there was a disk error. -/
theorem getFatWin_cell (hbd : HasSectors bd contents) (hplaced : fs.Placed) (h : Coherent contents fs w) {obj : ObjId}
    (hobj : Chained fs obj) {clst : UInt32} (hrange : fs.InRange clst) :
    (getFatWin bd fs obj clst w).1 = 0xFFFFFFFF ∨
      CellRead fs.nFatent.toNat (getFatWin bd fs obj clst w).1 (chainTable contents fs w clst.toNat) := by
  rcases (getFatWin_spec hbd hplaced h obj clst).res with hval | herr
  · rw [hval]
    exact .inr (getFat_cell hobj hrange w)
  · exact .inl herr

theorem getFatWin_out {obj : ObjId} {clst : UInt32} (h : ¬ fs.InRange clst) :
    getFatWin bd fs obj clst w = (1, w) := by
  unfold getFatWin
  rw [if_pos]
  by_contra hnot
  obtain ⟨hlow, hhigh⟩ := not_or.mp hnot
  exact h ⟨UInt32.not_lt.mp hlow, UInt32.not_le.mp hhigh⟩

theorem Put.chainTable {clst val : UInt32} {r : Nat × Win σ} (h : Put contents fs w clst val r)
    (hrange : fs.InRange clst) (hok : r.1 = frOk) :
    FatFs.chainTable contents fs r.2 =
      Function.update (FatFs.chainTable contents fs w) clst.toNat
        (cellOf fs.nFatent.toNat (val.toNat % fs.fsType.entryMask)) := by
  have hclst := Fatfs.inRange_iff.mp hrange
  funext d
  by_cases heq : d = clst.toNat
  · subst heq
    have hentry : entry contents fs r.2 clst.toNat = val.toNat % fs.fsType.entryMask := by
      refine (entryAt_congr hclst.2 (h.done hok)).trans ?_
      rw [entryAt_putEntry, if_pos rfl]
    rw [Function.update_self]
    unfold FatFs.chainTable
    rw [if_pos hclst, hentry]
  · rw [Function.update_of_ne heq]
    unfold FatFs.chainTable
    split
    · rename_i hd
      rw [h.others d hd.2 heq]
    · rfl

/-! ## Entries of FAT12 -/

/-- An entry of FAT12 that lies in two sectors may be written by half; such volumes are on
devices that work. -/
def Unbroken (bd : DeviceOps σ (Nat → UInt8)) (fs : MountedFs) : Prop := fs.fsType = .fat12 → Working bd

theorem editWin_works (hworks : Working bd) (sect : UInt64) (f : (Nat → UInt8) → Nat → UInt8) (w : Win σ) :
    (editWin bd fs sect f w).1 = frOk := by
  unfold editWin
  dsimp only
  rw [if_neg (not_not.mpr (moveWindow_works hworks sect w))]

theorem putFat12_works (hworks : Working bd) (hfs : fs.fsType = .fat12) {clst : UInt32} (hrange : fs.InRange clst)
    (val : UInt32) : (putFat bd fs clst val w).1 = frOk := by
  unfold putFat
  rw [if_pos (show 2 ≤ clst ∧ clst < fs.nFatent from hrange), hfs]
  dsimp only
  rw [if_neg (not_not.mpr (editWin_works hworks _ _ w))]
  exact editWin_works hworks _ _ _

/-- What a call of `put_fat` does to the chains: the change, or nothing. -/
theorem putFat_chainTable (hbd : HasSectors bd contents) (hplaced : fs.Placed) (h : Coherent contents fs w)
    (hwhole : Unbroken bd fs) {clst : UInt32} (hrange : fs.InRange clst) (val : UInt32) :
    Undisturbed contents fs w (putFat bd fs clst val w).2 ∧
      ((putFat bd fs clst val w).1 = frOk ∧
          chainTable contents fs (putFat bd fs clst val w).2 =
            Function.update (chainTable contents fs w) clst.toNat
              (cellOf fs.nFatent.toNat (val.toNat % fs.fsType.entryMask)) ∨
        (putFat bd fs clst val w).1 = frDiskErr ∧
          chainTable contents fs (putFat bd fs clst val w).2 = chainTable contents fs w) := by
  have hput := putFat_spec hbd hplaced h hrange val
  refine ⟨⟨hput.coherent, hput.data⟩, ?_⟩
  rcases hput.res with hok | herr
  · exact .inl ⟨hok, hput.chainTable hrange hok⟩
  · refine .inr ⟨herr, (hput.failed (by rw [herr]; decide) fun hfs => ?_).chainTable hplaced⟩
    rw [putFat12_works (hwhole hfs) hfs hrange val] at herr
    exact absurd herr (by decide)

theorem cellOf_end (fs : MountedFs) (hlow : 2 ≤ fs.nFatent.toNat) :
    cellOf fs.nFatent.toNat ((0xFFFFFFFF : UInt32).toNat % fs.fsType.entryMask) = .last := by
  have hle := fs.nFatent_le_mask
  have hmask : (0xFFFFFFFF : UInt32).toNat % fs.fsType.entryMask + 1 = fs.fsType.entryMask := by
    cases fs.fsType <;> rfl
  unfold cellOf
  rw [if_neg (by omega), if_neg (by omega), if_neg (by omega)]

theorem cellOf_link (fs : MountedFs) {ncl : UInt32} (h : fs.InRange ncl) :
    cellOf fs.nFatent.toNat (ncl.toNat % fs.fsType.entryMask) = .link ncl.toNat := by
  have hle := fs.nFatent_le_mask
  obtain ⟨hlow, hhigh⟩ := Fatfs.inRange_iff.mp h
  rw [Nat.mod_eq_of_lt (by omega)]
  unfold cellOf
  rw [if_neg (by omega), if_neg (by omega), if_pos hhigh]

theorem cellOf_zero (fs : MountedFs) :
    cellOf fs.nFatent.toNat ((0 : UInt32).toNat % fs.fsType.entryMask) = .free := by
  have hzero : (0 : UInt32).toNat % fs.fsType.entryMask = 0 := Nat.zero_mod _
  rw [hzero]
  rfl

/-! ## Searching a free cluster -/

/-- The clusters that the search has passed, from behind `scl` up to `ncl`. -/
def Passed (scl ncl d : Nat) : Prop := if scl ≤ ncl then scl < d ∧ d ≤ ncl else scl < d ∨ d ≤ ncl

/-- What the search for a free cluster gives. -/
structure Searched (contents : σ → UInt64 → Nat → UInt8) (fs : MountedFs) (w : Win σ)
    (r : (UInt32 ⊕ UInt32) × Win σ) : Prop where
  same : SameView contents fs w r.2
  coherent : Coherent contents fs r.2
  found : ∀ ncl, r.1 = .inr ncl → fs.InRange ncl ∧ chainTable contents fs w ncl.toNat = .free
  failed : ∀ ret, r.1 = .inl ret → ret = 1 ∨ ret = 0xFFFFFFFF ∨
    ret = 0 ∧ ∀ d, 2 ≤ d → d < fs.nFatent.toNat → chainTable contents fs w d ≠ .free

theorem Searched.of_same {r : (UInt32 ⊕ UInt32) × Win σ} (hsame : SameView contents fs w w') (hplaced : fs.Placed)
    (h : Searched contents fs w' r) : Searched contents fs w r := by
  refine ⟨hsame.trans h.same, h.coherent, fun ncl hncl => ?_, fun ret hret => ?_⟩
  · rw [← hsame.chainTable hplaced]
    exact h.found ncl hncl
  · rw [← hsame.chainTable hplaced]
    exact h.failed ret hret

/-- The cluster `ncl` after all that are passed. -/
theorem findFree_read (hbd : HasSectors bd contents) (hplaced : fs.Placed) {obj : ObjId} (hobj : Chained fs obj)
    {scl ncl : UInt32} (hrange : fs.InRange ncl) (h : Coherent contents fs w)
    (hpassed : ∀ d, 2 ≤ d → d < fs.nFatent.toNat → d ≠ ncl.toNat →
      ncl = scl ∨ Passed scl.toNat ncl.toNat d → chainTable contents fs w d ≠ .free)
    (next : Win σ → Option ((UInt32 ⊕ UInt32) × Win σ))
    (ih : ncl ≠ scl → ∀ w', Coherent contents fs w' →
      (∀ d, 2 ≤ d → d < fs.nFatent.toNat → Passed scl.toNat ncl.toNat d → chainTable contents fs w' d ≠ .free) →
      ∃ r, next w' = some r ∧ Searched contents fs w' r) :
    ∃ r, (let (cs, w) := getFatWin bd fs obj ncl w
      if cs = 0 then some (.inr ncl, w)
      else if cs = 1 ∨ cs = 0xFFFFFFFF then some (.inl cs, w)
      else if ncl = scl then some (.inl 0, w)
      else next w) = some r ∧ Searched contents fs w r := by
  have hgot := getFatWin_spec hbd hplaced h obj ncl
  have hcell := getFatWin_cell hbd hplaced h hobj hrange
  generalize getFatWin bd fs obj ncl w = r at hgot hcell
  obtain ⟨cs, w'⟩ := r
  dsimp only at hcell ⊢
  by_cases hzero : cs = 0
  · rw [if_pos hzero]
    refine ⟨_, rfl, hgot.same, hgot.coherent, fun c hc => ?_, fun ret hret => (by cases hret)⟩
    cases hc
    refine ⟨hrange, ?_⟩
    rcases hcell with herr | hread
    · exact absurd (hzero.symm.trans herr) (by decide)
    · generalize chainTable contents fs w ncl.toNat = c at hread
      cases hread with
      | free => rfl
      | other h => exact absurd (hzero.symm.trans h) (by decide)
      | link h => rw [hzero] at h; exact absurd h.1 (by decide)
      | last _ h => rw [hzero] at h; exact absurd h (by decide)
  · rw [if_neg hzero]
    by_cases herr : cs = 1 ∨ cs = 0xFFFFFFFF
    · rw [if_pos herr]
      refine ⟨_, rfl, hgot.same, hgot.coherent, fun c hc => (by cases hc), fun ret hret => ?_⟩
      cases hret
      exact herr.imp_right .inl
    · rw [if_neg herr]
      have hused : chainTable contents fs w ncl.toNat ≠ .free := by
        rcases hcell with hdisk | hread
        · exact absurd (.inr hdisk) herr
        · intro hfree
          rw [hfree] at hread
          cases hread with
          | free h => exact hzero h
      by_cases hend : ncl = scl
      · rw [if_pos hend]
        refine ⟨_, rfl, hgot.same, hgot.coherent, fun c hc => (by cases hc), fun ret hret => ?_⟩
        cases hret
        refine .inr (.inr ⟨rfl, fun d hd hd' => ?_⟩)
        by_cases hdn : d = ncl.toNat
        · rw [hdn]
          exact hused
        · exact hpassed d hd hd' hdn (.inl hend)
      · rw [if_neg hend]
        obtain ⟨r, hr, hsearch⟩ := ih hend w' hgot.coherent fun d hd hd' hp => by
          rw [hgot.same.chainTable hplaced]
          by_cases hdn : d = ncl.toNat
          · rw [hdn]
            exact hused
          · exact hpassed d hd hd' hdn (.inr hp)
        exact ⟨r, hr, hsearch.of_same hgot.same hplaced⟩

/-- The loop ends, and it passes every cluster. -/
theorem findFree_spec (hbd : HasSectors bd contents) (hplaced : fs.Placed) {obj : ObjId} (hobj : Chained fs obj)
    {scl : UInt32} (hlow : 1 ≤ scl.toNat) (hhigh : scl.toNat < fs.nFatent.toNat) (hsize : 3 ≤ fs.nFatent.toNat) :
    ∀ (fuel : Nat) (ncl : UInt32) (w : Win σ), Coherent contents fs w → 1 ≤ ncl.toNat →
      ncl.toNat < fs.nFatent.toNat →
      (∀ d, 2 ≤ d → d < fs.nFatent.toNat → Passed scl.toNat ncl.toNat d → chainTable contents fs w d ≠ .free) →
      (if scl.toNat ≤ ncl.toNat then fs.nFatent.toNat + scl.toNat else scl.toNat) ≤ fuel + ncl.toNat →
      ∃ r, findFree bd fs obj scl fuel ncl w = some r ∧ Searched contents fs w r := by
  intro fuel
  induction fuel with
  | zero =>
      intro ncl w _ _ hn _ hfuel
      split at hfuel <;> omega
  | succ fuel ih =>
      intro ncl w hcoherent hn hn' hpassed hfuel
      have hlimit := fs.nFatent_lt
      have hsucc : (ncl + 1).toNat = ncl.toNat + 1 := by
        rw [UInt32.toNat_add]
        exact Nat.mod_eq_of_lt (by show ncl.toNat + 1 < 4294967296; omega)
      unfold findFree
      dsimp only
      unfold Passed at hpassed
      by_cases hwrap : fs.nFatent ≤ ncl + 1
      · have hend : fs.nFatent.toNat ≤ ncl.toNat + 1 := hsucc ▸ UInt32.le_iff_toNat_le.mp hwrap
        rw [if_pos hwrap]
        by_cases hfirst : scl < 2
        · rw [if_pos ⟨hwrap, hfirst⟩]
          have hone : scl.toNat < 2 := UInt32.lt_iff_toNat_lt.mp hfirst
          refine ⟨_, rfl, SameView.refl w, hcoherent, fun c hc => (by cases hc), fun ret hret => ?_⟩
          cases hret
          refine .inr (.inr ⟨rfl, fun d hd hd' => hpassed d hd hd' ?_⟩)
          rw [if_pos (by omega)]
          omega
        · rw [if_neg fun h => hfirst h.2]
          have htwo : 2 ≤ scl.toNat := UInt32.le_iff_toNat_le.mp (UInt32.not_lt.mp hfirst)
          rw [if_pos (by omega)] at hfuel
          have htwo' : (2 : UInt32).toNat = 2 := rfl
          refine findFree_read hbd hplaced hobj (Fatfs.inRange_iff.mpr (by rw [htwo']; omega)) hcoherent
            (fun d hd hd' hdn hor => hpassed d hd hd' ?_) _ fun hne w' hw' hp => ih 2 w' hw' (by decide) hsize hp ?_
          · rw [if_pos (by omega)]
            rw [htwo'] at hdn hor
            rcases hor with heq | hp
            · rw [← heq, htwo']
              omega
            · unfold Passed at hp
              split at hp <;> omega
          · have hne' : scl.toNat ≠ 2 := fun heq => hne (UInt32.toNat_inj.mp heq).symm
            rw [htwo', if_neg (by omega)]
            omega
      · have hin : ncl.toNat + 1 < fs.nFatent.toNat := by
          rw [UInt32.le_iff_toNat_le, hsucc] at hwrap
          omega
        rw [if_neg hwrap, if_neg fun h => hwrap h.1]
        refine findFree_read hbd hplaced hobj (Fatfs.inRange_iff.mpr (by rw [hsucc]; omega)) hcoherent
          (fun d hd hd' hdn hor => hpassed d hd hd' ?_) _
          fun hne w' hw' hp => ih (ncl + 1) w' hw' (by omega) (by omega) hp ?_
        · rw [hsucc] at hdn hor
          rcases hor with heq | hp
          · rw [← heq, hsucc, if_neg (by omega)]
            omega
          · unfold Passed at hp
            split at hp <;> split <;> omega
        · have hne' : ncl.toNat + 1 ≠ scl.toNat := fun heq => hne (UInt32.toNat_inj.mp (hsucc.trans heq))
          rw [hsucc]
          split at hfuel <;> split <;> omega

theorem findNext_spec (hbd : HasSectors bd contents) (hplaced : fs.Placed) {obj : ObjId} (hobj : Chained fs obj)
    (h : Coherent contents fs w) {clst scl : UInt32} (hlow : 1 ≤ scl.toNat) (hhigh : scl.toNat < fs.nFatent.toNat)
    (hsize : 3 ≤ fs.nFatent.toNat) (lastClst : UInt32) :
    ∃ r, findNext bd fs obj clst scl lastClst w = some r ∧ Searched contents fs w r := by
  have hfind : ∀ {scl : UInt32} {w : Win σ}, 1 ≤ scl.toNat → scl.toNat < fs.nFatent.toNat → Coherent contents fs w →
      ∃ r, findFree bd fs obj scl fs.nFatent.toNat scl w = some r ∧ Searched contents fs w r := by
    intro scl w hlow hhigh h
    refine findFree_spec hbd hplaced hobj hlow hhigh hsize _ scl w h hlow hhigh (fun d _ _ hp => ?_) ?_
    · unfold Passed at hp
      split at hp <;> omega
    · rw [if_pos (Nat.le_refl _)]
  unfold findNext
  split
  · dsimp only
    have hlimit := fs.nFatent_lt
    have hsucc : (scl + 1).toNat = scl.toNat + 1 := by
      rw [UInt32.toNat_add]
      exact Nat.mod_eq_of_lt (by show scl.toNat + 1 < 4294967296; omega)
    have hrange : fs.InRange (if fs.nFatent ≤ scl + 1 then 2 else scl + 1) := by
      split
      · exact Fatfs.inRange_iff.mpr ⟨Nat.le_refl 2, hsize⟩
      · rename_i hin
        rw [UInt32.le_iff_toNat_le, hsucc] at hin
        exact Fatfs.inRange_iff.mpr (by rw [hsucc]; omega)
    generalize (if fs.nFatent ≤ scl + 1 then 2 else scl + 1) = ncl at hrange
    have hgot := getFatWin_spec hbd hplaced h obj ncl
    have hcell := getFatWin_cell hbd hplaced h hobj hrange
    generalize getFatWin bd fs obj ncl w = r at hgot hcell
    obtain ⟨cs, w'⟩ := r
    dsimp only at hcell ⊢
    by_cases herr : cs = 1 ∨ cs = 0xFFFFFFFF
    · rw [if_pos herr]
      refine ⟨_, rfl, hgot.same, hgot.coherent, fun c hc => (by cases hc), fun ret hret => ?_⟩
      cases hret
      exact herr.imp_right .inl
    · rw [if_neg herr]
      by_cases hused : cs ≠ 0
      · rw [if_pos hused]
        have hstart : 1 ≤ (if 2 ≤ lastClst ∧ lastClst < fs.nFatent then lastClst else scl).toNat ∧
            (if 2 ≤ lastClst ∧ lastClst < fs.nFatent then lastClst else scl).toNat < fs.nFatent.toNat := by
          split
          · rename_i hlast
            have hin := Fatfs.inRange_iff.mp hlast
            omega
          · exact ⟨hlow, hhigh⟩
        obtain ⟨r, hr, hsearch⟩ := hfind hstart.1 hstart.2 hgot.coherent
        exact ⟨r, hr, hsearch.of_same hgot.same hplaced⟩
      · rw [if_neg hused]
        refine ⟨_, rfl, hgot.same, hgot.coherent, fun c hc => ?_, fun ret hret => (by cases hret)⟩
        cases hc
        refine ⟨hrange, ?_⟩
        rcases hcell with hdisk | hread
        · exact absurd (.inr hdisk) herr
        · have hzero : cs = 0 := not_not.mp hused
          generalize chainTable contents fs w ncl.toNat = c at hread
          cases hread with
          | free => rfl
          | other h => exact absurd (.inl h) herr
          | link h => rw [hzero] at h; exact absurd h.1 (by decide)
          | last _ h => rw [hzero] at h; exact absurd h (by decide)
  · exact hfind hlow hhigh h

/-! ## Taking a cluster -/

/-- The table with the cluster `ncl` behind `clst`, or for itself. -/
def linked (T : ChainTable Nat) (clst ncl : UInt32) : ChainTable Nat :=
  if clst = 0 then Function.update T ncl.toNat .last
  else Function.update (Function.update T ncl.toNat .last) clst.toNat (.link ncl.toNat)

theorem linkCluster_spec (hbd : HasSectors bd contents) (hplaced : fs.Placed) (hwhole : Unbroken bd fs)
    (h : Coherent contents fs w) {clst ncl : UInt32} (hclst : clst = 0 ∨ fs.InRange clst) (hncl : fs.InRange ncl) :
    Undisturbed contents fs w (linkCluster bd fs clst ncl w).2 ∧
      ((linkCluster bd fs clst ncl w).1 = frOk ∧ chainTable contents fs (linkCluster bd fs clst ncl w).2 =
          linked (chainTable contents fs w) clst ncl ∨
        (linkCluster bd fs clst ncl w).1 = frDiskErr ∧
          (chainTable contents fs (linkCluster bd fs clst ncl w).2 = chainTable contents fs w ∨
            chainTable contents fs (linkCluster bd fs clst ncl w).2 =
              Function.update (chainTable contents fs w) ncl.toNat .last)) := by
  have hsize := (Fatfs.inRange_iff.mp hncl)
  have hmark := putFat_chainTable hbd hplaced h hwhole hncl 0xFFFFFFFF
  rw [cellOf_end fs (by omega)] at hmark
  unfold linkCluster linked
  generalize putFat bd fs ncl 0xFFFFFFFF w = r at hmark
  obtain ⟨res, w'⟩ := r
  obtain ⟨hkept, hmark⟩ := hmark
  dsimp only at hkept hmark ⊢
  rcases hmark with ⟨hok, htable⟩ | ⟨herr, htable⟩
  · by_cases hzero : clst = 0
    · rw [if_neg fun h => h.2 hzero, if_pos hzero]
      exact ⟨hkept, .inl ⟨hok, htable⟩⟩
    · rw [if_pos ⟨hok, hzero⟩, if_neg hzero]
      have hlink := putFat_chainTable hbd hplaced hkept.coherent hwhole (hclst.resolve_left hzero) ncl
      rw [cellOf_link fs hncl, htable] at hlink
      exact ⟨hkept.trans hlink.1, hlink.2.imp_right fun hfail => ⟨hfail.1, .inr hfail.2⟩⟩
  · rw [if_neg fun h => absurd (herr.symm.trans h.1) (by decide)]
    exact ⟨hkept, .inr ⟨herr, .inl htable⟩⟩

theorem le_clusters (fs : MountedFs) (hsize : 2 ≤ fs.nFatent.toNat) (count : UInt32) :
    count ≤ fs.nFatent - 2 ↔ count.toNat + 2 ≤ fs.nFatent.toNat := by
  rw [UInt32.le_iff_toNat_le, UInt32.toNat_sub_of_le _ _ (show 2 ≤ fs.nFatent from UInt32.le_iff_toNat_le.mpr hsize)]
  show _ ≤ fs.nFatent.toNat - 2 ↔ _
  omega

/-- What a call of `create_chain` on a FAT volume has done. -/
inductive Created (T : ChainTable Nat) (n : Nat) (clst freeClst : UInt32) (T' : ChainTable Nat) (freeClst' : UInt32) :
    UInt32 → Prop where
  | followed {nxt : UInt32} (hlink : T clst.toNat = .link nxt.toNat) (hrange : 2 ≤ nxt.toNat ∧ nxt.toNat < n)
      (hT : T' = T) (hfree : freeClst' = freeClst) : Created T n clst freeClst T' freeClst' nxt
  | full (hlast : clst = 0 ∨ T clst.toNat = .last) (hfull : freeClst = 0 ∨ ∀ d, 2 ≤ d → d < n → T d ≠ .free)
      (hT : T' = T) (hfree : freeClst' = freeClst) : Created T n clst freeClst T' freeClst' 0
  | taken {ncl : UInt32} (hlast : clst = 0 ∨ T clst.toNat = .last) (hncl : T ncl.toNat = .free)
      (hT : T' = linked T clst ncl) (hpos : freeClst ≠ 0)
      (hfree : freeClst' = if freeClst.toNat + 2 ≤ n then freeClst - 1 else freeClst) :
      Created T n clst freeClst T' freeClst' ncl
  | failed {ret : UInt32} (hret : ret = 1 ∨ ret = 0xFFFFFFFF)
      (hT : T' = T ∨ ∃ ncl : UInt32, T ncl.toNat = .free ∧ T' = Function.update T ncl.toNat .last)
      (hfree : freeClst' = freeClst) : Created T n clst freeClst T' freeClst' ret

theorem createFrom_spec (hbd : HasSectors bd contents) (hplaced : fs.Placed) (hwhole : Unbroken bd fs)
    (hexfat : fs.fsType ≠ .exfat) {a : Alloc σ} (h : Coherent contents fs a.win) (obj : ObjId) {clst scl : UInt32}
    (hlow : 1 ≤ scl.toNat) (hhigh : scl.toNat < fs.nFatent.toNat) (hsize : 3 ≤ fs.nFatent.toNat)
    (hclst : clst = 0 ∨ fs.InRange clst ∧ chainTable contents fs a.win clst.toNat = .last) :
    ∃ ret a', createFrom bd fs obj clst scl a = some (ret, obj, a') ∧ Undisturbed contents fs a.win a'.win ∧
      Created (chainTable contents fs a.win) fs.nFatent.toNat clst a.freeClst (chainTable contents fs a'.win)
        a'.freeClst ret := by
  unfold createFrom
  by_cases hnone : a.freeClst = 0
  · rw [if_pos hnone]
    exact ⟨0, a, rfl, ⟨h, fun _ _ _ => rfl⟩, .full (hclst.imp_right (·.2)) (.inl hnone) rfl rfl⟩
  · rw [if_neg hnone, if_neg hexfat]
    have hobj : Chained fs obj := fun hfs => absurd hfs hexfat
    obtain ⟨⟨found, w⟩, hr, hsearch⟩ :=
      @findNext_spec _ bd _ _ _ hbd hplaced _ hobj h clst _ hlow hhigh hsize a.lastClst
    unfold createFat
    rw [hr]
    cases found with
    | inl ret =>
        refine ⟨ret, _, rfl, ⟨hsearch.coherent, hsearch.same.data⟩, ?_⟩
        have htable := hsearch.same.chainTable hplaced
        rcases hsearch.failed ret rfl with hone | hdisk | ⟨rfl, hfull⟩
        · exact .failed (.inl hone) (.inl htable) rfl
        · exact .failed (.inr hdisk) (.inl htable) rfl
        · exact .full (hclst.imp_right (·.2)) (.inr hfull) htable rfl
    | inr ncl =>
        obtain ⟨hncl, hfree⟩ := hsearch.found ncl rfl
        have hlink := linkCluster_spec hbd hplaced hwhole hsearch.coherent (hclst.imp_right (·.1)) hncl
        rw [hsearch.same.chainTable hplaced] at hlink
        dsimp only at hlink ⊢
        generalize linkCluster bd fs clst ncl w = r at hlink
        obtain ⟨res, w'⟩ := r
        obtain ⟨hkept, hlink⟩ := hlink
        dsimp only at hkept hlink ⊢
        replace hkept := Undisturbed.trans ⟨hsearch.coherent, hsearch.same.data⟩ hkept
        unfold Alloc.taken
        rcases hlink with ⟨hok, htable⟩ | ⟨herr, htable⟩
        · rw [if_pos hok]
          exact ⟨ncl, _, rfl, hkept, .taken (hclst.imp_right (·.2)) hfree htable hnone
            (if_congr (le_clusters fs (by omega) a.freeClst) rfl rfl)⟩
        · rw [if_neg (by rw [herr]; decide), if_pos herr]
          exact ⟨_, _, rfl, hkept, .failed (.inr rfl) (htable.imp_right fun h => ⟨ncl, hfree, h⟩) rfl⟩

/-- A call of `create_chain` returns, and does one of four things. -/
theorem createChain_spec (hbd : HasSectors bd contents) (hplaced : fs.Placed) (hwhole : Unbroken bd fs)
    (hexfat : fs.fsType ≠ .exfat) (hsize : 3 ≤ fs.nFatent.toNat) {a : Alloc σ} (h : Coherent contents fs a.win)
    (obj : ObjId) (clst : UInt32) :
    ∃ ret a', createChain bd fs obj clst a = some (ret, obj, a') ∧ Undisturbed contents fs a.win a'.win ∧
      Created (chainTable contents fs a.win) fs.nFatent.toNat clst a.freeClst (chainTable contents fs a'.win)
        a'.freeClst ret := by
  unfold createChain
  by_cases hzero : clst = 0
  · rw [if_pos hzero]
    dsimp only
    have hstart : 1 ≤ (if a.lastClst = 0 ∨ fs.nFatent ≤ a.lastClst then 1 else a.lastClst).toNat ∧
        (if a.lastClst = 0 ∨ fs.nFatent ≤ a.lastClst then 1 else a.lastClst).toNat < fs.nFatent.toNat := by
      split
      · exact ⟨Nat.le_refl 1, by show 1 < _; omega⟩
      · rename_i hlast
        obtain ⟨hpos, hlt⟩ := not_or.mp hlast
        rw [UInt32.not_le, UInt32.lt_iff_toNat_lt] at hlt
        exact ⟨Nat.one_le_iff_ne_zero.mpr fun heq => hpos (UInt32.toNat_inj.mp heq), hlt⟩
    exact createFrom_spec hbd hplaced hwhole hexfat h obj hstart.1 hstart.2 hsize (.inl hzero)
  · rw [if_neg hzero]
    have hobj : Chained fs obj := fun hfs => absurd hfs hexfat
    by_cases hrange : fs.InRange clst
    · have hgot := getFatWin_spec hbd hplaced h obj clst
      have hcell := getFatWin_cell hbd hplaced h hobj hrange
      generalize getFatWin bd fs obj clst a.win = r at hgot hcell
      obtain ⟨cs, w⟩ := r
      have htable := hgot.same.chainTable hplaced
      dsimp only at hcell htable ⊢
      by_cases hlow : cs < 2
      · rw [if_pos hlow]
        exact ⟨1, _, rfl, ⟨hgot.coherent, hgot.same.data⟩, .failed (.inl rfl) (.inl htable) rfl⟩
      · rw [if_neg hlow]
        by_cases herr : cs = 0xFFFFFFFF
        · rw [if_pos herr]
          exact ⟨cs, _, rfl, ⟨hgot.coherent, hgot.same.data⟩, .failed (.inr herr) (.inl htable) rfl⟩
        · rw [if_neg herr]
          replace hcell := hcell.resolve_left herr
          rw [UInt32.lt_iff_toNat_lt] at hlow
          have hlow' : 2 ≤ cs.toNat := Nat.le_of_not_lt hlow
          by_cases hnext : cs < fs.nFatent
          · rw [if_pos hnext]
            rw [UInt32.lt_iff_toNat_lt] at hnext
            refine ⟨cs, _, rfl, ⟨hgot.coherent, hgot.same.data⟩, .followed ?_ ⟨hlow', hnext⟩ htable rfl⟩
            generalize chainTable contents fs a.win clst.toNat = c at hcell
            cases hcell with
            | free h => rw [h] at hlow'; exact absurd hlow' (by decide)
            | other h => rw [h] at hlow'; exact absurd hlow' (by decide)
            | link _ => rfl
            | last h => omega
          · rw [if_neg hnext]
            rw [UInt32.lt_iff_toNat_lt] at hnext
            have hlast : chainTable contents fs a.win clst.toNat = .last := by
              generalize chainTable contents fs a.win clst.toNat = c at hcell
              cases hcell with
              | free h => rw [h] at hlow'; exact absurd hlow' (by decide)
              | other h => rw [h] at hlow'; exact absurd hlow' (by decide)
              | link h => omega
              | last => rfl
            obtain ⟨hclst, hclst'⟩ := Fatfs.inRange_iff.mp hrange
            obtain ⟨ret, a', hret, hkept, hcreate⟩ := @createFrom_spec _ _ _ _ hbd hplaced hwhole hexfat { a with win := w } hgot.coherent obj
              clst clst (by omega) hclst' hsize (.inr ⟨hrange, htable ▸ hlast⟩)
            rw [htable] at hcreate
            exact ⟨ret, a', hret, Undisturbed.trans ⟨hgot.coherent, hgot.same.data⟩ hkept, hcreate⟩
    · rw [getFatWin_out hrange]
      exact ⟨1, a, rfl, ⟨h, fun _ _ _ => rfl⟩, .failed (.inl rfl) (.inl rfl) rfl⟩

/-- On a device that works a cluster that is not the last of its chain is followed. -/
theorem createChain_followed (hbd : HasSectors bd contents) (hworks : Working bd) (hplaced : fs.Placed)
    (hexfat : fs.fsType ≠ .exfat) {a : Alloc σ} (h : Coherent contents fs a.win) (obj : ObjId) {clst : UInt32} {d : Nat}
    (hlink : chainTable contents fs a.win clst.toNat = .link d) :
    ∃ cs w, createChain bd fs obj clst a = some (cs, obj, { a with win := w }) ∧
      2 ≤ cs.toNat ∧ cs.toNat < fs.nFatent.toNat := by
  have hobj : Chained fs obj := fun hfs => absurd hfs hexfat
  have hrange : fs.InRange clst := by
    refine Fatfs.inRange_iff.mpr ?_
    unfold chainTable at hlink
    split at hlink
    · assumption
    · cases hlink
  have hzero : clst ≠ 0 := by
    rintro rfl
    exact absurd (Fatfs.inRange_iff.mp hrange).1 (by decide)
  have hread := (getFatWin_spec hbd hplaced h obj clst).works hworks
  have hcell := @getFat_cell _ contents fs _ hobj _ hrange a.win
  rw [hlink, ← hread] at hcell
  unfold createChain
  rw [if_neg hzero]
  generalize getFatWin bd fs obj clst a.win = r at hcell
  obtain ⟨cs, w⟩ := r
  have hcs : 2 ≤ cs.toNat ∧ cs.toNat < fs.nFatent.toNat := by
    cases hcell with
    | link hr => exact hr
  have hlimit := fs.nFatent_lt
  refine ⟨cs, w, ?_, hcs⟩
  dsimp only
  rw [if_neg (UInt32.not_lt.mpr (show 2 ≤ cs from UInt32.le_iff_toNat_le.mpr hcs.1)), if_neg,
    if_pos (UInt32.lt_iff_toNat_lt.mpr hcs.2)]
  rintro rfl
  have hlt := hcs.2
  rw [show (0xFFFFFFFF : UInt32).toNat = 4294967295 from rfl] at hlt
  omega

/-! ## Giving a chain back -/

/-- The clusters of a volume. -/
def clusterRange (fs : MountedFs) : Finset Nat := Finset.Ico 2 fs.nFatent.toNat

/-- `free_clst` is not less than the number of free clusters; it may be unknown, which is a
large number. -/
def Counted (fs : MountedFs) (T : ChainTable Nat) (freeClst : UInt32) : Prop :=
  ChainTable.freeCount T (clusterRange fs) ≤ freeClst.toNat

theorem freeCount_range (fs : MountedFs) (T : ChainTable Nat) :
    ChainTable.freeCount T (clusterRange fs) ≤ fs.nFatent.toNat - 2 := by
  have hle := ChainTable.freeCount_le T (clusterRange fs)
  unfold clusterRange at hle
  rwa [Nat.card_Ico] at hle

/-- The clusters of `l` are free, or not yet. -/
structure Freed (T T' : ChainTable Nat) (l : List Nat) (res : Nat) : Prop where
  outside : ∀ d, d ∉ l → T' d = T d
  done : res = frOk → ∀ d ∈ l, T' d = .free

theorem Alloc.freed_counted (hsize : 2 ≤ fs.nFatent.toNat) {T : ChainTable Nat} {a : Alloc σ} {d : Nat}
    (hd : 2 ≤ d ∧ d < fs.nFatent.toNat) (hused : T d ≠ .free) (h : Counted fs T a.freeClst) :
    Counted fs (Function.update T d .free) (a.freed fs).freeClst := by
  unfold Counted at h ⊢
  have hle := freeCount_range fs (Function.update T d .free)
  have hgive := ChainTable.freeCount_give (s := clusterRange fs) (Finset.mem_Ico.mpr hd) hused
  have hlimit := fs.nFatent_lt
  unfold Alloc.freed
  split
  · rename_i hlt
    rw [UInt32.lt_iff_toNat_lt, UInt32.toNat_sub_of_le _ _ (show 2 ≤ fs.nFatent from UInt32.le_iff_toNat_le.mpr hsize)]
      at hlt
    change a.freeClst.toNat < fs.nFatent.toNat - 2 at hlt
    have hsucc : (a.freeClst + 1).toNat = a.freeClst.toNat + 1 := by
      rw [UInt32.toNat_add]
      exact Nat.mod_eq_of_lt (by show a.freeClst.toNat + 1 < 4294967296; omega)
    show _ ≤ (a.freeClst + 1).toNat
    omega
  · rename_i hlt
    rw [UInt32.lt_iff_toNat_lt, UInt32.toNat_sub_of_le _ _ (show 2 ≤ fs.nFatent from UInt32.le_iff_toNat_le.mpr hsize)]
      at hlt
    change ¬ a.freeClst.toNat < fs.nFatent.toNat - 2 at hlt
    omega

theorem removeBlock_fat (bd : DeviceOps σ (Nat → UInt8)) (hexfat : fs.fsType ≠ .exfat) (r : Removal) (nxt : UInt32) :
    ∃ r', r'.clst = nxt ∧ ∀ w, removeBlock bd fs r nxt w = (frOk, r', w) := by
  unfold removeBlock
  by_cases hnext : r.ecl + 1 = nxt
  · exact ⟨_, rfl, fun w => if_pos hnext⟩
  · refine ⟨⟨nxt, nxt, nxt⟩, rfl, fun w => ?_⟩
    rw [if_neg hnext, if_neg hexfat]

/-- One cluster of a chain: it is free now, or the loop has stopped before. -/
theorem removeLoop_succ (hbd : HasSectors bd contents) (hplaced : fs.Placed) (hwhole : Unbroken bd fs)
    (hexfat : fs.fsType ≠ .exfat) (obj : ObjId) (fuel : Nat) (r : Removal) {a : Alloc σ}
    (h : Coherent contents fs a.win) (hrange : fs.InRange r.clst)
    (hused : chainTable contents fs a.win r.clst.toNat ≠ .free) :
    (∃ res w, removeLoop bd fs obj (fuel + 1) r a = some (res, { a with win := w }) ∧ res ≠ frOk ∧
        Undisturbed contents fs a.win w ∧ chainTable contents fs w = chainTable contents fs a.win) ∨
      ∃ nxt r' w, CellRead fs.nFatent.toNat nxt (chainTable contents fs a.win r.clst.toNat) ∧ r'.clst = nxt ∧
        Undisturbed contents fs a.win w ∧
        chainTable contents fs w = Function.update (chainTable contents fs a.win) r.clst.toNat .free ∧
        removeLoop bd fs obj (fuel + 1) r a =
          if nxt < fs.nFatent then removeLoop bd fs obj fuel r' { a.freed fs with win := w }
          else some (frOk, { a.freed fs with win := w }) := by
  have hobj : Chained fs obj := fun hfs => absurd hfs hexfat
  have hgot := getFatWin_spec hbd hplaced h obj r.clst
  have hcell := getFatWin_cell hbd hplaced h hobj hrange
  rw [removeLoop]
  generalize getFatWin bd fs obj r.clst a.win = got at hgot hcell
  obtain ⟨nxt, w⟩ := got
  have htable := hgot.same.chainTable hplaced
  dsimp only at hcell htable ⊢
  rw [if_pos hexfat]
  by_cases hzero : nxt = 0
  · rcases hcell with herr | hread
    · exact absurd (hzero.symm.trans herr) (by decide)
    · exfalso
      generalize chainTable contents fs a.win r.clst.toNat = c at hread hused
      cases hread with
      | free => exact hused rfl
      | other h => exact absurd (hzero.symm.trans h) (by decide)
      | link h => rw [hzero] at h; exact absurd h.1 (by decide)
      | last _ h => rw [hzero] at h; exact absurd h (by decide)
  · rw [if_neg hzero]
    by_cases hone : nxt = 1
    · rw [if_pos hone]
      exact .inl ⟨frIntErr, w, rfl, by decide, ⟨hgot.coherent, hgot.same.data⟩, htable⟩
    · rw [if_neg hone]
      by_cases herr : nxt = 0xFFFFFFFF
      · rw [if_pos herr]
        exact .inl ⟨frDiskErr, w, rfl, by decide, ⟨hgot.coherent, hgot.same.data⟩, htable⟩
      · rw [if_neg herr]
        have hput := putFat_chainTable hbd hplaced hgot.coherent hwhole hrange 0
        rw [cellOf_zero, htable] at hput
        generalize putFat bd fs r.clst 0 w = put at hput
        obtain ⟨res, w'⟩ := put
        obtain ⟨hkept, hput⟩ := hput
        dsimp only at hkept hput ⊢
        replace hkept := Undisturbed.trans ⟨hgot.coherent, hgot.same.data⟩ hkept
        rcases hput with ⟨hok, hfree⟩ | ⟨hfail, hsame⟩
        · rw [if_neg (not_not.mpr hok)]
          obtain ⟨r', hnext, hblock⟩ := removeBlock_fat bd hexfat r nxt
          have hwin : ({ a with win := w' } : Alloc σ).freed fs = { a.freed fs with win := w' } := by
            unfold Alloc.freed
            split
            · rfl
            · rfl
          refine .inr ⟨nxt, r', w', hcell.resolve_left herr, hnext, hkept, hfree, ?_⟩
          rw [hwin, hblock]
          dsimp only
          rw [if_neg (not_not.mpr rfl), hnext]
        · rw [if_pos (by rw [hfail]; decide)]
          exact .inl ⟨res, w', rfl, by rw [hfail]; decide, hkept, hsame⟩

/-- The loop ends with the chain, or where an access fails. -/
theorem removeLoop_spec (hbd : HasSectors bd contents) (hplaced : fs.Placed) (hwhole : Unbroken bd fs)
    (hexfat : fs.fsType ≠ .exfat) (obj : ObjId) {l : List Nat} :
    ∀ (clst : UInt32) (fuel : Nat) (r : Removal) {a : Alloc σ}, r.clst = clst → l.length < fuel →
      fs.InRange clst → (∀ d ∈ l, 2 ≤ d ∧ d < fs.nFatent.toNat) →
      Coherent contents fs a.win → (chainTable contents fs a.win).Chain (clst.toNat :: l) →
      ∃ res a', removeLoop bd fs obj fuel r a = some (res, a') ∧ Undisturbed contents fs a.win a'.win ∧
        Freed (chainTable contents fs a.win) (chainTable contents fs a'.win) (clst.toNat :: l) res ∧
        (Counted fs (chainTable contents fs a.win) a.freeClst →
          Counted fs (chainTable contents fs a'.win) a'.freeClst) := by
  have hstop : ∀ {clst : UInt32} {l : List Nat} {a : Alloc σ} {res : Nat} {w : Win σ}, res ≠ frOk →
      Undisturbed contents fs a.win w → chainTable contents fs w = chainTable contents fs a.win →
      Undisturbed contents fs a.win w ∧ Freed (chainTable contents fs a.win) (chainTable contents fs w) (clst.toNat :: l) res ∧
        (Counted fs (chainTable contents fs a.win) a.freeClst → Counted fs (chainTable contents fs w) a.freeClst) := by
    intro clst l a res w hres hkept htable
    rw [htable]
    exact ⟨hkept, ⟨fun _ _ => rfl, fun hok => absurd hok hres⟩, id⟩
  induction l with
  | nil =>
      intro clst fuel r a heq hfuel hrange _ h hchain
      subst heq
      obtain ⟨fuel, rfl⟩ := Nat.exists_eq_add_of_lt hfuel
      have hclst := Fatfs.inRange_iff.mp hrange
      have hlast : chainTable contents fs a.win r.clst.toNat = .last := hchain
      have hused := hchain.used List.mem_cons_self
      rw [show List.length ([] : List Nat) + fuel + 1 = fuel + 1 by rw [List.length_nil, Nat.zero_add]]
      rcases removeLoop_succ hbd hplaced hwhole hexfat obj fuel r h hrange hused with
        ⟨res, w, hloop, hres, hkept, htable⟩ | ⟨nxt, r', w, hread, -, hkept, htable, hloop⟩
      · exact ⟨res, _, hloop, hstop hres hkept htable⟩
      · rw [hlast] at hread
        have hend : ¬ nxt < fs.nFatent := by
          cases hread with
          | last hn => exact UInt32.not_lt.mpr (UInt32.le_iff_toNat_le.mpr hn)
        rw [if_neg hend] at hloop
        refine ⟨_, _, hloop, hkept, ⟨fun d hd => ?_, fun _ d hd => ?_⟩, fun hcount => ?_⟩
        · rw [htable, Function.update_of_ne fun heq => hd (List.mem_singleton.mpr heq)]
        · rw [htable, List.mem_singleton.mp hd, Function.update_self]
        · dsimp only
          rw [htable]
          exact a.freed_counted (by omega) hclst hused hcount
  | cons b l ih =>
      intro clst fuel r a heq hfuel hrange hl h hchain
      subst heq
      obtain ⟨fuel, rfl⟩ := Nat.exists_eq_add_of_lt hfuel
      have hclst := Fatfs.inRange_iff.mp hrange
      have hused := hchain.used List.mem_cons_self
      have hnot := (List.nodup_cons.mp hchain.nodup).1
      rcases removeLoop_succ hbd hplaced hwhole hexfat obj ((b :: l).length + fuel) r h hrange hused with
        ⟨res, w, hloop, hres, hkept, htable⟩ | ⟨nxt, r', w, hread, hnext, hkept, htable, hloop⟩
      · exact ⟨res, _, hloop, hstop hres hkept htable⟩
      · rw [hchain.1] at hread
        have hb : nxt.toNat = b ∧ fs.InRange nxt := by
          generalize hcell : Cell.link b = c at hread
          cases hread with
          | link hr =>
              cases hcell
              exact ⟨rfl, Fatfs.inRange_iff.mpr hr⟩
          | free => cases hcell
          | other => cases hcell
          | last => cases hcell
        obtain ⟨rfl, hin⟩ := hb
        rw [if_pos hin.2] at hloop
        obtain ⟨res, a', hrest, hkept', hfreed, hcounted⟩ := ih (a := { a.freed fs with win := w }) nxt
          ((nxt.toNat :: l).length + fuel) r' hnext (by rw [List.length_cons]; omega) hin
          (fun d hd => hl d (List.mem_cons_of_mem _ hd)) hkept.coherent (htable ▸ hchain.2.update hnot .free)
        dsimp only at hfreed hcounted
        rw [htable] at hfreed hcounted
        refine ⟨res, a', hloop.trans hrest, hkept.trans hkept', ⟨fun d hd => ?_, fun hok d hd => ?_⟩, fun hcount => ?_⟩
        · obtain ⟨hne, hd'⟩ := not_or.mp (List.mem_cons.not.mp hd)
          rw [hfreed.outside d hd', Function.update_of_ne hne]
        · rcases List.mem_cons.mp hd with rfl | hd'
          · rw [hfreed.outside _ hnot, Function.update_self]
          · exact hfreed.done hok d hd'
        · exact hcounted (a.freed_counted (by omega) hclst hused hcount)

/-- What a call of `remove_chain` for the clusters `l` behind `pclst` has done. The table is `T₁`
once `pclst` is the last cluster of its chain. -/
structure Removed (T T' : ChainTable Nat) (l : List Nat) (pclst : UInt32) (res : Nat) (T₁ : ChainTable Nat) : Prop where
  cut : T₁ = T ∨ pclst ≠ 0 ∧ T₁ = Function.update T pclst.toNat .last
  freed : Freed T₁ T' l res
  kept : pclst ≠ 0 → T₁ = T → T' = T ∧ res ≠ frOk

theorem removeChain_spec (hbd : HasSectors bd contents) (hplaced : fs.Placed) (hwhole : Unbroken bd fs)
    (hexfat : fs.fsType ≠ .exfat) (obj : ObjId) {clst pclst : UInt32} {l : List Nat} {a : Alloc σ}
    (h : Coherent contents fs a.win) (hrange : fs.InRange clst) (hl : ∀ d ∈ l, 2 ≤ d ∧ d < fs.nFatent.toNat)
    (hchain : (chainTable contents fs a.win).Chain (clst.toNat :: l))
    (hpclst : pclst ≠ 0 → fs.InRange pclst ∧ pclst.toNat ∉ clst.toNat :: l ∧
      chainTable contents fs a.win pclst.toNat = .link clst.toNat) :
    ∃ res a' T₁, removeChain bd fs obj clst pclst a = some (res, obj, a') ∧ Undisturbed contents fs a.win a'.win ∧
      Removed (chainTable contents fs a.win) (chainTable contents fs a'.win) (clst.toNat :: l) pclst res T₁ ∧
      (Counted fs (chainTable contents fs a.win) a.freeClst →
        Counted fs (chainTable contents fs a'.win) a'.freeClst) := by
  have hclst := Fatfs.inRange_iff.mp hrange
  -- a chain is not longer than the volume has clusters
  have hlength : l.length < fs.nFatent.toNat := by
    have hle := length_le_of_nodup id Function.injective_id (List.nodup_cons.mp hchain.nodup).2 hl
    omega
  unfold removeChain
  rw [if_neg fun hout => hout.elim (UInt32.not_lt.mpr hrange.1) (UInt32.not_le.mpr hrange.2)]
  by_cases hzero : pclst = 0
  · rw [if_neg fun h => h.1 hzero]
    dsimp only
    rw [if_neg (not_not.mpr rfl)]
    obtain ⟨res, a', hloop, hkept, hfreed, hcounted⟩ :=
      removeLoop_spec hbd hplaced hwhole hexfat obj clst _ ⟨clst, clst, clst⟩ rfl hlength hrange hl h hchain
    rw [hloop]
    dsimp only
    refine ⟨res, a', _, ?_, hkept, ⟨.inl rfl, hfreed, fun hne => absurd hzero hne⟩, hcounted⟩
    split
    · rfl
    · rename_i hok
      rw [not_not.mp hok]
  · obtain ⟨hprange, hnot, hlink⟩ := hpclst hzero
    have hsize := (Fatfs.inRange_iff.mp hprange)
    rw [if_pos ⟨hzero, .inl hexfat⟩]
    have hput := putFat_chainTable hbd hplaced h hwhole hprange 0xFFFFFFFF
    rw [cellOf_end fs (by omega)] at hput
    generalize putFat bd fs pclst 0xFFFFFFFF a.win = put at hput
    obtain ⟨res, w⟩ := put
    obtain ⟨hkept, hput⟩ := hput
    dsimp only at hkept hput ⊢
    rcases hput with ⟨hok, hcut⟩ | ⟨hfail, hsame⟩
    · rw [if_neg (not_not.mpr hok)]
      obtain ⟨res', a', hloop, hkept', hfreed, hcounted⟩ :=
        removeLoop_spec (a := { a with win := w }) hbd hplaced hwhole hexfat obj clst _ ⟨clst, clst, clst⟩ rfl hlength
          hrange hl hkept.coherent (hcut ▸ hchain.update hnot .last)
      dsimp only at hfreed hcounted
      rw [hcut] at hfreed hcounted
      rw [hloop]
      dsimp only
      refine ⟨res', a', _, ?_, hkept.trans hkept', ⟨.inr ⟨hzero, rfl⟩, hfreed, fun _ hsame => ?_⟩, fun hcount => hcounted ?_⟩
      · split
        · rfl
        · rename_i hok'
          rw [not_not.mp hok']
      · have hpc := congrFun hsame pclst.toNat
        rw [Function.update_self, hlink] at hpc
        cases hpc
      · unfold Counted
        rwa [ChainTable.freeCount_update (by rw [hlink]; exact fun h => by cases h) fun h => by cases h]
    · have hres : res ≠ frOk := by
        rw [hfail]
        decide
      rw [if_pos hres]
      refine ⟨res, _, chainTable contents fs a.win, rfl, hkept,
        ⟨.inl rfl, ⟨fun d _ => ?_, fun hok => absurd hok hres⟩, fun _ _ => ⟨hsame, hres⟩⟩, fun hcount => ?_⟩
      · rw [hsame]
      · dsimp only
        rwa [hsame]

end Table

end BdmAssault.FatFs
