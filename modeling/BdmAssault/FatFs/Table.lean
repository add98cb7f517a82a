import BdmAssault.FatFs.Entries
import BdmAssault.FatFs.Window

/-! # The allocation table behind the window

`get_fat` and `put_fat` of `bdmfs_ff.c` load the sectors of the table one after the other
into the window; an entry of FAT12 may lie in two of them. What they read and change is a
row of bytes all the same.
-/

namespace BdmAssault.FatFs

/-! ## Through the window -/

section Model

variable {σ : Type} (bd : DeviceOps σ (Nat → UInt8)) (fs : MountedFs)

/-- `if (move_window(fs, sect) != FR_OK) break;` and a value from the window. -/
def readWin (sect : UInt64) (f : (Nat → UInt8) → UInt32) (w : Win σ) : UInt32 × Win σ :=
  let (res, w) := moveWindow bd fs sect w
  if res ≠ frOk then (0xFFFFFFFF, w) else (f w.win, w)

/-- The same, and a change to the window. -/
def editWin (sect : UInt64) (f : (Nat → UInt8) → Nat → UInt8) (w : Win σ) : Nat × Win σ :=
  let (res, w) := moveWindow bd fs sect w
  if res ≠ frOk then (res, w) else (frOk, { w with win := f w.win, wflag := true })

/-- The sector of the four bytes of an entry. -/
def MountedFs.dwordSector (fs : MountedFs) (clst : UInt32) : UInt64 :=
  fs.fatbase + (clst / (fs.ssize.toUInt32 / 4)).toUInt64

/-- A chain that exFAT does not keep in the table, and the table. -/
def exfatWin (obj : ObjId) (clst : UInt32) (w : Win σ) : UInt32 × Win σ :=
  if (obj.objsize ≠ 0 ∧ obj.sclust ≠ 0) ∨ obj.stat = 0 then
    let cofs := clst - obj.sclust
    let clen := ((obj.objsize - 1) / fs.ssize.toUInt64 / fs.csize.toUInt64).toUInt32
    if obj.stat = 2 ∧ cofs ≤ clen then (if cofs = clen then 0x7FFFFFFF else clst + 1, w)
    else if obj.stat = 3 ∧ cofs < obj.nCont then (clst + 1, w)
    else if obj.stat ≠ 2 then
      if obj.nFrag ≠ 0 then (0x7FFFFFFF, w)
      else readWin bd fs (fs.dwordSector clst)
        (fun win => ldDword win (clst * 4 % fs.ssize.toUInt32).toNat &&& 0x7FFFFFFF) w
    else (1, w)
  else (1, w)

/-- `get_fat` -/
def getFatWin (obj : ObjId) (clst : UInt32) (w : Win σ) : UInt32 × Win σ :=
  if clst < 2 ∨ fs.nFatent ≤ clst then (1, w)
  else
    match fs.fsType with
    | .fat12 =>
        let bc := clst + clst / 2
        let (res, w) := moveWindow bd fs (fs.fatbase + (bc / fs.ssize.toUInt32).toUInt64) w
        if res ≠ frOk then (0xFFFFFFFF, w)
        else
          let wc := (w.win (bc % fs.ssize.toUInt32).toNat).toUInt32
          readWin bd fs (fs.fatbase + ((bc + 1) / fs.ssize.toUInt32).toUInt64)
            (fun win =>
              let wc := wc ||| ((win ((bc + 1) % fs.ssize.toUInt32).toNat).toUInt32 <<< 8)
              if clst &&& 1 ≠ 0 then wc >>> 4 else wc &&& 0xFFF) w
    | .fat16 =>
        readWin bd fs (fs.fatbase + (clst / (fs.ssize.toUInt32 / 2)).toUInt64)
          (fun win => ldWord win (clst * 2 % fs.ssize.toUInt32).toNat) w
    | .fat32 =>
        readWin bd fs (fs.dwordSector clst)
          (fun win => ldDword win (clst * 4 % fs.ssize.toUInt32).toNat &&& 0x0FFFFFFF) w
    | .exfat => exfatWin bd fs obj clst w

def putFat (clst val : UInt32) (w : Win σ) : Nat × Win σ :=
  if 2 ≤ clst ∧ clst < fs.nFatent then
    match fs.fsType with
    | .fat12 =>
        let bc := clst + clst / 2
        let (res, w) := editWin bd fs (fs.fatbase + (bc / fs.ssize.toUInt32).toUInt64)
          (fun win => Function.update win (bc % fs.ssize.toUInt32).toNat
            (putLow (clst % 2 = 1) val (win (bc % fs.ssize.toUInt32).toNat))) w
        if res ≠ frOk then (res, w)
        else editWin bd fs (fs.fatbase + ((bc + 1) / fs.ssize.toUInt32).toUInt64)
          (fun win => Function.update win ((bc + 1) % fs.ssize.toUInt32).toNat
            (putHigh (clst % 2 = 1) val (win ((bc + 1) % fs.ssize.toUInt32).toNat))) w
    | .fat16 =>
        editWin bd fs (fs.fatbase + (clst / (fs.ssize.toUInt32 / 2)).toUInt64)
          (fun win => stWord win (clst * 2 % fs.ssize.toUInt32).toNat val) w
    | t =>
        editWin bd fs (fs.dwordSector clst)
          (fun win => stDword win (clst * 4 % fs.ssize.toUInt32).toNat
            (putDword t (ldDword win (clst * 4 % fs.ssize.toUInt32).toNat) val)) w
  else (frIntErr, w)

end Model

/-! ## The table behind the window -/

section Table

variable {σ : Type} {bd : DeviceOps σ (Nat → UInt8)} {contents : σ → UInt64 → Nat → UInt8} {fs : MountedFs}

/-- The sector of byte `k` of the table. -/
def tableSector (fs : MountedFs) (k : Nat) : UInt64 := fs.fatbase + .ofNat (k / fs.ssize.toNat)

/-- The bytes of the table. -/
def row (contents : σ → UInt64 → Nat → UInt8) (fs : MountedFs) (w : Win σ) (k : Nat) : UInt8 :=
  view contents w (tableSector fs k) (k % fs.ssize.toNat)

theorem MountedFs.ssize_cases (fs : MountedFs) :
    fs.ssize.toNat = 512 ∨ fs.ssize.toNat = 1024 ∨ fs.ssize.toNat = 2048 ∨ fs.ssize.toNat = 4096 := by
  obtain ⟨q, hq⟩ := fs.ssize_dvd
  have hle := fs.ssize_le
  have hq8 : q ≤ 8 := by
    by_contra hlt
    have hmul : 512 * 9 ≤ fs.ssize.toNat * q := Nat.mul_le_mul hle (Nat.lt_of_not_le hlt)
    omega
  obtain rfl | rfl | rfl | rfl | rfl | rfl | rfl | rfl | rfl :
      q = 0 ∨ q = 1 ∨ q = 2 ∨ q = 3 ∨ q = 4 ∨ q = 5 ∨ q = 6 ∨ q = 7 ∨ q = 8 := by omega
  all_goals omega

theorem MountedFs.tableSize_le (fs : MountedFs) : fs.fsType.tableSize fs.nFatent.toNat < 17179869184 := by
  have hlimit := fs.nFatent_lt
  cases fs.fsType with
  | fat12 => show fs.nFatent.toNat * 3 / 2 + fs.nFatent.toNat % 2 < _; omega
  | fat16 => show fs.nFatent.toNat * 2 < _; omega
  | fat32 => show fs.nFatent.toNat * 4 < _; omega
  | exfat => show fs.nFatent.toNat * 4 < _; omega

/-- The sectors of the table can be loaded. -/
theorem tableSector_outside (hplaced : fs.Placed) {k : Nat} (hk : k < fs.fsType.tableSize fs.nFatent.toNat) :
    tableSector fs k ≠ noSector ∧ ¬ fs.inMirror (tableSector fs k) := by
  have hlt := Nat.lt_trans hk fs.tableSize_le
  have hdiv : k / fs.ssize.toNat < 8589934592 := by
    rcases fs.ssize_cases with h | h | h | h <;> rw [h] <;> omega
  refine ⟨hplaced.ne_noSector hdiv, ?_⟩
  by_cases hexfat : fs.fsType = .exfat
  · rintro ⟨htwo, -⟩
    rw [fs.exfat_eq hexfat] at htwo
    exact absurd htwo (by decide)
  · refine MountedFs.inFat.not_mirror ?_
    unfold MountedFs.inFat tableSector
    have hsize : fs.fsize.toNat < 4294967296 := fs.fsize.toNat_lt
    have hfits : k / fs.ssize.toNat < fs.fsize.toNat :=
      Nat.div_lt_of_lt_mul (by rw [Nat.mul_comm]; exact Nat.lt_of_lt_of_le hk (fs.fits hexfat))
    rw [UInt64.add_comm, UInt64.add_sub_cancel, UInt64.lt_iff_toNat_lt, UInt64.toNat_ofNat', UInt32.toNat_toUInt64]
    exact Nat.lt_of_le_of_lt (Nat.mod_le _ _) hfits

theorem tableSector_inj (fs : MountedFs) {j k : Nat} (hj : j < 17179869184) (hk : k < 17179869184) :
    tableSector fs j = tableSector fs k ↔ j / fs.ssize.toNat = k / fs.ssize.toNat := by
  constructor
  · intro heq
    have hsmall : ∀ {i}, i < 17179869184 → i / fs.ssize.toNat < 2 ^ 64 := fun hi =>
      Nat.lt_of_le_of_lt (Nat.div_le_self _ _) (Nat.lt_trans hi (by decide))
    have hnat := congrArg UInt64.toNat ((UInt64.add_right_inj _).mp heq)
    rwa [UInt64.toNat_ofNat', UInt64.toNat_ofNat', Nat.mod_eq_of_lt (hsmall hj), Nat.mod_eq_of_lt (hsmall hk)] at hnat
  · intro heq
    unfold tableSector
    rw [heq]

/-- `n` bytes of a row, from `base` on. -/
def Shows (b : Nat → UInt8) (base n : Nat) (win : Nat → UInt8) : Prop := ∀ i < n, win i = b (base + i)

theorem Shows.update {b win : Nat → UInt8} {base n : Nat} (h : Shows b base n win) (a : Nat) (v : UInt8) :
    Shows (Function.update b (base + a) v) base n (Function.update win a v) := by
  intro i hi
  by_cases heq : i = a
  · subst heq
    rw [Function.update_self, Function.update_self]
  · rw [Function.update_of_ne heq, Function.update_of_ne (by omega)]
    exact h i hi

theorem Shows.stWord {b win : Nat → UInt8} {base n : Nat} (h : Shows b base n win) (a : Nat) (val : UInt32) :
    Shows (stWord b (base + a) val) base n (stWord win a val) := (h.update a _).update (a + 1) _

theorem Shows.stDword {b win : Nat → UInt8} {base n : Nat} (h : Shows b base n win) (a : Nat) (val : UInt32) :
    Shows (stDword b (base + a) val) base n (stDword win a val) := (h.stWord a _).stWord (a + 2) _

theorem Shows.ldWord {b win : Nat → UInt8} {base n : Nat} (h : Shows b base n win) {a : Nat} (ha : a + 1 < n) :
    ldWord win a = ldWord b (base + a) := by
  unfold FatFs.ldWord
  rw [h a (by omega), h (a + 1) ha]
  rfl

theorem Shows.ldDword {b win : Nat → UInt8} {base n : Nat} (h : Shows b base n win) {a : Nat} (ha : a + 3 < n) :
    ldDword win a = ldDword b (base + a) := by
  unfold FatFs.ldDword
  rw [h.ldWord (by omega), h.ldWord (by omega)]
  rfl

/-- The sector of a byte shows its part of the row. -/
theorem shows_row (contents : σ → UInt64 → Nat → UInt8) (fs : MountedFs) (w : Win σ) (k : Nat) :
    Shows (row contents fs w) (fs.ssize.toNat * (k / fs.ssize.toNat)) fs.ssize.toNat
      (view contents w (tableSector fs k)) := by
  intro i hi
  unfold row tableSector
  rw [Nat.mul_add_div (by omega), Nat.div_eq_of_lt hi, Nat.mul_add_mod, Nat.mod_eq_of_lt hi]
  rfl

/-- What a read of the table gives, and that it changes nothing. -/
structure Got (bd : DeviceOps σ (Nat → UInt8)) (contents : σ → UInt64 → Nat → UInt8) (fs : MountedFs) (w : Win σ)
    (val : UInt32) (r : UInt32 × Win σ) : Prop where
  res : r.1 = val ∨ r.1 = 0xFFFFFFFF
  works : Working bd → r.1 = val
  same : SameView contents fs w r.2
  coherent : Coherent contents fs r.2

theorem readWin_spec (hbd : HasSectors bd contents) (hplaced : fs.Placed) {w : Win σ} (h : Coherent contents fs w)
    {sect : UInt64} (hsect : sect ≠ noSector) (hout : ¬ fs.inMirror sect) (f : (Nat → UInt8) → UInt32) :
    Got bd contents fs w (f (view contents w sect)) (readWin bd fs sect f w) := by
  have hmoved := moveWindow_spec hbd h hsect hout hplaced
  have hworks : Working bd → (moveWindow bd fs sect w).1 = frOk := fun hworks => moveWindow_works hworks sect w
  unfold readWin
  generalize moveWindow bd fs sect w = r at hmoved hworks
  obtain ⟨res, w'⟩ := r
  dsimp only
  split
  · rename_i hres
    exact ⟨.inr rfl, fun hw => absurd (hworks hw) hres, hmoved.same, hmoved.coherent⟩
  · rename_i hres
    rcases hmoved.res with ⟨-, -, hwin⟩ | herr
    · exact ⟨.inl (congrArg f hwin), fun _ => congrArg f hwin, hmoved.same, hmoved.coherent⟩
    · dsimp only at herr
      rw [not_not, herr] at hres
      exact absurd hres (by decide)

/-- What a change through the window does. -/
structure Edited (contents : σ → UInt64 → Nat → UInt8) (fs : MountedFs) (w : Win σ) (sect : UInt64)
    (f : (Nat → UInt8) → Nat → UInt8) (r : Nat × Win σ) : Prop where
  res : r.1 = frOk ∧ view contents r.2 sect = f (view contents w sect) ∨
    r.1 = frDiskErr ∧ SameView contents fs w r.2
  others : ∀ a, ¬ fs.inMirror a → a ≠ sect → view contents r.2 a = view contents w a
  coherent : Coherent contents fs r.2

theorem editWin_spec (hbd : HasSectors bd contents) (hplaced : fs.Placed) {w : Win σ} (h : Coherent contents fs w)
    {sect : UInt64} (hsect : sect ≠ noSector) (hout : ¬ fs.inMirror sect) (f : (Nat → UInt8) → Nat → UInt8) :
    Edited contents fs w sect f (editWin bd fs sect f w) := by
  have hmoved := moveWindow_spec hbd h hsect hout hplaced
  unfold editWin
  generalize moveWindow bd fs sect w = r at hmoved
  obtain ⟨res, w'⟩ := r
  dsimp only
  split
  · rename_i hres
    rcases hmoved.res with ⟨hok, -, -⟩ | herr
    · exact absurd hok hres
    · exact ⟨.inr ⟨herr, hmoved.same⟩, fun a ha _ => hmoved.same a ha, hmoved.coherent⟩
  · rename_i hres
    rcases hmoved.res with ⟨-, hwinsect, hwin⟩ | herr
    · dsimp only at hwinsect hwin
      refine ⟨.inl ⟨rfl, ?_⟩, fun a ha hne => ?_, ?_⟩
      · unfold view
        rw [if_pos ⟨rfl, hwinsect.symm⟩, hwin]
        rfl
      · have hsame := hmoved.same a ha
        unfold view at hsame ⊢
        dsimp only at hsame ⊢
        rw [if_neg fun h => hne (h.2.trans hwinsect)]
        rwa [if_neg fun h => hne (h.2.trans hwinsect)] at hsame
      · exact ⟨hmoved.coherent.outside, fun hclean => absurd hclean.symm Bool.false_ne_true⟩
    · dsimp only at herr
      rw [not_not, herr] at hres
      exact absurd hres (by decide)

/-! ## Reading an entry -/

theorem tableSector_eq (fs : MountedFs) (k : UInt32) : fs.fatbase + (k / fs.ssize.toUInt32).toUInt64 = tableSector fs k.toNat := by
  unfold tableSector
  refine congrArg (fs.fatbase + ·) (UInt64.toNat_inj.mp ?_)
  have hlt : k.toNat / fs.ssize.toNat < 2 ^ 64 :=
    Nat.lt_of_le_of_lt (Nat.div_le_self _ _) (Nat.lt_trans k.toNat_lt (by decide))
  rw [UInt32.toNat_toUInt64, UInt32.toNat_div, UInt16.toNat_toUInt32, UInt64.toNat_ofNat', Nat.mod_eq_of_lt hlt]

/-- Sectors hold whole entries of `m` bytes. -/
theorem MountedFs.ssize_entries (fs : MountedFs) {m : Nat} (hm : m = 2 ∨ m = 4) (clst : UInt32) :
    clst.toNat / (fs.ssize.toNat / m) = clst.toNat * m / fs.ssize.toNat ∧
      clst.toNat * m % 4294967296 % fs.ssize.toNat = clst.toNat * m % fs.ssize.toNat ∧
      clst.toNat * m % fs.ssize.toNat + m ≤ fs.ssize.toNat := by
  rcases fs.ssize_cases with h | h | h | h <;> rcases hm with rfl | rfl <;> rw [h] <;> omega

theorem entrySector_eq (fs : MountedFs) (clst : UInt32) {m : UInt32} (hm : m = 2 ∨ m = 4) :
    fs.fatbase + (clst / (fs.ssize.toUInt32 / m)).toUInt64 = tableSector fs (clst.toNat * m.toNat) := by
  unfold tableSector
  have hm' : m.toNat = 2 ∨ m.toNat = 4 := by
    rcases hm with rfl | rfl
    · exact .inl rfl
    · exact .inr rfl
  have hdiv := (fs.ssize_entries hm' clst).1
  have hlt : clst.toNat / (fs.ssize.toNat / m.toNat) < 2 ^ 64 :=
    Nat.lt_of_le_of_lt (Nat.div_le_self _ _) (Nat.lt_trans clst.toNat_lt (by decide))
  refine congrArg (fs.fatbase + ·) (UInt64.toNat_inj.mp ?_)
  rw [UInt32.toNat_toUInt64, UInt32.toNat_div, UInt32.toNat_div, UInt16.toNat_toUInt32, UInt64.toNat_ofNat', ← hdiv,
    Nat.mod_eq_of_lt hlt]

theorem entryOfs_eq (fs : MountedFs) (clst : UInt32) {m : UInt32} (hm : m = 2 ∨ m = 4) :
    (clst * m % fs.ssize.toUInt32).toNat = clst.toNat * m.toNat % fs.ssize.toNat := by
  have hm' : m.toNat = 2 ∨ m.toNat = 4 := by
    rcases hm with rfl | rfl
    · exact .inl rfl
    · exact .inr rfl
  rw [UInt32.toNat_mod, UInt32.toNat_mul, UInt16.toNat_toUInt32]
  exact (fs.ssize_entries hm' clst).2.1


/-- The bytes of an entry are in the table. -/
theorem offset_lt {t : FsType} {clst n : Nat} (h : clst < n) :
    t.offset clst < t.tableSize n ∧ (t = .fat12 → t.offset clst + 1 < t.tableSize n) := by
  cases t with
  | fat12 =>
      show clst + clst / 2 < n * 3 / 2 + n % 2 ∧ (_ → clst + clst / 2 + 1 < n * 3 / 2 + n % 2)
      have hhalf : n * 3 / 2 = n + n / 2 := by omega
      omega
  | fat16 => show clst * 2 < n * 2 ∧ _; exact ⟨by omega, fun h => by cases h⟩
  | fat32 => show clst * 4 < n * 4 ∧ _; exact ⟨by omega, fun h => by cases h⟩
  | exfat => show clst * 4 < n * 4 ∧ _; exact ⟨by omega, fun h => by cases h⟩

theorem MountedFs.entry_outside (hplaced : fs.Placed) {clst : UInt32} (h : clst < fs.nFatent) :
    tableSector fs (fs.fsType.offset clst.toNat) ≠ noSector ∧
      ¬ fs.inMirror (tableSector fs (fs.fsType.offset clst.toNat)) :=
  tableSector_outside hplaced (offset_lt (UInt32.lt_iff_toNat_lt.mp h)).1

/-- The second byte of an entry of FAT12. -/
theorem MountedFs.entry_outside_snd (hplaced : fs.Placed) (hfs : fs.fsType = .fat12) {clst : UInt32}
    (h : clst < fs.nFatent) :
    tableSector fs (fs.fsType.offset clst.toNat + 1) ≠ noSector ∧
      ¬ fs.inMirror (tableSector fs (fs.fsType.offset clst.toNat + 1)) :=
  tableSector_outside hplaced ((offset_lt (UInt32.lt_iff_toNat_lt.mp h)).2 hfs)

theorem dwordSector_outside (hplaced : fs.Placed) (hfs : fs.fsType = .fat32 ∨ fs.fsType = .exfat) {clst : UInt32}
    (h : clst < fs.nFatent) : fs.dwordSector clst ≠ noSector ∧ ¬ fs.inMirror (fs.dwordSector clst) := by
  have hout := MountedFs.entry_outside hplaced h
  have hofs : fs.fsType.offset clst.toNat = clst.toNat * (4 : UInt32).toNat := by
    rcases hfs with hfs | hfs <;> rw [hfs] <;> rfl
  unfold MountedFs.dwordSector
  rwa [entrySector_eq fs clst (.inr rfl), ← hofs]

/-- The arithmetic of FAT12 does not overflow. -/
theorem offset12_toNat (hfs : fs.fsType = .fat12) {clst : UInt32} (h : clst < fs.nFatent) :
    (clst + clst / 2).toNat = fs.fsType.offset clst.toNat ∧
      (clst + clst / 2 + 1).toNat = fs.fsType.offset clst.toNat + 1 := by
  have hlimit := fs.nFatent_le
  rw [UInt32.lt_iff_toNat_lt] at h
  rw [hfs] at hlimit ⊢
  change _ ≤ 4087 at hlimit
  rw [UInt32.toNat_add, UInt32.toNat_add, UInt32.toNat_div]
  show (clst.toNat + clst.toNat / 2) % 4294967296 = clst.toNat + clst.toNat / 2 ∧
    ((clst.toNat + clst.toNat / 2) % 4294967296 + 1) % 4294967296 = clst.toNat + clst.toNat / 2 + 1
  omega

/-- `get_fat` reads the sectors of the volume, whatever the window held before. -/
theorem getFatWin_spec (hbd : HasSectors bd contents) (hplaced : fs.Placed) {w : Win σ} (h : Coherent contents fs w)
    (obj : ObjId) (clst : UInt32) :
    Got bd contents fs w (getFat fs.toFatfs (fun a => some (view contents w a)) obj clst) (getFatWin bd fs obj clst w) := by
  unfold getFatWin getFat
  by_cases hrange : clst < 2 ∨ fs.nFatent ≤ clst
  · rw [if_pos hrange, if_pos hrange]
    exact ⟨.inl rfl, fun _ => rfl, SameView.refl w, h⟩
  · rw [if_neg hrange, if_neg hrange]
    have hclst : clst < fs.nFatent := UInt32.not_le.mp fun hle => hrange (.inr hle)
    have hout := MountedFs.entry_outside hplaced hclst
    cases hfs : fs.fsType with
    | fat12 =>
        have hsnd := MountedFs.entry_outside_snd hplaced hfs hclst
        obtain ⟨hlow, hhigh⟩ := offset12_toNat hfs hclst
        rw [← hhigh, ← tableSector_eq] at hsnd
        rw [← hlow, ← tableSector_eq] at hout
        dsimp only
        have hmoved := moveWindow_spec hbd h hout.1 hout.2 hplaced
        have hworks : Working bd →
            (moveWindow bd fs (fs.fatbase + ((clst + clst / 2) / fs.ssize.toUInt32).toUInt64) w).1 = frOk :=
          fun hworks => moveWindow_works hworks _ w
        generalize moveWindow bd fs _ w = r at hmoved hworks
        obtain ⟨res, w'⟩ := r
        dsimp only
        by_cases hres : res ≠ frOk
        · rw [if_pos hres]
          exact ⟨.inr rfl, fun hw => absurd (hworks hw) hres, hmoved.same, hmoved.coherent⟩
        · rw [if_neg hres]
          have hread := readWin_spec hbd hplaced hmoved.coherent hsnd.1 hsnd.2 fun win =>
            let wc := (w'.win ((clst + clst / 2) % fs.ssize.toUInt32).toNat).toUInt32 |||
              ((win ((clst + clst / 2 + 1) % fs.ssize.toUInt32).toNat).toUInt32 <<< 8)
            if clst &&& 1 ≠ 0 then wc >>> 4 else wc &&& 0xFFF
          rcases hmoved.res with ⟨-, -, hwin⟩ | herr
          · dsimp only at hwin
            rw [hmoved.same _ hsnd.2, hwin] at hread
            rw [hwin]
            exact ⟨hread.res, hread.works, hmoved.same.trans hread.same, hread.coherent⟩
          · dsimp only at herr
            rw [not_not, herr] at hres
            exact absurd hres (by decide)
    | fat16 =>
        rw [hfs] at hout
        have hsect := entrySector_eq fs clst (.inl rfl)
        dsimp only
        rw [hsect]
        exact readWin_spec hbd hplaced h hout.1 hout.2 fun win => ldWord win (clst * 2 % fs.ssize.toUInt32).toNat
    | fat32 =>
        have hout := dwordSector_outside hplaced (.inl hfs) hclst
        exact readWin_spec hbd hplaced h hout.1 hout.2
          fun win => ldDword win (clst * 4 % fs.ssize.toUInt32).toNat &&& 0x0FFFFFFF
    | exfat =>
        have hout := dwordSector_outside hplaced (.inr hfs) hclst
        dsimp only
        unfold exfatWin exfatEntry
        dsimp only
        split_ifs
        · exact ⟨.inl rfl, fun _ => rfl, SameView.refl w, h⟩
        · exact ⟨.inl rfl, fun _ => rfl, SameView.refl w, h⟩
        · exact ⟨.inl rfl, fun _ => rfl, SameView.refl w, h⟩
        · exact ⟨.inl rfl, fun _ => rfl, SameView.refl w, h⟩
        · exact readWin_spec hbd hplaced h hout.1 hout.2
            fun win => ldDword win (clst * 4 % fs.ssize.toUInt32).toNat &&& 0x7FFFFFFF
        · exact ⟨.inl rfl, fun _ => rfl, SameView.refl w, h⟩
        · exact ⟨.inl rfl, fun _ => rfl, SameView.refl w, h⟩

/-- A file whose clusters are in the table: exFAT keeps others elsewhere. -/
def Chained (fs : MountedFs) (obj : ObjId) : Prop := fs.fsType = .exfat → obj.stat = 0 ∧ obj.nFrag = 0

/-- Entry `clst` of the table. -/
def entry (contents : σ → UInt64 → Nat → UInt8) (fs : MountedFs) (w : Win σ) (clst : Nat) : Nat :=
  entryAt fs.fsType (row contents fs w) clst

theorem row_view (w : Win σ) (k : Nat) :
    row contents fs w k = view contents w (tableSector fs k) (k % fs.ssize.toNat) := rfl

theorem ldDword_view (contents : σ → UInt64 → Nat → UInt8) (fs : MountedFs) (w : Win σ) (clst : UInt32) :
    ldDword (view contents w (fs.dwordSector clst)) (clst * 4 % fs.ssize.toUInt32).toNat =
      ldDword (row contents fs w) (clst.toNat * 4) := by
  have hofs := (fs.ssize_entries (.inr rfl) clst).2.2
  unfold MountedFs.dwordSector
  rw [entrySector_eq fs clst (.inr rfl), entryOfs_eq fs clst (.inr rfl)]
  show ldDword (view contents w (tableSector fs (clst.toNat * 4))) (clst.toNat * 4 % fs.ssize.toNat) = _
  rw [(shows_row contents fs w (clst.toNat * 4)).ldDword (by omega), Nat.div_add_mod]

theorem ldWord_view (contents : σ → UInt64 → Nat → UInt8) (fs : MountedFs) (w : Win σ) (clst : UInt32) :
    ldWord (view contents w (fs.fatbase + (clst / (fs.ssize.toUInt32 / 2)).toUInt64))
        (clst * 2 % fs.ssize.toUInt32).toNat = ldWord (row contents fs w) (clst.toNat * 2) := by
  have hofs := (fs.ssize_entries (.inl rfl) clst).2.2
  rw [entrySector_eq fs clst (.inl rfl), entryOfs_eq fs clst (.inl rfl)]
  show ldWord (view contents w (tableSector fs (clst.toNat * 2))) (clst.toNat * 2 % fs.ssize.toNat) = _
  rw [(shows_row contents fs w (clst.toNat * 2)).ldWord (by omega), Nat.div_add_mod]

theorem ldWord_pick (b : Nat → UInt8) (k : Nat) (clst : UInt32) :
    (if clst &&& 1 ≠ 0 then ldWord b k >>> 4 else ldWord b k &&& 0xFFF).toNat =
      if clst.toNat % 2 = 1 then wordAt b k / 16 else wordAt b k % 4096 := by
  have hodd : clst &&& 1 ≠ 0 ↔ clst.toNat % 2 = 1 := by
    rw [← UInt32.toNat_inj.ne, UInt32.toNat_and]
    show ¬ clst.toNat &&& (2 ^ 1 - 1) = 0 ↔ _
    rw [Nat.and_two_pow_sub_one_eq_mod]
    omega
  by_cases h : clst.toNat % 2 = 1
  · rw [if_pos h, if_pos (hodd.mpr h), UInt32.toNat_shiftRight, ldWord_toNat]
    exact Nat.shiftRight_eq_div_pow _ 4
  · rw [if_neg h, if_neg fun hne => h (hodd.mp hne), UInt32.toNat_and, ldWord_toNat]
    exact Nat.and_two_pow_sub_one_eq_mod _ 12

/-- The entry that `get_fat` means. -/
theorem getFat_toNat {obj : ObjId} (hobj : Chained fs obj) {clst : UInt32} (h : fs.InRange clst) (w : Win σ) :
    (getFat fs.toFatfs (fun a => some (view contents w a)) obj clst).toNat = entry contents fs w clst.toNat := by
  unfold getFat entry
  rw [if_neg (fun hout => hout.elim (UInt32.not_lt.mpr h.1) (UInt32.not_le.mpr h.2))]
  cases hfs : fs.fsType with
  | fat12 =>
      obtain ⟨hlow, hhigh⟩ := offset12_toNat hfs h.2
      rw [hfs] at hlow hhigh
      dsimp only
      rw [tableSector_eq, tableSector_eq, UInt32.toNat_mod, UInt32.toNat_mod, UInt16.toNat_toUInt32, hlow, hhigh,
        ← row_view, ← row_view]
      exact ldWord_pick (row contents fs w) (FsType.offset .fat12 clst.toNat) clst
  | fat16 =>
      dsimp only
      rw [Option.map_some, Option.getD_some, ldWord_view, ldWord_toNat]
      rfl
  | fat32 =>
      show (ldDword (view contents w (fs.dwordSector clst)) (clst * 4 % fs.ssize.toUInt32).toNat &&& 0x0FFFFFFF).toNat = _
      rw [ldDword_view, UInt32.toNat_and, ldDword_toNat]
      exact Nat.and_two_pow_sub_one_eq_mod _ 28
  | exfat =>
      obtain ⟨hstat, hfrag⟩ := hobj hfs
      dsimp only
      unfold exfatEntry
      dsimp only
      rw [if_pos (.inr hstat), if_neg (fun h => absurd (hstat.symm.trans h.1) (by decide)),
        if_neg (fun h => absurd (hstat.symm.trans h.1) (by decide)), if_pos (by rw [hstat]; decide),
        if_neg (not_not.mpr hfrag)]
      show (ldDword (view contents w (fs.dwordSector clst)) (clst * 4 % fs.ssize.toUInt32).toNat &&& 0x7FFFFFFF).toNat = _
      rw [ldDword_view, UInt32.toNat_and, ldDword_toNat]
      exact Nat.and_two_pow_sub_one_eq_mod _ 31

/-! ## Changing an entry -/

/-- What a change of one sector does to the table. -/
theorem Edited.row {w : Win σ} {k₀ : Nat} {f : (Nat → UInt8) → Nat → UInt8} {r : Nat × Win σ}
    (h : Edited contents fs w (tableSector fs k₀) f r) (hk₀ : k₀ < fs.fsType.tableSize fs.nFatent.toNat)
    (hplaced : fs.Placed) (hok : r.1 = frOk) {b : Nat → UInt8}
    (hin : Shows b (fs.ssize.toNat * (k₀ / fs.ssize.toNat)) fs.ssize.toNat (f (view contents w (tableSector fs k₀))))
    (hout : ∀ k, k / fs.ssize.toNat ≠ k₀ / fs.ssize.toNat → b k = FatFs.row contents fs w k) {k : Nat}
    (hk : k < fs.fsType.tableSize fs.nFatent.toNat) : FatFs.row contents fs r.2 k = b k := by
  have hview : view contents r.2 (tableSector fs k₀) = f (view contents w (tableSector fs k₀)) := by
    rcases h.res with ⟨-, hview⟩ | ⟨herr, -⟩
    · exact hview
    · rw [hok] at herr
      exact absurd herr (by decide)
  have hinj := tableSector_inj fs (Nat.lt_trans hk fs.tableSize_le) (Nat.lt_trans hk₀ fs.tableSize_le)
  rw [row_view]
  by_cases hsect : k / fs.ssize.toNat = k₀ / fs.ssize.toNat
  · have hpos : 0 < fs.ssize.toNat := Nat.lt_of_lt_of_le (by decide) fs.ssize_le
    rw [hinj.mpr hsect, hview, hin _ (Nat.mod_lt k hpos), ← hsect, Nat.div_add_mod]
  · rw [h.others _ (tableSector_outside hplaced hk).2 fun heq => hsect (hinj.mp heq), hout k hsect, row_view]

theorem entryAt_congr {t : FsType} {b b' : Nat → UInt8} {n d : Nat} (hd : d < n)
    (h : ∀ k < t.tableSize n, b k = b' k) : entryAt t b d = entryAt t b' d := by
  have hofs := offset_lt (t := t) hd
  cases t with
  | fat12 =>
      have hword : wordAt b (d + d / 2) = wordAt b' (d + d / 2) := by
        unfold wordAt
        rw [h (d + d / 2) hofs.1, h (d + d / 2 + 1) (hofs.2 rfl)]
      unfold entryAt
      dsimp only
      rw [hword]
  | fat16 =>
      have hsize : FsType.tableSize .fat16 n = n * 2 := rfl
      unfold entryAt
      dsimp only
      unfold wordAt
      rw [h _ (by omega), h _ (by omega)]
  | fat32 =>
      have hsize : FsType.tableSize .fat32 n = n * 4 := rfl
      unfold entryAt
      dsimp only
      unfold dwordAt wordAt
      rw [h _ (by omega), h _ (by omega), h _ (by omega), h _ (by omega)]
  | exfat =>
      have hsize : FsType.tableSize .exfat n = n * 4 := rfl
      unfold entryAt
      dsimp only
      unfold dwordAt wordAt
      rw [h _ (by omega), h _ (by omega), h _ (by omega), h _ (by omega)]

/-- No sector has changed but those of the tables. -/
def SameData (contents : σ → UInt64 → Nat → UInt8) (fs : MountedFs) (w w' : Win σ) : Prop :=
  ∀ a, ¬ fs.inMirror a → (∀ k < fs.fsType.tableSize fs.nFatent.toNat, a ≠ tableSector fs k) →
    view contents w' a = view contents w a

theorem SameView.data {w w' : Win σ} (h : SameView contents fs w w') : SameData contents fs w w' := fun a ha _ => h a ha

theorem SameData.trans {w w' w'' : Win σ} (h : SameData contents fs w w') (h' : SameData contents fs w' w'') :
    SameData contents fs w w'' := fun a ha hk => (h' a ha hk).trans (h a ha hk)

/-- The window is still good, and nothing but the tables has changed. -/
structure Undisturbed (contents : σ → UInt64 → Nat → UInt8) (fs : MountedFs) (w w' : Win σ) : Prop where
  coherent : Coherent contents fs w'
  data : SameData contents fs w w'

theorem Undisturbed.trans {w w' w'' : Win σ} (h : Undisturbed contents fs w w') (h' : Undisturbed contents fs w' w'') :
    Undisturbed contents fs w w'' := ⟨h'.coherent, h.data.trans h'.data⟩

/-- What a call of `put_fat` for an entry in range does. -/
structure Put (contents : σ → UInt64 → Nat → UInt8) (fs : MountedFs) (w : Win σ) (clst val : UInt32)
    (r : Nat × Win σ) : Prop where
  res : r.1 = frOk ∨ r.1 = frDiskErr
  done : r.1 = frOk → ∀ k < fs.fsType.tableSize fs.nFatent.toNat,
    row contents fs r.2 k = putEntry fs.fsType (row contents fs w) clst.toNat val k
  others : ∀ d < fs.nFatent.toNat, d ≠ clst.toNat → entry contents fs r.2 d = entry contents fs w d
  failed : r.1 ≠ frOk → fs.fsType ≠ .fat12 → SameView contents fs w r.2
  data : SameData contents fs w r.2
  coherent : Coherent contents fs r.2

theorem SameView.row {w w' : Win σ} (h : SameView contents fs w w') (hplaced : fs.Placed) {k : Nat}
    (hk : k < fs.fsType.tableSize fs.nFatent.toNat) : row contents fs w' k = FatFs.row contents fs w k := by
  rw [row_view, row_view, h _ (tableSector_outside hplaced hk).2]

theorem SameView.entry {w w' : Win σ} (h : SameView contents fs w w') (hplaced : fs.Placed) {d : Nat}
    (hd : d < fs.nFatent.toNat) : entry contents fs w' d = FatFs.entry contents fs w d :=
  entryAt_congr hd fun _ hk => h.row hplaced hk

/-- An entry that lies in one sector. -/
theorem Edited.put {w : Win σ} {clst val : UInt32} {k₀ : Nat} {f : (Nat → UInt8) → Nat → UInt8} {r : Nat × Win σ}
    (h : Edited contents fs w (tableSector fs k₀) f r) (hk₀ : k₀ < fs.fsType.tableSize fs.nFatent.toNat)
    (hplaced : fs.Placed)
    (hin : Shows (putEntry fs.fsType (FatFs.row contents fs w) clst.toNat val)
      (fs.ssize.toNat * (k₀ / fs.ssize.toNat)) fs.ssize.toNat (f (view contents w (tableSector fs k₀))))
    (hout : ∀ k, k / fs.ssize.toNat ≠ k₀ / fs.ssize.toNat →
      putEntry fs.fsType (FatFs.row contents fs w) clst.toNat val k = FatFs.row contents fs w k) :
    Put contents fs w clst val r := by
  have hdone : r.1 = frOk → ∀ k < fs.fsType.tableSize fs.nFatent.toNat,
      FatFs.row contents fs r.2 k = putEntry fs.fsType (FatFs.row contents fs w) clst.toNat val k :=
    fun hok _ hk => h.row hk₀ hplaced hok hin hout hk
  refine ⟨h.res.imp (·.1) (·.1), hdone, fun d hd hne => ?_, fun hfail _ => ?_, fun a ha hne => ?_, h.coherent⟩
  · rcases h.res with ⟨hok, -⟩ | ⟨-, hsame⟩
    · refine (entryAt_congr hd (hdone hok)).trans ?_
      rw [entryAt_putEntry, if_neg hne]
      rfl
    · exact hsame.entry hplaced hd
  · rcases h.res with ⟨hok, -⟩ | ⟨-, hsame⟩
    · exact absurd hok hfail
    · exact hsame
  · exact h.others a ha (hne k₀ hk₀)

theorem stDword_of_div {b : Nat → UInt8} {k₀ ss : Nat} (hofs : k₀ % ss + 4 ≤ ss) (val : UInt32) {k : Nat}
    (hk : k / ss ≠ k₀ / ss) : stDword b k₀ val k = b k := by
  refine UInt8.toNat_inj.mp ?_
  rw [stDword_toNat, if_neg]
  rintro ⟨hle, hlt⟩
  refine hk (Nat.div_eq_of_lt_le ?_ ?_)
  · exact Nat.le_trans (Nat.div_mul_le_self k₀ ss) hle
  · have hsplit := Nat.div_add_mod k₀ ss
    rw [Nat.succ_mul, Nat.mul_comm]
    omega

theorem stWord_of_div {b : Nat → UInt8} {k₀ ss : Nat} (hofs : k₀ % ss + 2 ≤ ss) (val : UInt32) {k : Nat}
    (hk : k / ss ≠ k₀ / ss) : stWord b k₀ val k = b k := by
  have hne : k ≠ k₀ := by
    rintro rfl
    exact hk rfl
  have hne' : k ≠ k₀ + 1 := by
    rintro rfl
    have hsplit := Nat.div_add_mod k₀ ss
    refine hk (Nat.div_eq_of_lt_le ?_ ?_)
    · exact Nat.le_trans (Nat.div_mul_le_self k₀ ss) (Nat.le_succ _)
    · rw [Nat.succ_mul, Nat.mul_comm]
      omega
  refine UInt8.toNat_inj.mp ?_
  rw [stWord_toNat, if_neg hne', if_neg hne]

/-- One byte of an entry. -/
theorem Edited.byte {w : Win σ} {k₀ : Nat} {g : UInt8 → UInt8} {r : Nat × Win σ}
    (h : Edited contents fs w (tableSector fs k₀)
      (fun win => Function.update win (k₀ % fs.ssize.toNat) (g (win (k₀ % fs.ssize.toNat)))) r)
    (hk₀ : k₀ < fs.fsType.tableSize fs.nFatent.toNat) (hplaced : fs.Placed) (hok : r.1 = frOk) {k : Nat}
    (hk : k < fs.fsType.tableSize fs.nFatent.toNat) :
    FatFs.row contents fs r.2 k =
      Function.update (FatFs.row contents fs w) k₀ (g (FatFs.row contents fs w k₀)) k := by
  refine h.row hk₀ hplaced hok ?_ (fun k hk => ?_) hk
  · have hshows := (shows_row contents fs w k₀).update (k₀ % fs.ssize.toNat)
      (g (FatFs.row contents fs w k₀))
    rwa [Nat.div_add_mod] at hshows
  · refine Function.update_of_ne ?_ _ _
    rintro rfl
    exact hk rfl

/-- The first half of a change leaves all other entries of FAT12 alone. -/
theorem entryAt_putLow (b : Nat → UInt8) {clst d : Nat} (val : UInt32) (hne : d ≠ clst) :
    entryAt .fat12 (Function.update b (clst + clst / 2) (putLow (clst % 2 = 1) val (b (clst + clst / 2)))) d =
      entryAt .fat12 b d := by
  have hbyte : ∀ k, (Function.update b (clst + clst / 2) (putLow (clst % 2 = 1) val (b (clst + clst / 2))) k).toNat =
      if k = clst + clst / 2 then
        if clst % 2 = 1 then (b k).toNat % 16 + 16 * (val.toNat % 16) else val.toNat % 256
      else (b k).toNat := by
    intro k
    by_cases hk : k = clst + clst / 2
    · subst hk
      rw [if_pos rfl, Function.update_self, putLow_toNat]
      exact if_congr decide_eq_true_iff rfl rfl
    · rw [if_neg hk, Function.update_of_ne hk]
  have hlow : (b (d + d / 2)).toNat < 256 := (b _).toNat_lt
  unfold entryAt
  dsimp only
  unfold wordAt
  rw [hbyte, hbyte]
  split
  · split_ifs <;> omega
  · split_ifs <;> omega

/-- Entries of four bytes. -/
theorem editDword_put (hbd : HasSectors bd contents) (hplaced : fs.Placed) {w : Win σ} (h : Coherent contents fs w)
    (hfs : fs.fsType = .fat32 ∨ fs.fsType = .exfat) {clst : UInt32} (hrange : fs.InRange clst) (val : UInt32) :
    Put contents fs w clst val (editWin bd fs (fs.dwordSector clst)
      (fun win => stDword win (clst * 4 % fs.ssize.toUInt32).toNat
        (putDword fs.fsType (ldDword win (clst * 4 % fs.ssize.toUInt32).toNat) val)) w) := by
  have hofs : fs.fsType.offset clst.toNat = clst.toNat * (4 : UInt32).toNat := by
    rcases hfs with hfs | hfs <;> rw [hfs] <;> rfl
  have hput : putEntry fs.fsType (FatFs.row contents fs w) clst.toNat val =
      stDword (FatFs.row contents fs w) (clst.toNat * (4 : UInt32).toNat)
        (putDword fs.fsType (ldDword (FatFs.row contents fs w) (clst.toNat * 4)) val) := by
    rcases hfs with hfs | hfs <;> rw [hfs] <;> rfl
  have hlt := (offset_lt (t := fs.fsType) (UInt32.lt_iff_toNat_lt.mp hrange.2)).1
  have hin := (fs.ssize_entries (.inr rfl) clst).2.2
  have hout := dwordSector_outside hplaced hfs hrange.2
  have hedit := editWin_spec hbd hplaced h hout.1 hout.2 fun win =>
    stDword win (clst * 4 % fs.ssize.toUInt32).toNat
      (putDword fs.fsType (ldDword win (clst * 4 % fs.ssize.toUInt32).toNat) val)
  have hload := ldDword_view contents fs w clst
  unfold MountedFs.dwordSector at hedit hload ⊢
  rw [entrySector_eq fs clst (.inr rfl)] at hedit hload ⊢
  rw [hofs] at hlt
  refine hedit.put hlt hplaced ?_ fun k hk => ?_
  · rw [hput, hload, entryOfs_eq fs clst (.inr rfl)]
    have hshows := (shows_row contents fs w (clst.toNat * (4 : UInt32).toNat)).stDword
      (clst.toNat * (4 : UInt32).toNat % fs.ssize.toNat)
      (putDword fs.fsType (ldDword (FatFs.row contents fs w) (clst.toNat * 4)) val)
    rwa [Nat.div_add_mod] at hshows
  · rw [hput]
    exact stDword_of_div hin _ hk

theorem put12_eq (hfs : fs.fsType = .fat12) (b : Nat → UInt8) (clst : Nat) (val : UInt32) :
    putEntry fs.fsType b clst val =
      Function.update
        (Function.update b (fs.fsType.offset clst) (putLow (clst % 2 = 1) val (b (fs.fsType.offset clst))))
        (fs.fsType.offset clst + 1) (putHigh (clst % 2 = 1) val (b (fs.fsType.offset clst + 1))) := by
  rw [hfs]
  unfold putEntry
  dsimp only
  rw [Function.update_of_ne (Nat.succ_ne_self _)]
  rfl

/-- An entry of FAT12, one byte after the other. -/
theorem editBytes_put (hbd : HasSectors bd contents) (hplaced : fs.Placed) {w : Win σ} (h : Coherent contents fs w)
    (hfs : fs.fsType = .fat12) {clst : UInt32} (hrange : fs.InRange clst) (val : UInt32) :
    Put contents fs w clst val (putFat bd fs clst val w) := by
  have hlt := UInt32.lt_iff_toNat_lt.mp hrange.2
  obtain ⟨hlow, hhigh⟩ := offset12_toNat hfs hrange.2
  have hfst := MountedFs.entry_outside hplaced hrange.2
  have hsnd := MountedFs.entry_outside_snd hplaced hfs hrange.2
  have hofs := offset_lt (t := fs.fsType) hlt
  have hodd : decide (clst % 2 = 1) = decide (clst.toNat % 2 = 1) := by
    refine decide_eq_decide.mpr ?_
    rw [← UInt32.toNat_inj, UInt32.toNat_mod]
    rfl
  unfold putFat
  rw [if_pos (show 2 ≤ clst ∧ clst < fs.nFatent from hrange), hfs]
  dsimp only
  rw [tableSector_eq, tableSector_eq, UInt32.toNat_mod, UInt32.toNat_mod, UInt16.toNat_toUInt32, hlow, hhigh, hodd]
  have hedit := editWin_spec hbd hplaced h hfst.1 hfst.2 fun win =>
    Function.update win (fs.fsType.offset clst.toNat % fs.ssize.toNat)
      (putLow (clst.toNat % 2 = 1) val (win (fs.fsType.offset clst.toNat % fs.ssize.toNat)))
  generalize editWin bd fs (tableSector fs (fs.fsType.offset clst.toNat)) _ w = r at hedit
  obtain ⟨res, w'⟩ := r
  dsimp only
  by_cases hres : res ≠ frOk
  · rw [if_pos hres]
    rcases hedit.res with ⟨hok, -⟩ | ⟨herr, hsame⟩
    · exact absurd hok hres
    · exact ⟨.inr herr, fun hok => absurd hok hres, fun d hd _ => hsame.entry hplaced hd, fun _ _ => hsame,
        fun a ha _ => hsame a ha, hedit.coherent⟩
  · rw [if_neg hres]
    have hrow := fun k (hk : k < fs.fsType.tableSize fs.nFatent.toNat) =>
      hedit.byte hofs.1 hplaced (not_not.mp hres) hk
    have hedit' := editWin_spec hbd hplaced hedit.coherent hsnd.1 hsnd.2 fun win =>
      Function.update win ((fs.fsType.offset clst.toNat + 1) % fs.ssize.toNat)
        (putHigh (clst.toNat % 2 = 1) val (win ((fs.fsType.offset clst.toNat + 1) % fs.ssize.toNat)))
    generalize editWin bd fs (tableSector fs (fs.fsType.offset clst.toNat + 1)) _ w' = r' at hedit'
    have hlow' := hrow _ hofs.1
    have hhigh' := hrow _ (hofs.2 hfs)
    have hofs12 : fs.fsType.offset clst.toNat = clst.toNat + clst.toNat / 2 := by
      rw [hfs]
      rfl
    rw [Function.update_of_ne (Nat.succ_ne_self _)] at hhigh'
    have hdone : r'.1 = frOk → ∀ k < fs.fsType.tableSize fs.nFatent.toNat,
        FatFs.row contents fs r'.2 k = putEntry fs.fsType (FatFs.row contents fs w) clst.toNat val k := by
      intro hok k hk
      rw [hedit'.byte (hofs.2 hfs) hplaced hok hk, hhigh', put12_eq hfs]
      by_cases heq : k = fs.fsType.offset clst.toNat + 1
      · rw [heq, Function.update_self, Function.update_self]
      · rw [Function.update_of_ne heq, Function.update_of_ne heq, hrow k hk]
    refine ⟨hedit'.res.imp (·.1) (·.1), hdone, fun d hd hne => ?_, fun _ hne => absurd hfs hne, fun a ha hne => ?_,
      hedit'.coherent⟩
    · rcases hedit'.res with ⟨hok, -⟩ | ⟨-, hsame⟩
      · refine (entryAt_congr hd (hdone hok)).trans ?_
        rw [entryAt_putEntry, if_neg hne]
        rfl
      · refine (hsame.entry hplaced hd).trans ((entryAt_congr hd hrow).trans ?_)
        unfold entry
        rw [hofs12, hfs]
        exact entryAt_putLow _ val hne
    · exact (hedit'.others a ha (hne _ (hofs.2 hfs))).trans (hedit.others a ha (hne _ hofs.1))

/-- `put_fat` changes one entry or fails. -/
theorem putFat_spec (hbd : HasSectors bd contents) (hplaced : fs.Placed) {w : Win σ} (h : Coherent contents fs w)
    {clst : UInt32} (hrange : fs.InRange clst) (val : UInt32) :
    Put contents fs w clst val (putFat bd fs clst val w) := by
  have hout := MountedFs.entry_outside hplaced hrange.2
  have hofs := (offset_lt (t := fs.fsType) (UInt32.lt_iff_toNat_lt.mp hrange.2)).1
  cases hfs : fs.fsType with
  | fat12 => exact editBytes_put hbd hplaced h hfs hrange val
  | fat16 =>
      have hin := (fs.ssize_entries (.inl rfl) clst).2.2
      unfold putFat
      rw [if_pos (show 2 ≤ clst ∧ clst < fs.nFatent from hrange), hfs]
      rw [hfs] at hout
      dsimp only
      rw [entrySector_eq fs clst (.inl rfl), entryOfs_eq fs clst (.inl rfl)]
      have hedit := editWin_spec hbd hplaced h hout.1 hout.2
        fun win => stWord win (clst.toNat * 2 % fs.ssize.toNat) val
      refine hedit.put (by rw [hfs] at hofs ⊢; exact hofs) hplaced ?_ fun k hk => ?_
      · have hshows := (shows_row contents fs w (clst.toNat * 2)).stWord (clst.toNat * 2 % fs.ssize.toNat) val
        rw [Nat.div_add_mod] at hshows
        rw [hfs]
        exact hshows
      · rw [hfs]
        exact stWord_of_div hin val hk
  | fat32 =>
      have hedit := editDword_put hbd hplaced h (.inl hfs) hrange val
      unfold putFat
      rw [if_pos (show 2 ≤ clst ∧ clst < fs.nFatent from hrange), hfs]
      rwa [hfs] at hedit
  | exfat =>
      have hedit := editDword_put hbd hplaced h (.inr hfs) hrange val
      unfold putFat
      rw [if_pos (show 2 ≤ clst ∧ clst < fs.nFatent from hrange), hfs]
      rwa [hfs] at hedit

end Table

end BdmAssault.FatFs
