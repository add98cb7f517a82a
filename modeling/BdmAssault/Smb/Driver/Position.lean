import Mathlib.Algebra.Group.Int.Defs
import Mathlib.Algebra.Group.Nat.Defs
import BdmAssault.Smb.Driver.Reconnect

/-! # The position of an open file

`smb_lseek64`, `smb_read`, `smb_write` and the reconnect on the fields `filesize` and
`position` of a handle, with the `s64` and `int` arithmetic of the code. A sum that
overflows wraps, as the additions of the processor do.
-/

namespace BdmAssault.Smb.Driver

open Lib

/-! ## The fields -/

structure Cursor where
  filesize : Int64
  position : Int64
deriving DecidableEq, Repr

def Cursor.Inside (c : Cursor) : Prop := 0 ≤ c.position ∧ c.position ≤ c.filesize

instance (c : Cursor) : Decidable c.Inside :=
  inferInstanceAs (Decidable (0 ≤ c.position ∧ c.position ≤ c.filesize))

/-- What `smb_open` leaves, with the size that the server reports. -/
def Cursor.opened (filesize : Int64) (truncate append : Bool) : Cursor where
  filesize := if truncate then 0 else filesize
  position := if truncate then 0 else if append then filesize else 0

/-- `-EINVAL` -/
def invalid : Int64 := -22

/-- The result and the new fields; `none` is any other value of `where`. -/
def Cursor.lseek64 (c : Cursor) (pos : Int64) : Option Whence → Int64 × Cursor
  | some .cur =>
      let r := c.position + pos
      if r > c.filesize then (invalid, c) else (r, { c with position := r })
  | some .set => if c.filesize < pos then (invalid, c) else (pos, { c with position := pos })
  | some .end => (c.filesize, { c with position := c.filesize })
  | none => (invalid, c)

/-- The size that `smb_read` goes on with. -/
def Cursor.clamp (c : Cursor) (size : Int32) : Int32 :=
  if c.position + size.toInt64 > c.filesize then (c.filesize - c.position).toInt32 else size

/-- Each reconnect replaces the size. -/
def Cursor.report (c : Cursor) (reported : List Int64) : Cursor :=
  { c with filesize := reported.getLastD c.filesize }

/-! ## Operations -/

/-- An operation on the file, with the sizes that reconnects report meanwhile: `delivered`
is what `smb_ReadCached` returns to a read, and `taken` what
`smb_WriteFileWithReconnect` returns to a write. A reconnect is also the work of the
keep-alive thread and of the other files. -/
inductive FileOp where
  | lseek (pos : Int64) (whence : Option Whence)
  | read (size : Int32) (reported : List Int64) (delivered : Int32)
  | write (size : Int32) (reported : List Int64) (taken : Int32)
  | reconnect (reported : List Int64)
deriving DecidableEq, Repr

def FileOp.after (c : Cursor) : FileOp → Cursor
  | .lseek pos whence => (c.lseek64 pos whence).2
  | .read _ reported delivered =>
      let c := c.report reported
      if delivered > 0 then { c with position := c.position + delivered.toInt64 } else c
  | .write _ reported taken =>
      let c := c.report reported
      if taken > 0 then
        let position := c.position + taken.toInt64
        { filesize := if position > c.filesize then c.filesize + (position - c.filesize)
            else c.filesize
          position := position }
      else c
  | .reconnect reported => c.report reported

/-- No more is read than was asked for, and a write is whole or fails. -/
def FileOp.Possible (c : Cursor) : FileOp → Prop
  | .read size _ delivered => delivered > 0 → delivered ≤ c.clamp size
  | .write size _ taken => taken > 0 → taken = size
  | _ => True

/-! ## The meaning of a seek -/

def Whence.target (c : Cursor) (pos : Int64) : Whence → Int
  | .cur => c.position.toInt + pos.toInt
  | .set => pos.toInt
  | .end => c.filesize.toInt + pos.toInt

/-- The position moves to the target and is returned. -/
structure Moved (c : Cursor) (target : Int) (r : Int64) (c' : Cursor) : Prop where
  inside : 0 ≤ target ∧ target ≤ c.filesize.toInt
  result : r.toInt = target
  cursor : c' = { c with position := r }

/-- An error is returned, and the position stays. -/
structure Refused (c : Cursor) (r : Int64) (c' : Cursor) : Prop where
  result : r < 0
  cursor : c' = c

/-- A seek moves to its target if that is in the file, and is refused otherwise. -/
def FileOp.Meets (c : Cursor) : FileOp → Prop
  | .lseek pos whence =>
      let r := c.lseek64 pos whence
      (∃ w, whence = some w ∧ Moved c (w.target c pos) r.1 r.2) ∨
        (∀ w, whence = some w → ¬(0 ≤ w.target c pos ∧ w.target c pos ≤ c.filesize.toInt)) ∧
          Refused c r.1 r.2
  | _ => True

/-! ## What is relied on -/

/-- A size that is reported last leaves the position in the file. -/
def Reports (reported : List Int64) (position : Int) : Prop :=
  ∀ s, reported.getLast? = some s → position ≤ s.toInt

/-- No position in front of the file, no seek from its end but to the end, no overflow of
`s64`, and no reconnect to a file that ends in front of the position. -/
def FileOp.Allowed (c : Cursor) : FileOp → Prop
  | .lseek pos (some .set) => 0 ≤ pos
  | .lseek pos (some .cur) =>
      0 ≤ c.position.toInt + pos.toInt ∧ c.position.toInt + pos.toInt < 2 ^ 63
  | .lseek pos (some .end) => pos = 0
  | .lseek _ none => True
  | .read size reported delivered =>
      c.position.toInt + size.toInt < 2 ^ 63 ∧
        Reports reported (c.position.toInt + max delivered.toInt 0)
  | .write size reported taken =>
      if 0 < taken then c.position.toInt + size.toInt < 2 ^ 63
      else Reports reported c.position.toInt
  | .reconnect reported => Reports reported c.position.toInt

/-! ## Machine integers -/

theorem bmod_of_range {i : Int} (h : -2 ^ 63 ≤ i) (h' : i < 2 ^ 63) : i.bmod (2 ^ 64) = i :=
  Int.bmod_eq_of_le (by omega) (by omega)

/-- A sum past the range comes out negative. -/
theorem bmod_of_overflow {i : Int} (h : 2 ^ 63 ≤ i) (h' : i < 2 ^ 64) :
    i.bmod (2 ^ 64) = i - 2 ^ 64 := by
  rw [← Int.sub_bmod_right]
  exact bmod_of_range (by omega) (by omega)

theorem toInt_add_of_range {a b : Int64} (h : -2 ^ 63 ≤ a.toInt + b.toInt)
    (h' : a.toInt + b.toInt < 2 ^ 63) : (a + b).toInt = a.toInt + b.toInt :=
  (Int64.toInt_add a b).trans (bmod_of_range h h')

theorem toInt_sub_of_range {a b : Int64} (h : -2 ^ 63 ≤ a.toInt - b.toInt)
    (h' : a.toInt - b.toInt < 2 ^ 63) : (a - b).toInt = a.toInt - b.toInt :=
  (Int64.toInt_sub a b).trans (bmod_of_range h h')

theorem toInt_toInt32_of_range {a : Int64} (h : -2 ^ 31 ≤ a.toInt) (h' : a.toInt < 2 ^ 31) :
    a.toInt32.toInt = a.toInt :=
  (Int64.toInt_toInt32 a).trans (Int.bmod_eq_of_le (by omega) (by omega))

theorem Cursor.inside_iff {c : Cursor} :
    c.Inside ↔ 0 ≤ c.position.toInt ∧ c.position.toInt ≤ c.filesize.toInt := by
  unfold Cursor.Inside
  rw [Int64.le_iff_toInt_le, Int64.le_iff_toInt_le, Int64.toInt_zero]

/-! ## Seeks -/

theorem invalid_neg : invalid < 0 := by decide

section Seek

variable {c : Cursor} {pos : Int64}

/-- A seek that stores `r` and returns it meets its target in one case only. -/
theorem moved_iff (hin : c.Inside) {target : Int} {r : Int64} (hr : r.toInt ≤ c.filesize.toInt) :
    (Moved c target r { c with position := r } ∨
        ¬(0 ≤ target ∧ target ≤ c.filesize.toInt) ∧ Refused c r { c with position := r }) ↔
      0 ≤ target ∧ r.toInt = target := by
  obtain ⟨hlow, hhigh⟩ := Cursor.inside_iff.mp hin
  constructor
  · rintro (hmoved | ⟨-, hrefused⟩)
    · exact ⟨hmoved.inside.1, hmoved.result⟩
    · have hkept : r = c.position := congrArg Cursor.position hrefused.cursor
      have hnegative := Int64.lt_iff_toInt_lt.mp hrefused.result
      rw [hkept, Int64.toInt_zero] at hnegative
      omega
  · rintro ⟨hpositive, rfl⟩
    exact Or.inl ⟨⟨hpositive, hr⟩, rfl, rfl⟩

theorem refused_of_beyond {target : Int} (hbeyond : c.filesize.toInt < target) :
    Moved c target invalid c ∨
      ¬(0 ≤ target ∧ target ≤ c.filesize.toInt) ∧ Refused c invalid c :=
  Or.inr ⟨fun h => by omega, invalid_neg, rfl⟩

theorem meets_some {w : Whence} {r : Int64} {c' : Cursor} (h : c.lseek64 pos (some w) = (r, c')) :
    (FileOp.lseek pos (some w)).Meets c ↔ Moved c (w.target c pos) r c' ∨
      ¬(0 ≤ w.target c pos ∧ w.target c pos ≤ c.filesize.toInt) ∧ Refused c r c' := by
  simp [FileOp.Meets, h]

theorem lseek_none_meets : (FileOp.lseek pos none).Meets c :=
  Or.inr ⟨nofun, invalid_neg, rfl⟩

theorem lseek_set_meets (hin : c.Inside) :
    (FileOp.lseek pos (some .set)).Meets c ↔ 0 ≤ pos.toInt := by
  by_cases hbeyond : c.filesize < pos
  · have hlarge := Int64.lt_iff_toInt_lt.mp hbeyond
    have hresult : c.lseek64 pos (some .set) = (invalid, c) := if_pos hbeyond
    refine iff_of_true ((meets_some hresult).mpr (refused_of_beyond hlarge)) ?_
    have hsize := Cursor.inside_iff.mp hin
    omega
  · have hsize := Int.not_lt.mp (mt Int64.lt_iff_toInt_lt.mpr hbeyond)
    have hresult : c.lseek64 pos (some .set) = (pos, { c with position := pos }) := if_neg hbeyond
    exact ((meets_some hresult).trans (moved_iff hin hsize)).trans (and_iff_left rfl)

/-- A sum past the range comes out in front of the file, where the check lets it pass. -/
theorem lseek_cur_meets (hin : c.Inside) : (FileOp.lseek pos (some .cur)).Meets c ↔
    0 ≤ c.position.toInt + pos.toInt ∧ c.position.toInt + pos.toInt < 2 ^ 63 := by
  obtain ⟨hlow, hhigh⟩ := Cursor.inside_iff.mp hin
  have hpos := pos.toInt_lt
  have hpos' := pos.le_toInt
  have hposition := c.position.toInt_lt
  have hfilesize := c.filesize.toInt_lt
  by_cases hover : c.position.toInt + pos.toInt < 2 ^ 63
  · have hsum := toInt_add_of_range (by omega) hover
    by_cases hbeyond : c.position + pos > c.filesize
    · have hlarge := Int64.lt_iff_toInt_lt.mp hbeyond
      rw [hsum] at hlarge
      have hresult : c.lseek64 pos (some .cur) = (invalid, c) := if_pos hbeyond
      refine iff_of_true ((meets_some hresult).mpr (refused_of_beyond hlarge)) ?_
      exact ⟨by omega, hover⟩
    · have hsize := Int.not_lt.mp (mt Int64.lt_iff_toInt_lt.mpr hbeyond)
      have hresult : c.lseek64 pos (some .cur) =
        (c.position + pos, { c with position := c.position + pos }) := if_neg hbeyond
      refine ((meets_some hresult).trans (moved_iff hin hsize)).trans ?_
      exact and_congr_right fun _ => iff_of_true hsum hover
  · have hsum : (c.position + pos).toInt = c.position.toInt + pos.toInt - 2 ^ 64 :=
      (Int64.toInt_add _ _).trans (bmod_of_overflow (by omega) (by omega))
    have hpasses : ¬c.position + pos > c.filesize := by
      rw [gt_iff_lt, Int64.lt_iff_toInt_lt]
      omega
    have hsize : (c.position + pos).toInt ≤ c.filesize.toInt := by omega
    have hresult : c.lseek64 pos (some .cur) =
      (c.position + pos, { c with position := c.position + pos }) := if_neg hpasses
    refine ((meets_some hresult).trans (moved_iff hin hsize)).trans ?_
    refine iff_of_false (fun h => ?_) fun h => hover h.2
    have hwrapped : (c.position + pos).toInt = c.position.toInt + pos.toInt := h.2
    omega

theorem lseek_end_meets (hin : c.Inside) : (FileOp.lseek pos (some .end)).Meets c ↔ pos = 0 := by
  obtain ⟨hlow, hhigh⟩ := Cursor.inside_iff.mp hin
  have hsize : c.filesize.toInt ≤ c.filesize.toInt := Int.le_refl _
  refine ((meets_some rfl).trans (moved_iff hin hsize)).trans ?_
  show 0 ≤ c.filesize.toInt + pos.toInt ∧ c.filesize.toInt = c.filesize.toInt + pos.toInt ↔ _
  rw [← Int64.toInt_inj, Int64.toInt_zero]
  omega

/-- A seek inside of the file does what it is for exactly when it is allowed. -/
theorem lseek_meets_iff (hin : c.Inside) (whence : Option Whence) :
    (FileOp.lseek pos whence).Meets c ↔ (FileOp.lseek pos whence).Allowed c := by
  match whence with
  | none => exact iff_of_true lseek_none_meets trivial
  | some .set =>
      refine (lseek_set_meets hin).trans ?_
      show _ ↔ 0 ≤ pos
      rw [Int64.le_iff_toInt_le, Int64.toInt_zero]
  | some .cur => exact lseek_cur_meets hin
  | some .end => exact lseek_end_meets hin

/-- A seek that does what it is for stays in the file. -/
theorem FileOp.Meets.inside {whence : Option Whence} (h : (FileOp.lseek pos whence).Meets c)
    (hin : c.Inside) : ((FileOp.lseek pos whence).after c).Inside := by
  rcases h with ⟨w, -, hmoved⟩ | ⟨-, hrefused⟩
  · show (c.lseek64 pos whence).2.Inside
    rw [hmoved.cursor, Cursor.inside_iff]
    show 0 ≤ (c.lseek64 pos whence).1.toInt ∧ (c.lseek64 pos whence).1.toInt ≤ c.filesize.toInt
    rw [hmoved.result]
    exact hmoved.inside
  · show (c.lseek64 pos whence).2.Inside
    rw [hrefused.cursor]
    exact hin

end Seek

/-! ## Transfers and reconnects -/

section Transfer

variable {c : Cursor} {size : Int32} {reported : List Int64}

/-- A read is cut at the end of the file; the difference fits an `int` then. -/
theorem clamp_toInt (hin : c.Inside) (hsum : c.position.toInt + size.toInt < 2 ^ 63) :
    (c.clamp size).toInt = min size.toInt (c.filesize.toInt - c.position.toInt) := by
  obtain ⟨hlow, hhigh⟩ := Cursor.inside_iff.mp hin
  have hsize := size.toInt_lt
  have hsize' := size.le_toInt
  have hfilesize := c.filesize.toInt_lt
  have hend : (c.position + size.toInt64).toInt = c.position.toInt + size.toInt := by
    rw [← Int32.toInt_toInt64] at hsum hsize'
    rw [toInt_add_of_range (by omega) hsum, Int32.toInt_toInt64]
  unfold Cursor.clamp
  split
  · rename_i hbeyond
    have hlarge := Int64.lt_iff_toInt_lt.mp hbeyond
    rw [hend] at hlarge
    have hleft : (c.filesize - c.position).toInt = c.filesize.toInt - c.position.toInt :=
      toInt_sub_of_range (by omega) (by omega)
    rw [toInt_toInt32_of_range (by omega) (by omega), hleft]
    omega
  · rename_i hwithin
    have hsmall := mt Int64.lt_iff_toInt_lt.mpr hwithin
    rw [hend] at hsmall
    omega

theorem report_covers {position : Int} (hsize : position ≤ c.filesize.toInt)
    (hreports : Reports reported position) : position ≤ (c.report reported).filesize.toInt := by
  unfold Cursor.report
  rw [List.getLastD_eq_getLast?]
  cases hlast : reported.getLast? with
  | none => exact hsize
  | some s => exact hreports s hlast

theorem reconnect_inside (hin : c.Inside) (hreports : Reports reported c.position.toInt) :
    (c.report reported).Inside := by
  obtain ⟨hlow, hhigh⟩ := Cursor.inside_iff.mp hin
  exact Cursor.inside_iff.mpr ⟨hlow, report_covers hhigh hreports⟩

theorem read_inside {delivered : Int32} (hin : c.Inside)
    (hpossible : (FileOp.read size reported delivered).Possible c)
    (hallowed : (FileOp.read size reported delivered).Allowed c) :
    ((FileOp.read size reported delivered).after c).Inside := by
  obtain ⟨hlow, hhigh⟩ := Cursor.inside_iff.mp hin
  obtain ⟨hsum, hreports⟩ := hallowed
  have hpositive : 0 < delivered ↔ 0 < delivered.toInt := Int32.lt_iff_toInt_lt
  show (if delivered > 0 then _ else _ : Cursor).Inside
  split
  · rename_i hdelivered
    have hmoves := hpositive.mp hdelivered
    rw [Int.max_eq_left (Int.le_of_lt hmoves)] at hreports
    have hasked := Int32.le_iff_toInt_le.mp (hpossible hdelivered)
    rw [clamp_toInt hin hsum] at hasked
    have hwithin : c.position.toInt + delivered.toInt ≤ c.filesize.toInt := by omega
    have hcovers := report_covers hwithin hreports
    have hfits := (c.report reported).filesize.toInt_lt
    have hend : (c.position + delivered.toInt64).toInt = c.position.toInt + delivered.toInt := by
      rw [← Int32.toInt_toInt64] at hcovers hmoves ⊢
      exact toInt_add_of_range (by omega) (by omega)
    rw [Cursor.inside_iff]
    show 0 ≤ (c.position + delivered.toInt64).toInt ∧ (c.position + delivered.toInt64).toInt ≤ _
    rw [hend]
    exact ⟨by omega, hcovers⟩
  · rename_i hnothing
    rw [Int.max_eq_right (Int.not_lt.mp (mt hpositive.mpr hnothing)), Int.add_zero] at hreports
    exact reconnect_inside hin hreports

/-- A write behind the end takes the size along. -/
theorem write_inside {taken : Int32} (hin : c.Inside)
    (hpossible : (FileOp.write size reported taken).Possible c)
    (hallowed : (FileOp.write size reported taken).Allowed c) :
    ((FileOp.write size reported taken).after c).Inside := by
  obtain ⟨hlow, hhigh⟩ := Cursor.inside_iff.mp hin
  show (if taken > 0 then _ else _ : Cursor).Inside
  replace hallowed : if 0 < taken then c.position.toInt + size.toInt < 2 ^ 63
    else Reports reported c.position.toInt := hallowed
  split
  · rename_i htaken
    rw [if_pos htaken] at hallowed
    obtain rfl := hpossible htaken
    have hmoves : 0 < taken.toInt := Int32.lt_iff_toInt_lt.mp htaken
    have hend : (c.position + taken.toInt64).toInt = c.position.toInt + taken.toInt := by
      rw [← Int32.toInt_toInt64] at hallowed hmoves ⊢
      exact toInt_add_of_range (by omega) hallowed
    rw [Cursor.inside_iff]
    show 0 ≤ (c.position + taken.toInt64).toInt ∧ (c.position + taken.toInt64).toInt ≤
      (if c.position + taken.toInt64 > (c.report reported).filesize then
        (c.report reported).filesize + (c.position + taken.toInt64 - (c.report reported).filesize)
        else (c.report reported).filesize).toInt
    refine ⟨by rw [hend]; omega, ?_⟩
    split
    · have hsum : (c.report reported).filesize +
          (c.position + taken.toInt64 - (c.report reported).filesize) = c.position + taken.toInt64 := by
        rw [Int64.add_comm (c.report reported).filesize, Int64.sub_add_cancel]
      exact Int.le_of_eq (congrArg Int64.toInt hsum.symm)
    · rename_i hwithin
      exact Int.not_lt.mp (mt Int64.lt_iff_toInt_lt.mpr hwithin)
  · rename_i hnothing
    rw [if_neg hnothing] at hallowed
    exact reconnect_inside hin hallowed

end Transfer

theorem after_inside {c : Cursor} {op : FileOp} (hin : c.Inside) (hpossible : op.Possible c)
    (hallowed : op.Allowed c) : (op.after c).Inside := by
  cases op with
  | lseek pos whence => exact ((lseek_meets_iff hin whence).mpr hallowed).inside hin
  | read size reported delivered => exact read_inside hin hpossible hallowed
  | write size reported taken => exact write_inside hin hpossible hallowed
  | reconnect reported => exact reconnect_inside hin hallowed

/-! ## The operations of the driver

What the functions of the driver do to the two fields of a handle is an operation on the
file, as long as the fields fit their type.
-/

/-- The fields of a handle. -/
structure Shows (h : Handle) (c : Cursor) : Prop where
  filesize : (h.filesize : Int) = c.filesize.toInt
  position : h.position = c.position.toInt

theorem Shows.unique {h : Handle} {c c' : Cursor} (hc : Shows h c) (hc' : Shows h c') : c = c' := by
  cases c
  cases c'
  have hfilesize := Int64.toInt_inj.mp (hc.filesize.symm.trans hc'.filesize)
  have hposition := Int64.toInt_inj.mp (hc.position.symm.trans hc'.position)
  cases hfilesize
  cases hposition
  rfl

/-- The position of slot `fh` stays. -/
structure Stays (fh : Nat) (x x' : State) : Prop where
  position : (x'.handle fh).position = (x.handle fh).position
  slots : x'.handles.length = x.handles.length

section Functions

variable {s : Host} {fh : Nat} {rounds : Nat} {c : Cursor}

theorem stays_refl (x : State) : Stays fh x x := ⟨rfl, rfl⟩

theorem Stays.trans {x x' x'' : State} (h : Stays fh x x') (h' : Stays fh x' x'') : Stays fh x x'' :=
  ⟨h'.position.trans h.position, h'.slots.trans h.slots⟩

theorem stays_modifyHandle {g : Handle → Handle} (hg : ∀ h, (g h).position = h.position) (i : Nat)
    (x : State) : Stays fh x (x.modifyHandle i g) := by
  refine ⟨?_, by simp [State.modifyHandle]⟩
  by_cases hi : fh = i
  · subst hi
    by_cases hlt : fh < x.handles.length
    · rw [handle_modifyHandle_self hlt, hg]
    · rw [State.modifyHandle, List.modify_eq_self (Nat.le_of_not_lt hlt)]
  · rw [handle_modifyHandle_ne hi]

theorem stays_upkeep (fh : Nat) : Upkeep (fun _ => True) fun g => ∀ x, Stays fh x (g x) where
  requests _ _ _ := trivial
  session _ _ := ⟨rfl, rfl⟩
  server _ _ _ := ⟨rfl, rfl⟩
  curdir _ _ := ⟨rfl, rfl⟩
  invalidate _ _ := ⟨rfl, rfl⟩
  fid i fid x := stays_modifyHandle (g := fun h => { h with fid := fid }) (fun _ => rfl) i x
  reopened i fid filesize x := stays_modifyHandle
    (g := fun h => { h with fid := fid, filesize := filesize }) (fun _ => rfl) i x
  transfers _ _ := trivial

theorem stays_ensures {α : Type} {m : Call α}
    (hm : m.Uses (Modifies (fun _ => True) fun g => ∀ x, Stays fh x (g x))) :
    Always s m fun _ s' => Stays fh s.state s'.state :=
  ensures_modifies stays_refl (fun _ _ _ => Stays.trans) (fun x _ hg => hg x) hm

/-- A part of the driver that leaves the position is a reconnect. -/
theorem stays_reconnect {s' : Host} {c' : Cursor} (hc : Shows (s.state.handle fh) c)
    (h : Stays fh s.state s'.state) (hc' : Shows (s'.state.handle fh) c') :
    c' = (FileOp.reconnect [c'.filesize]).after c := by
  have hposition := h.position
  rw [hc.position, hc'.position, Int64.toInt_inj] at hposition
  show c' = { c with filesize := c'.filesize }
  rw [← hposition]

theorem keepaliveTurn_after (hc : Shows (s.state.handle fh) c) : Always s (keepaliveTurn rounds)
    fun _ s' => ∀ c', Shows (s'.state.handle fh) c' →
      c' = (FileOp.reconnect [c'.filesize]).after c :=
  (stays_ensures ((stays_upkeep fh).keepalive rounds)).mono
    fun _ _ h _ hc' => stays_reconnect hc h hc'

/-- The result of a seek and its fields. -/
theorem smbLseek64_after {pos : Int64} {w : Whence} (hused : (s.state.handle fh).used = true)
    (hin : c.Inside) (hsum : c.position.toInt + pos.toInt < 2 ^ 63)
    (hc : Shows (s.state.handle fh) c) : Always s (smbLseek64 fh pos.toInt w) fun r s' =>
      Shows (s'.state.handle fh) ((FileOp.lseek pos (some w)).after c) ∧
        match r with
        | .ok position => position = (c.lseek64 pos (some w)).1.toInt
        | .error e => e = .einval ∧ (c.lseek64 pos (some w)).1 = invalid := by
  obtain ⟨hlow, hhigh⟩ := Cursor.inside_iff.mp hin
  have hpos := pos.le_toInt
  have hcur : (c.position + pos).toInt = c.position.toInt + pos.toInt :=
    toInt_add_of_range (by omega) hsum
  -- The position that passes or fails the check of the size.
  have htarget : ∃ r : Int64, r.toInt = (s.state.handle fh).seek pos.toInt w ∧
      c.lseek64 pos (some w) =
        if c.filesize < r then (invalid, c) else (r, { c with position := r }) := by
    cases w with
    | cur =>
        refine ⟨c.position + pos, ?_, rfl⟩
        rw [hcur, ← hc.position]
        rfl
    | set => exact ⟨pos, rfl, rfl⟩
    | «end» =>
        refine ⟨c.filesize, hc.filesize.symm, (if_neg ?_).symm⟩
        rw [Int64.lt_iff_toInt_lt]
        exact Int.lt_irrefl _
  obtain ⟨r, hr, hresult⟩ := htarget
  refine Ensures.get trivial ?_
  dsimp only
  rw [← hr, hc.filesize]
  split
  · rename_i hbeyond
    rw [if_pos (Int64.lt_iff_toInt_lt.mpr hbeyond)] at hresult
    have hafter : (FileOp.lseek pos (some w)).after c = c := congrArg Prod.snd hresult
    rw [hafter, hresult]
    exact ensures_throw ⟨hc, rfl, rfl⟩
  · rename_i hpasses
    rw [if_neg (mt Int64.lt_iff_toInt_lt.mp hpasses)] at hresult
    have hafter : (FileOp.lseek pos (some w)).after c = { c with position := r } :=
      congrArg Prod.snd hresult
    rw [hafter, hresult]
    refine Ensures.modify trivial (ensures_pure ⟨?_, rfl⟩)
    show Shows ((s.state.modifyHandle fh _).handle fh) _
    rw [handle_modifyHandle_self (used_lt hused)]
    exact ⟨hc.filesize, rfl⟩

theorem smbReadAndX_length {uid tid fid : Option Nat} {offset : Int} {nbytes : Nat} :
    Always s (smbReadAndX uid tid fid offset nbytes)
      fun r _ => ∀ bytes, r = .ok bytes → bytes.length ≤ nbytes := by
  refine Ensures.bind (R := fun r _ => ∃ got, r = .ok got)
    (ensures_exchange (fun _ got _ => ⟨trivial, got, rfl⟩) fun _ => ⟨trivial, _, rfl⟩) ?_ ?_
  · rintro got s₁ -
    cases got with
    | timeout => exact ensures_throw nofun
    | reset => exact ensures_throw nofun
    | reply r =>
        dsimp only
        split
        · split
          · rename_i hlength
            refine ensures_pure fun bytes hbytes => ?_
            cases hbytes
            exact hlength
          · exact ensures_throw nofun
        · refine ensures_pure fun bytes hbytes => ?_
          cases hbytes
          exact Nat.zero_le nbytes
        · exact ensures_throw nofun
        · exact ensures_throw nofun
        · exact ensures_throw nofun
  · rintro e s₁ ⟨got, hgot⟩
    cases hgot

/-- No round asks for more than is left. -/
theorem readLoop_length {uid tid fid : Option Nat} {nbytes : Nat} (rounds : Nat) :
    ∀ {s : Host} {pos : Int} {remaining : Nat} {done : List UInt8},
      done.length + remaining ≤ nbytes → Always s (readLoop uid tid fid rounds pos remaining done)
        fun r _ => ∀ bytes, r = .ok bytes → bytes.length ≤ nbytes := by
  have hdone : ∀ {remaining : Nat} {done : List UInt8}, done.length + remaining ≤ nbytes →
      ∀ bytes, (.ok done : Except Errno (List UInt8)) = .ok bytes → bytes.length ≤ nbytes := by
    intro remaining done hle bytes hbytes
    cases hbytes
    omega
  induction rounds with
  | zero => exact fun hle => ensures_pure (hdone hle)
  | succ rounds ih =>
      intro s pos remaining done hle
      unfold readLoop
      split
      · exact ensures_pure (hdone hle)
      · refine Ensures.bind smbReadAndX_length (fun bytes s₁ hlength => ?_) fun e s₁ _ => nofun
        have hread := hlength bytes rfl
        split
        · exact ensures_pure (@hdone nbytes [] (Nat.le_of_eq (Nat.zero_add _)))
        · refine ih ?_
          rw [List.length_append]
          omega

theorem withReconnect_result {α : Type} {Q : α → Prop}
    {transfer : Option Nat → Option Nat → Option Nat → Call α}
    (htransfer : ∀ s uid tid fid, Always s (transfer uid tid fid) fun r _ => ∀ n, r = .ok n → Q n) :
    Always s (withReconnect rounds fh transfer) fun r _ => ∀ n, r = .ok n → Q n := by
  refine ensures_loop (P := fun _ _ => True) (fun _ s₁ _ => ?_) trivial
  refine Ensures.get trivial ((htransfer _ _ _ _).result fun r s₂ hr => ?_)
  cases r with
  | ok n => exact ensures_pure (hr)
  | error e =>
      dsimp only
      split
      · refine Ensures.result (ensures_trivial _) fun r s₃ _ => ?_
        cases r with
        | ok _ => exact ensures_pure trivial
        | error _ => exact ensures_throw nofun
      · exact ensures_throw nofun

theorem readFile_length {position : Int} {size : Nat} :
    Always s (smbReadFileWithReconnect rounds fh position size)
      fun r _ => ∀ bytes, r = .ok bytes → bytes.length ≤ size :=
  withReconnect_result (Q := fun bytes : List UInt8 => bytes.length ≤ size)
    fun _ _ _ _ => readLoop_length _ (Nat.le_of_eq (Nat.zero_add _))

theorem Progress.advance_length {p : Progress} {bytes : List UInt8} {size : Nat}
    (hp : p.completed.length + p.remaining ≤ size) (hbytes : bytes.length ≤ p.remaining) :
    (p.advance bytes).completed.length + (p.advance bytes).remaining ≤ size := by
  show (p.completed ++ bytes).length + (p.remaining - bytes.length) ≤ size
  rw [List.length_append]
  omega

theorem Progress.failed_result {p : Progress} {e : Errno} :
    Always s (p.failed e) fun r _ => r = .ok (.inr p.completed) ∨ r = .error e := by
  unfold Progress.failed
  split
  · exact ensures_pure (Or.inl rfl)
  · exact ensures_throw (Or.inr rfl)

/-- What is completed and what remains make up what was asked for. -/
theorem smbReadCached_length {size : Nat} {position : Int} {allow : Bool} :
    Always s (smbReadCached rounds fh size position allow)
      fun r _ => ∀ bytes, r = .ok bytes → bytes.length ≤ size := by
  have hdone : ∀ {p : Progress}, p.completed.length + p.remaining ≤ size →
      ∀ bytes, (.ok p.completed : Except Errno (List UInt8)) = .ok bytes → bytes.length ≤ size := by
    intro p hp bytes hbytes
    cases hbytes
    omega
  refine ensures_loop (P := fun p _ => p.completed.length + p.remaining ≤ size)
    (fun p s₁ hp => ?_) ?_
  · refine Ensures.get trivial ?_
    split
    · exact ensures_pure (hdone hp)
    · split
      · exact ensures_pure (Progress.advance_length hp (by rw [List.length_take]; omega))
      · split
        · refine readFile_length.result fun r s₂ hr => ?_
          cases r with
          | error e =>
              refine Progress.failed_result.mono ?_
              rintro r s' (rfl | rfl)
              · exact hdone hp
              · exact nofun
          | ok bytes =>
              dsimp only
              split
              · exact ensures_pure (hdone hp)
              · exact ensures_pure (Progress.advance_length hp (hr bytes rfl))
        · dsimp only
          split
          · exact ensures_pure (hdone hp)
          · refine Ensures.modify trivial (readFile_length.result fun r s₂ hr => ?_)
            cases r with
            | error e =>
              refine Progress.failed_result.mono ?_
              rintro r s' (rfl | rfl)
              · exact hdone hp
              · exact nofun
            | ok bytes =>
                dsimp only
                split
                · exact ensures_pure (hdone hp)
                · exact Ensures.modify trivial (ensures_pure hp)
  · show 0 + size ≤ size
    omega

/-- A count of bytes as an `int`. -/
theorem count_toInt {n : Nat} (h : n < 2 ^ 31) : (Int32.ofInt n).toInt = n :=
  Int32.toInt_ofInt_of_le (by omega) (by omega)

/-- The position has moved by `n` bytes, and the size is what was reported last. -/
theorem moved_after {h : Handle} {c c' : Cursor} {n : Nat} (hc : Shows h c) (hn : n < 2 ^ 31)
    {h' : Handle} (hposition : h'.position = h.position + n) (hc' : Shows h' c') :
    c'.position = c.position + (Int32.ofInt n).toInt64 := by
  have hmoved := hc'.position
  rw [hposition, hc.position] at hmoved
  have hlow := c'.position.le_toInt
  have hhigh := c'.position.toInt_lt
  refine Int64.toInt_inj.mp ?_
  have hcount : (Int32.ofInt n).toInt64.toInt = n := (Int32.toInt_toInt64 _).trans (count_toInt hn)
  rw [toInt_add_of_range (by omega) (by omega), hcount, hmoved]

theorem smbRead_after {size : Int32} (hused : (s.state.handle fh).used = true) (hin : c.Inside)
    (hsize : 0 ≤ size.toInt) (hsum : c.position.toInt + size.toInt < 2 ^ 63)
    (hc : Shows (s.state.handle fh) c) : Always s (smbRead rounds fh size.toInt.toNat)
      fun _ s' => ∀ c', Shows (s'.state.handle fh) c' → ∃ delivered,
        (FileOp.read size [c'.filesize] delivered).Possible c ∧
          c' = (FileOp.read size [c'.filesize] delivered).after c := by
  -- Nothing is delivered, and the position stays.
  have hnothing : ∀ s' : Host, Stays fh s.state s'.state → ∀ c', Shows (s'.state.handle fh) c' →
      ∃ delivered, (FileOp.read size [c'.filesize] delivered).Possible c ∧
        c' = (FileOp.read size [c'.filesize] delivered).after c :=
    fun s' hstays c' hc' => ⟨0, nofun, stays_reconnect hc hstays hc'⟩
  have hclamp := clamp_toInt hin hsum
  obtain ⟨hlow, hhigh⟩ := Cursor.inside_iff.mp hin
  have hsmall := size.toInt_lt
  refine Ensures.get trivial ?_
  dsimp only
  split
  · exact ensures_throw (hnothing s (stays_refl _))
  · refine Ensures.result (Ensures.and (stays_ensures ((stays_upkeep fh).readCached
      (fun _ _ => ⟨rfl, rfl⟩) rounds fh _ _ _)) smbReadCached_length) ?_
    rintro r s₁ ⟨hstays, hlength⟩
    cases r with
    | error e => exact Ensures.modify trivial (ensures_throw (hnothing _ ⟨hstays.position, hstays.slots⟩))
    | ok bytes =>
        dsimp only
        split
        · exact ensures_pure (hnothing s₁ hstays)
        · rename_i hbytes
          have hasked := hlength bytes rfl
          rw [hc.filesize, hc.position] at hasked
          have hpositive : 0 < bytes.length := List.length_pos_iff.mpr hbytes
          refine Ensures.modify trivial (Ensures.modify trivial (ensures_pure fun c' hc' => ?_))
          have hslot : fh < s₁.state.handles.length := hstays.slots ▸ used_lt hused
          replace hc' : Shows ((s₁.state.modifyHandle fh _).handle fh) c' := hc'
          rw [handle_modifyHandle_self hslot] at hc'
          have hcount := count_toInt (n := bytes.length) (by omega)
          have hposition := moved_after hc (by omega) (n := bytes.length)
            (congrArg (· + (bytes.length : Int)) hstays.position) hc'
          refine ⟨Int32.ofInt bytes.length, fun _ => ?_, ?_⟩
          · rw [Int32.le_iff_toInt_le, hcount, hclamp]
            omega
          · have hdelivered : Int32.ofInt bytes.length > 0 := by
              refine Int32.lt_iff_toInt_lt.mpr ?_
              rw [hcount]
              exact Int.natCast_pos.mpr hpositive
            refine Eq.trans ?_ (if_pos hdelivered).symm
            show c' = ⟨c'.filesize, c.position + _⟩
            rw [← hposition]

theorem writeLoop_result {uid tid fid : Option Nat} {nbytes : Nat} (rounds : Nat) :
    ∀ {s : Host} {pos : Int} {data : List UInt8},
      Always s (writeLoop uid tid fid nbytes rounds pos data)
        fun r _ => ∀ n, r = .ok n → n = 0 ∨ n = nbytes := by
  have hall : ∀ n, (.ok nbytes : Except Errno Nat) = .ok n → n = 0 ∨ n = nbytes :=
    fun n hn => Or.inr (Except.ok.inj hn).symm
  induction rounds with
  | zero => exact ensures_pure hall
  | succ rounds ih =>
      intro s pos data
      unfold writeLoop
      split
      · exact ensures_pure hall
      · refine Ensures.bind (ensures_trivial _) (fun moved s₁ _ => ?_) fun e s₁ _ => nofun
        split
        · exact ensures_pure fun n hn => Or.inl (Except.ok.inj hn).symm
        · exact ih

/-- The size that was reported last is no larger than the one behind the write. -/
theorem advance_after {h : Handle} {c c' : Cursor} {n : Nat} {size : Int32} (hn : n = size.toInt)
    (hpositive : 0 < n) (hposition : h.position = c.position.toInt) (hc' : Shows (h.advance n) c') :
    c' = (FileOp.write size [Int64.ofInt h.filesize] size).after c := by
  have hsmall := size.toInt_lt
  have hfits := c'.filesize.toInt_lt
  have hlow := c'.position.le_toInt
  have hhigh := c'.position.toInt_lt
  have hend : h.position + n = c'.position.toInt := hc'.position
  have hgrown : c'.filesize.toInt = max (h.filesize : Int) c'.position.toInt := by
    have hmax : ((h.advance n).filesize : Int) = max (h.filesize : Int) (h.position + n) :=
      Int.toNat_of_nonneg (by omega)
    rw [← hc'.filesize, hmax, hend]
  have hnonneg : (0 : Int) ≤ h.filesize := Int.natCast_nonneg _
  have hreported : (Int64.ofInt h.filesize).toInt = h.filesize :=
    Int64.toInt_ofInt_of_le (by omega) (by omega)
  have hmoved : c'.position = c.position + size.toInt64 := by
    rw [← Int32.toInt_toInt64] at hn
    refine Int64.toInt_inj.mp ?_
    rw [toInt_add_of_range (by omega) (by omega)]
    omega
  have htaken : size > 0 := by
    refine Int32.lt_iff_toInt_lt.mpr ?_
    show 0 < size.toInt
    omega
  have hsize : c'.filesize = if c'.position > Int64.ofInt h.filesize then
      Int64.ofInt h.filesize + (c'.position - Int64.ofInt h.filesize)
      else Int64.ofInt h.filesize := by
    refine Int64.toInt_inj.mp ?_
    rw [Int64.add_comm (Int64.ofInt _), Int64.sub_add_cancel]
    split
    · rename_i hbeyond
      have hlarge := Int64.lt_iff_toInt_lt.mp hbeyond
      omega
    · rename_i hwithin
      have hle := mt Int64.lt_iff_toInt_lt.mpr hwithin
      omega
  refine Eq.trans ?_ (if_pos htaken).symm
  show c' = ⟨if c.position + size.toInt64 > Int64.ofInt h.filesize then
    Int64.ofInt h.filesize + (c.position + size.toInt64 - Int64.ofInt h.filesize)
    else Int64.ofInt h.filesize, c.position + size.toInt64⟩
  rw [← hmoved, ← hsize]

theorem smbWrite_after {size : Int32} {data : List UInt8} (hused : (s.state.handle fh).used = true)
    (hdata : data.length = size.toInt) (hc : Shows (s.state.handle fh) c) :
    Always s (smbWrite rounds fh data) fun _ s' => ∀ c', Shows (s'.state.handle fh) c' →
      ∃ reported taken, (FileOp.write size reported taken).Possible c ∧
        c' = (FileOp.write size reported taken).after c := by
  have hnothing : ∀ s' : Host, Stays fh s.state s'.state → ∀ c', Shows (s'.state.handle fh) c' →
      ∃ reported taken, (FileOp.write size reported taken).Possible c ∧
        c' = (FileOp.write size reported taken).after c :=
    fun s' hstays c' hc' => ⟨[c'.filesize], 0, nofun, stays_reconnect hc hstays hc'⟩
  have hsmall := size.toInt_lt
  refine Ensures.get trivial ?_
  dsimp only
  split
  · exact ensures_throw (hnothing s (stays_refl _))
  · split
    · exact ensures_throw (hnothing s (stays_refl _))
    · refine Ensures.modify trivial ?_
      have hinvalidated : Stays fh s.state
        { s.state with readAhead := s.state.readAhead.invalidate none } := ⟨rfl, rfl⟩
      refine Ensures.bind (Ensures.and (stays_ensures ((stays_upkeep fh).writeFile rounds fh _ data))
        (withReconnect_result (Q := fun n => n = 0 ∨ n = data.length)
          fun _ _ _ _ => writeLoop_result _)) ?_ ?_
      · rintro n s₁ ⟨hrun, hresult⟩
        have hstays := hinvalidated.trans hrun
        split
        · exact ensures_pure (hnothing s₁ hstays)
        · rename_i hn
          obtain rfl := (hresult n rfl).resolve_left hn
          refine Ensures.modify trivial (ensures_pure fun c' hc' => ?_)
          have hslot : fh < s₁.state.handles.length := hstays.slots ▸ used_lt hused
          replace hc' : Shows ((s₁.state.modifyHandle fh _).handle fh) c' := hc'
          rw [handle_modifyHandle_self hslot] at hc'
          refine ⟨[Int64.ofInt (s₁.state.handle fh).filesize], size, fun _ => rfl, ?_⟩
          exact advance_after hdata (Nat.pos_of_ne_zero hn) (hstays.position.trans hc.position) hc'
      · rintro e s₁ ⟨hrun, -⟩
        exact hnothing s₁ (hinvalidated.trans hrun)

end Functions

/-! ## Runs -/

/-- A file from its opening on. -/
def positions (filesize : Int64) (truncate append : Bool) : System Cursor FileOp where
  init c := c = Cursor.opened filesize truncate append
  step c op c' := op.Possible c ∧ c' = op.after c

theorem opened_inside {filesize : Int64} {truncate append : Bool}
    (h : truncate = true ∨ 0 ≤ filesize) : (Cursor.opened filesize truncate append).Inside := by
  cases truncate with
  | true => exact ⟨Int64.le_refl 0, Int64.le_refl 0⟩
  | false =>
      have hsize : 0 ≤ filesize := h.resolve_left Bool.false_ne_true
      cases append with
      | true => exact ⟨hsize, Int64.le_refl _⟩
      | false => exact ⟨Int64.le_refl 0, hsize⟩

theorem inside_invariant {filesize : Int64} {truncate append : Bool}
    (h : truncate = true ∨ 0 ≤ filesize) : (positions filesize truncate append).Invariant
      (fun c op => op.Allowed c) Cursor.Inside where
  init := by
    rintro c rfl
    exact opened_inside h
  step := by
    rintro c op _ - hin hallowed ⟨hpossible, rfl⟩
    exact after_inside hin hpossible hallowed

/-- In a run of allowed operations the position stays in the file, and the next seek does
what it is for exactly when it is allowed too. -/
theorem position_inside {filesize : Int64} {truncate append : Bool} {c : Cursor}
    (hopen : truncate = true ∨ 0 ≤ filesize)
    (h : (positions filesize truncate append).Reachable (fun c op => op.Allowed c) c) :
    c.Inside ∧ ∀ pos whence,
      (FileOp.lseek pos whence).Meets c ↔ (FileOp.lseek pos whence).Allowed c := by
  have hin : c.Inside := (inside_invariant hopen).holds h
  exact ⟨hin, fun pos whence => lseek_meets_iff hin whence⟩

/-- A seek to 4, a read of three bytes and a reconnect to a shorter file. -/
theorem position_inside_read :
    (⟨8, 7⟩ : Cursor).Inside ∧ ∀ pos whence, (FileOp.lseek pos whence).Meets ⟨8, 7⟩ ↔
      (FileOp.lseek pos whence).Allowed ⟨8, 7⟩ := by
  have hopened : (positions 10 false false).Reachable (fun c op => op.Allowed c) ⟨10, 0⟩ :=
    .init rfl
  have hsought : (positions 10 false false).Reachable (fun c op => op.Allowed c) ⟨10, 4⟩ :=
    hopened.next (a := .lseek 4 (some .set)) (show (0 : Int64) ≤ 4 by decide) ⟨trivial, by decide⟩
  have hread : (positions 10 false false).Reachable (fun c op => op.Allowed c) ⟨10, 7⟩ :=
    hsought.next (a := .read 3 [] 3) ⟨by decide, nofun⟩ ⟨fun _ => by decide, by decide⟩
  have hreconnected : (positions 10 false false).Reachable (fun c op => op.Allowed c) ⟨8, 7⟩ := by
    refine hread.next (a := .reconnect [8]) (fun s hs => ?_) ⟨trivial, by decide⟩
    cases hs
    decide
  exact position_inside (Or.inr (by decide)) hreconnected

/-- The check of a seek lets a position in front of the file pass. -/
theorem position_in_front :
    (positions 10 false false).Reachable (fun _ _ => True) ⟨10, -1⟩ ∧
      ¬(⟨10, -1⟩ : Cursor).Inside ∧ ¬(FileOp.lseek (-1) (some .set)).Meets ⟨10, 0⟩ := by
  refine ⟨?_, by decide, ?_⟩
  · have hopened : (positions 10 false false).Reachable (fun _ _ => True) ⟨10, 0⟩ := .init rfl
    exact hopened.next (a := .lseek (-1) (some .set)) trivial ⟨trivial, by decide⟩
  · rw [lseek_set_meets (by decide)]
    decide

end BdmAssault.Smb.Driver
