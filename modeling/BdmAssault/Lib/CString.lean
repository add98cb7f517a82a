import Mathlib.Data.List.Basic
import Mathlib.Logic.Function.Basic

/-! # Strings in memory

Memory that starts at some address, as the bytes from there on. A string is the bytes
before the first zero byte; `cstring` looks for that byte among the first `size` ones.
-/

namespace BdmAssault.Lib

abbrev Memory := Nat → UInt8

/-- `src` is copied to `offset`. -/
def memcpy (m : Memory) (offset : Nat) (src : List UInt8) : Memory := fun i =>
  if offset ≤ i ∧ i < offset + src.length then src.getD (i - offset) 0 else m i

def cstring (size : Nat) (m : Memory) : List UInt8 := ((List.range size).map m).takeWhile (· ≠ 0)

section Memcpy

variable {m : Memory} {offset i : Nat} {src : List UInt8}

theorem memcpy_inside (h : i < src.length) : memcpy m offset src (offset + i) = src[i] := by
  unfold memcpy
  rw [if_pos (by omega), Nat.add_sub_cancel_left, List.getD_eq_getElem?_getD, List.getElem?_eq_getElem h]
  rfl

theorem memcpy_start (h : i < src.length) : memcpy m 0 src i = src[i] := by
  have hinside := @memcpy_inside m 0 i src h
  rwa [Nat.zero_add] at hinside

theorem memcpy_beyond (h : offset + src.length ≤ i) : memcpy m offset src i = m i :=
  if_neg (by omega)

theorem memcpy_before (h : i < offset) : memcpy m offset src i = m i :=
  if_neg (by omega)

/-- Two pieces that follow each other. -/
theorem memcpy_append (src' : List UInt8) :
    memcpy (memcpy m offset src) (offset + src.length) src' = memcpy m offset (src ++ src') := by
  funext i
  by_cases hlow : i < offset
  · rw [memcpy_before (by omega), memcpy_before hlow, memcpy_before hlow]
  · obtain ⟨k, rfl⟩ := Nat.exists_eq_add_of_le (Nat.not_lt.mp hlow)
    by_cases hsrc : k < src.length
    · rw [memcpy_before (by omega), memcpy_inside hsrc,
        memcpy_inside (by rw [List.length_append]; omega), List.getElem_append_left hsrc]
    · obtain ⟨j, rfl⟩ := Nat.exists_eq_add_of_le (Nat.not_lt.mp hsrc)
      by_cases hsrc' : j < src'.length
      · rw [← Nat.add_assoc, memcpy_inside hsrc', Nat.add_assoc,
          memcpy_inside (by rw [List.length_append]; omega),
          List.getElem_append_right (Nat.le_add_right _ _)]
        simp only [Nat.add_sub_cancel_left]
      · rw [memcpy_beyond (by omega), memcpy_beyond (by omega),
          memcpy_beyond (by rw [List.length_append]; omega)]

end Memcpy

section CString

variable {size : Nat} {m : Memory} {l : List UInt8}

theorem zero_not_mem_cstring : (0 : UInt8) ∉ cstring size m := by
  intro h
  have hne := List.all_eq_true.mp List.all_takeWhile 0 h
  exact absurd hne (by decide)

theorem length_cstring_le : (cstring size m).length ≤ size := by
  have hpre : cstring size m <+: (List.range size).map m := List.takeWhile_prefix _
  have hle := hpre.length_le
  rwa [List.length_map, List.length_range] at hle

/-- The string at `m` is `l` if `l` stands there with a zero byte after it. -/
theorem cstring_eq (hsize : l.length < size) (hl : (0 : UInt8) ∉ l) (hbytes : ∀ i (h : i < l.length), m i = l[i])
    (hend : m l.length = 0) : cstring size m = l := by
  have hsplit : (List.range size).map m =
      l ++ 0 :: ((List.range (size - l.length - 1)).map fun i => m (l.length + 1 + i)) := by
    apply List.ext_getElem
    · simp only [List.length_map, List.length_range, List.length_append, List.length_cons]
      omega
    · intro i hi hi'
      rw [List.getElem_map, List.getElem_range]
      by_cases hlow : i < l.length
      · rw [List.getElem_append_left hlow, hbytes i hlow]
      · rw [List.getElem_append_right (by omega)]
        obtain ⟨k, rfl⟩ := Nat.exists_eq_add_of_le (Nat.not_lt.mp hlow)
        cases k with
        | zero => simpa using hend
        | succ k => simp [Nat.add_assoc, Nat.add_comm 1 k]
  unfold cstring
  rw [hsplit, List.takeWhile_append_of_pos]
  · simp
  · intro b hb
    simp only [ne_eq, decide_not, Bool.not_eq_true', decide_eq_false_iff_not]
    rintro rfl
    exact hl hb

theorem cstring_memcpy (hsize : l.length < size) (hl : (0 : UInt8) ∉ l) :
    cstring size (memcpy m 0 (l ++ [0])) = l := by
  apply cstring_eq hsize hl
  · intro i hi
    rw [memcpy_start (by rw [List.length_append]; omega), List.getElem_append_left hi]
  · rw [memcpy_start (by rw [List.length_append]; exact Nat.lt_succ_self _),
      List.getElem_append_right (Nat.le_refl _)]
    simp

theorem cstring_cleared (hsize : 0 < size) : cstring size (Function.update m 0 0) = [] := by
  apply cstring_eq hsize (List.not_mem_nil)
  · intro i hi
    exact absurd hi (Nat.not_lt_zero i)
  · exact Function.update_self _ _ _

end CString

end BdmAssault.Lib
