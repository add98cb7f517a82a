import Mathlib.Data.List.TakeWhile

/-! # Arrays that hold strings

An array of bytes of a fixed size, and the string functions of the C library on it. A
function gives `none` where it would read or write a byte outside of an array.
-/

namespace BdmAssault.Lib

/-- The string at the beginning of an array: its bytes in front of the first zero byte. -/
def textOf (bytes : List UInt8) : List UInt8 := bytes.takeWhile (· ≠ 0)

structure Buffer (size : Nat) where
  bytes : List UInt8
  length_bytes : bytes.length = size

namespace Buffer

variable {size : Nat}

@[ext] theorem ext {b b' : Buffer size} (h : b.bytes = b'.bytes) : b = b' := by
  cases b
  cases b'
  cases h
  rfl

/-- Static storage. -/
def cleared (size : Nat) : Buffer size := ⟨List.replicate size 0, List.length_replicate⟩

def text (b : Buffer size) : List UInt8 := textOf b.bytes

def Terminated (b : Buffer size) : Prop := 0 ∈ b.bytes

instance (b : Buffer size) : Decidable b.Terminated := inferInstanceAs (Decidable (_ ∈ _))

/-- `src` is written from `offset` on. -/
def put (b : Buffer size) (offset : Nat) (src : List UInt8) : Option (Buffer size) :=
  if h : offset + src.length ≤ size then
    some ⟨b.bytes.take offset ++ src ++ b.bytes.drop (offset + src.length), by
      have hlength := b.length_bytes
      simp only [List.length_append, List.length_take, List.length_drop]
      omega⟩
  else none

def strlen (b : Buffer size) : Option Nat := if b.Terminated then some b.text.length else none

def strcpy (b : Buffer size) (src : List UInt8) : Option (Buffer size) := b.put 0 (src ++ [0])

/-- What `strncpy` writes for a source with this text. -/
def padded (n : Nat) (text : List UInt8) : List UInt8 :=
  text.take n ++ List.replicate (n - text.length) 0

/-- The source is an array. It is read up to its terminator, but not beyond `n` bytes. -/
def strncpy (b : Buffer size) (src : List UInt8) (n : Nat) : Option (Buffer size) :=
  if 0 ∈ src ∨ n ≤ src.length then b.put 0 (padded n (textOf src)) else none

def strcat (b : Buffer size) (src : List UInt8) : Option (Buffer size) := do
  let i ← b.strlen
  b.put i (src ++ [0])

end Buffer

/-! ## Texts -/

section Text

variable {s rest : List UInt8}

theorem zero_not_mem_textOf : (0 : UInt8) ∉ textOf s := by
  intro h
  have hne := List.all_eq_true.mp List.all_takeWhile 0 h
  exact absurd hne (by decide)

theorem textOf_append (hs : 0 ∉ s) : textOf (s ++ 0 :: rest) = s := by
  unfold textOf
  rw [List.takeWhile_append_of_pos fun b hb => ?_]
  · simp
  · simp only [ne_eq, decide_not, Bool.not_eq_true', decide_eq_false_iff_not]
    rintro rfl
    exact hs hb

theorem textOf_of_not_mem (hs : 0 ∉ s) : textOf s = s := by
  unfold textOf
  refine List.takeWhile_eq_self_iff.mpr fun b hb => ?_
  simp only [ne_eq, decide_not, Bool.not_eq_true', decide_eq_false_iff_not]
  rintro rfl
  exact hs hb

/-- An array with a zero byte in it is its text, the terminator, and what is left. -/
theorem exists_textOf (h : 0 ∈ s) : ∃ rest, s = textOf s ++ 0 :: rest := by
  induction s with
  | nil => exact absurd h List.not_mem_nil
  | cons b s ih =>
      by_cases hb : b = 0
      · subst hb
        exact ⟨s, by simp [textOf]⟩
      · obtain ⟨rest, hrest⟩ := ih ((List.mem_cons.mp h).resolve_left (Ne.symm hb))
        refine ⟨rest, ?_⟩
        have htext : textOf (b :: s) = b :: textOf s := by simp [textOf, hb]
        rw [htext, List.cons_append, ← hrest]

end Text

/-! ## The functions on a known content -/

namespace Buffer

section Known

variable {size n : Nat} {b : Buffer size} {front old back s t : List UInt8}

theorem put_append (t : List UInt8) (h : b.bytes = front ++ old) (hfit : front.length + t.length ≤ size) :
    ∃ b', b.put front.length t = some b' ∧ b'.bytes = front ++ t ++ old.drop t.length := by
  unfold put
  rw [dif_pos hfit]
  refine ⟨_, rfl, ?_⟩
  have htake : b.bytes.take front.length = front := by rw [h, List.take_left]
  have hdrop : b.bytes.drop (front.length + t.length) = old.drop t.length := by
    rw [h, List.drop_length_add_append]
  exact congrArg₂ (fun l r => l ++ t ++ r) htake hdrop

theorem text_strcpy {b' : Buffer size} (h : b.strcpy t = some b') (ht : 0 ∉ t) : b'.text = t := by
  have hfit : ([] : List UInt8).length + (t ++ [0]).length ≤ size := by
    by_contra hno
    exact nomatch (dif_neg hno).symm.trans h
  obtain ⟨b₁, hput, hbytes⟩ := put_append (t ++ [0]) (List.nil_append b.bytes).symm hfit
  cases h.symm.trans hput
  rw [text, hbytes, List.nil_append, List.append_assoc, List.singleton_append, textOf_append ht]

theorem put_outside {offset : Nat} (h : size < offset + t.length) : b.put offset t = none :=
  dif_neg (Nat.not_le.mpr h)

theorem Terminated.split (h : b.Terminated) : ∃ s back, b.bytes = s ++ 0 :: back ∧ 0 ∉ s :=
  let ⟨back, hback⟩ := exists_textOf h
  ⟨_, back, hback, zero_not_mem_textOf⟩

theorem strlen_append (h : b.bytes = s ++ 0 :: back) (hs : 0 ∉ s) : b.strlen = some s.length := by
  unfold strlen
  rw [if_pos (by rw [Terminated, h]; exact List.mem_append_right _ List.mem_cons_self), text, h,
    textOf_append hs]

theorem strlen_unterminated (h : ¬b.Terminated) : b.strlen = none := if_neg h

theorem strcat_append (t : List UInt8) (h : b.bytes = s ++ 0 :: back) (hs : 0 ∉ s)
    (hfit : s.length + t.length < size) :
    ∃ b', b.strcat t = some b' ∧ b'.bytes = s ++ t ++ 0 :: back.drop t.length := by
  obtain ⟨b', hb', hbytes⟩ := put_append (t ++ [0]) h
    (by rw [List.length_append, List.length_singleton]; exact hfit)
  refine ⟨b', ?_, ?_⟩
  · unfold strcat
    rw [strlen_append h hs]
    exact hb'
  · rw [hbytes, List.length_append, List.length_singleton, List.drop_succ_cons]
    simp only [List.append_assoc, List.singleton_append]

theorem strcat_outside (h : b.bytes = s ++ 0 :: back) (hs : 0 ∉ s) (hsize : size ≤ s.length + t.length) :
    b.strcat t = none := by
  unfold strcat
  rw [strlen_append h hs]
  exact put_outside (by rw [List.length_append, List.length_singleton]; omega)

theorem length_padded : (padded n s).length = n := by
  unfold padded
  rw [List.length_append, List.length_take, List.length_replicate]
  omega

/-- A text that is shorter than the room for it is terminated there. -/
theorem padded_of_lt (h : s.length < n) :
    padded n s = s ++ 0 :: List.replicate (n - s.length - 1) 0 := by
  unfold padded
  rw [List.take_of_length_le (Nat.le_of_lt h), ← List.replicate_succ]
  congr 2
  omega

theorem padded_of_le (h : n ≤ s.length) : padded n s = s.take n := by
  unfold padded
  rw [Nat.sub_eq_zero_of_le h, List.replicate_zero, List.append_nil]

theorem strncpy_append (b : Buffer size) {src : List UInt8} (hn : n ≤ size) (hsrc : 0 ∈ src ∨ n ≤ src.length) :
    ∃ b', b.strncpy src n = some b' ∧ b'.bytes = padded n (textOf src) ++ b.bytes.drop n := by
  have hput : ∃ b', b.put 0 (padded n (textOf src)) = some b' ∧
      b'.bytes = [] ++ padded n (textOf src) ++ b.bytes.drop (padded n (textOf src)).length :=
    put_append _ (List.nil_append _).symm (by rw [length_padded, List.length_nil, Nat.zero_add]; exact hn)
  obtain ⟨b', hb', hbytes⟩ := hput
  refine ⟨b', ?_, by rwa [length_padded] at hbytes⟩
  unfold strncpy
  rw [if_pos hsrc, hb']

end Known

end Buffer

end BdmAssault.Lib
