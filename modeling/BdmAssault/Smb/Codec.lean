import Mathlib.Algebra.Group.Nat.Defs
import BdmAssault.Smb.ReplyBounds

/-! # UTF-8 and UTF-16

The two conversions of `smb.c`. Memory is the list of bytes from an address on; `none` is a
read behind its end.
-/

namespace BdmAssault.Smb.Codec

/-! ## The conversions -/

/-- The bytes that are written to `out`, and the length that is returned. -/
structure Written where
  out : List UInt8
  len : Nat
deriving DecidableEq, Repr

/-- What is left of `asciiToUtf16`: `pin` is where the loop stopped, and `reach` the number
of bytes from `in` on up to the last one that was read. -/
structure Decoded extends Written where
  pin : Nat
  reach : Nat
deriving DecidableEq, Repr

/-- The low byte first. -/
def unitBytes (wc : Nat) : List UInt8 := [UInt8.ofNat (wc &&& 0xff), UInt8.ofNat (wc >>> 8 &&& 0xff)]

/-- One round of the loop: a sequence of `n` bytes, all in front of what is read next. -/
def Decoded.step (n wc : Nat) (d : Decoded) : Decoded where
  out := unitBytes wc ++ d.out
  len := d.len + 2
  pin := n + d.pin
  reach := n + d.reach

def asciiToUtf16 : List UInt8 → Option Decoded
  | [] => none
  | b :: rest =>
      if b = 0 then some ⟨⟨[0, 0], 2⟩, 0, 1⟩
      else if b < 0x80 then (asciiToUtf16 rest).map (.step 1 b.toNat)
      else if b &&& 0xe0 = 0xc0 then
        match rest with
        | b₁ :: rest =>
            (asciiToUtf16 rest).map
              (.step 2 ((b.toNat &&& 0x1f) <<< 6 ||| (b₁.toNat &&& 0x3f)))
        | [] => none
      else if b &&& 0xf0 = 0xe0 then
        match rest with
        | b₁ :: b₂ :: rest =>
            (asciiToUtf16 rest).map
              (.step 3 ((b.toNat &&& 0x0f) <<< 12 ||| (b₁.toNat &&& 0x3f) <<< 6 |||
                (b₂.toNat &&& 0x3f)))
        | _ => none
      -- a question mark for each byte that starts no sequence of up to three
      else (asciiToUtf16 rest).map (.step 1 0x3f)

/-- The bytes of one unit go in front of those behind it. -/
def Written.step (bytes : List UInt8) (n : Nat) (w : Written) : Written where
  out := bytes ++ w.out
  len := w.len + n

def utf16ToAscii : List UInt8 → Int → Option Written
  | lo :: hi :: rest, inbytes =>
      if inbytes < 2 then some ⟨[0], 1⟩
      else
        let wc := lo.toNat ||| hi.toNat <<< 8
        if wc = 0 then some ⟨[0], 1⟩
        else if wc < 0x80 then
          (utf16ToAscii rest (inbytes - 2)).map (.step [UInt8.ofNat wc] 1)
        else if wc < 0x800 then
          (utf16ToAscii rest (inbytes - 2)).map
            (.step [UInt8.ofNat (0xc0 ||| wc >>> 6), UInt8.ofNat (0x80 ||| (wc &&& 0x3f))] 2)
        else
          (utf16ToAscii rest (inbytes - 2)).map
            (.step [UInt8.ofNat (0xe0 ||| wc >>> 12), UInt8.ofNat (0x80 ||| (wc >>> 6 &&& 0x3f)),
              UInt8.ofNat (0x80 ||| (wc &&& 0x3f))] 3)
  | _, inbytes => if inbytes < 2 then some ⟨[0], 1⟩ else none

/-! ## Bits -/

theorem and_ff (n : Nat) : n &&& 0xff = n % 256 := Nat.and_two_pow_sub_one_eq_mod n 8

theorem and_3f (n : Nat) : n &&& 0x3f = n % 64 := Nat.and_two_pow_sub_one_eq_mod n 6

/-- Fields that do not overlap are added. -/
theorem shiftLeft_or {a b i : Nat} (hb : b < 2 ^ i) : a <<< i ||| b = a * 2 ^ i + b := by
  rw [← Nat.shiftLeft_add_eq_or_of_lt hb, Nat.shiftLeft_eq]

theorem toNat_ofNat_lt {n : Nat} (hn : n < 256) : (UInt8.ofNat n).toNat = n := by
  rw [UInt8.toNat_ofNat']
  exact Nat.mod_eq_of_lt hn

theorem lead_two_iff (b : UInt8) : b &&& 0xe0 = 0xc0 ↔ 0xc0 ≤ b.toNat ∧ b.toNat < 0xe0 := by
  have hall : ∀ n < 256, UInt8.ofNat n &&& 0xe0 = 0xc0 ↔
      0xc0 ≤ (UInt8.ofNat n).toNat ∧ (UInt8.ofNat n).toNat < 0xe0 := by decide +kernel
  have hb := hall b.toNat b.toNat_lt
  rwa [UInt8.ofNat_toNat] at hb

theorem lead_three_iff (b : UInt8) : b &&& 0xf0 = 0xe0 ↔ 0xe0 ≤ b.toNat ∧ b.toNat < 0xf0 := by
  have hall : ∀ n < 256, UInt8.ofNat n &&& 0xf0 = 0xe0 ↔
      0xe0 ≤ (UInt8.ofNat n).toNat ∧ (UInt8.ofNat n).toNat < 0xf0 := by decide +kernel
  have hb := hall b.toNat b.toNat_lt
  rwa [UInt8.ofNat_toNat] at hb

theorem lt_80_iff (b : UInt8) : b < 0x80 ↔ b.toNat < 0x80 := UInt8.lt_iff_toNat_lt

theorem eq_zero_iff (b : UInt8) : b = 0 ↔ b.toNat = 0 := UInt8.toNat_inj.symm

/-! ## One round -/

section Round

variable {b b₁ b₂ : UInt8} {rest : List UInt8}

theorem asciiToUtf16_ascii (hb : b ≠ 0) (h : b < 0x80) :
    asciiToUtf16 (b :: rest) = (asciiToUtf16 rest).map (.step 1 b.toNat) := by
  rw [asciiToUtf16.eq_def (b :: rest)]
  dsimp only
  rw [if_neg hb, if_pos h]

/-- The branches of a byte that starts no ASCII character. -/
theorem asciiToUtf16_high (h : 0x80 ≤ b.toNat) : asciiToUtf16 (b :: rest) =
    if b &&& 0xe0 = 0xc0 then
      match rest with
      | b₁ :: rest =>
          (asciiToUtf16 rest).map (.step 2 ((b.toNat &&& 0x1f) <<< 6 ||| (b₁.toNat &&& 0x3f)))
      | [] => none
    else if b &&& 0xf0 = 0xe0 then
      match rest with
      | b₁ :: b₂ :: rest =>
          (asciiToUtf16 rest).map
            (.step 3 ((b.toNat &&& 0x0f) <<< 12 ||| (b₁.toNat &&& 0x3f) <<< 6 |||
              (b₂.toNat &&& 0x3f)))
      | _ => none
    else (asciiToUtf16 rest).map (.step 1 0x3f) := by
  have hzero : b ≠ 0 := by
    rw [Ne, eq_zero_iff]
    omega
  have hascii : ¬b < 0x80 := by
    rw [lt_80_iff]
    omega
  rw [asciiToUtf16.eq_def (b :: rest)]
  dsimp only
  rw [if_neg hzero, if_neg hascii]

theorem asciiToUtf16_two (h : b &&& 0xe0 = 0xc0) : asciiToUtf16 (b :: b₁ :: rest) =
    (asciiToUtf16 rest).map (.step 2 ((b.toNat &&& 0x1f) <<< 6 ||| (b₁.toNat &&& 0x3f))) := by
  have hrange := (lead_two_iff b).mp h
  rw [asciiToUtf16_high (by omega), if_pos h]

theorem asciiToUtf16_three (h : b &&& 0xf0 = 0xe0) : asciiToUtf16 (b :: b₁ :: b₂ :: rest) =
    (asciiToUtf16 rest).map (.step 3 ((b.toNat &&& 0x0f) <<< 12 ||| (b₁.toNat &&& 0x3f) <<< 6 |||
      (b₂.toNat &&& 0x3f))) := by
  have hrange := (lead_three_iff b).mp h
  have htwo : ¬b &&& 0xe0 = 0xc0 := by
    rw [lead_two_iff]
    omega
  rw [asciiToUtf16_high (by omega), if_neg htwo, if_pos h]

/-- The length of the sequence that a byte starts. -/
def announced (b : UInt8) : Nat :=
  if b &&& 0xe0 = 0xc0 then 2 else if b &&& 0xf0 = 0xe0 then 3 else 1

theorem announced_pos (b : UInt8) : 0 < announced b := by
  unfold announced
  split
  · decide
  · split <;> decide

theorem announced_two (h : b &&& 0xe0 = 0xc0) : announced b = 2 := if_pos h

theorem announced_three (h : b &&& 0xf0 = 0xe0) : announced b = 3 := by
  have hrange := (lead_three_iff b).mp h
  unfold announced
  rw [if_neg, if_pos h]
  rw [lead_two_iff]
  omega

theorem announced_one (htwo : ¬b &&& 0xe0 = 0xc0) (hthree : ¬b &&& 0xf0 = 0xe0) :
    announced b = 1 := by
  unfold announced
  rw [if_neg htwo, if_neg hthree]

theorem asciiToUtf16_one (hb : b ≠ 0) (hone : announced b = 1) :
    ∃ wc, asciiToUtf16 (b :: rest) = (asciiToUtf16 rest).map (.step 1 wc) := by
  have htwo : ¬b &&& 0xe0 = 0xc0 := fun h => absurd (hone.symm.trans (announced_two h)) (by decide)
  have hthree : ¬b &&& 0xf0 = 0xe0 :=
    fun h => absurd (hone.symm.trans (announced_three h)) (by decide)
  by_cases hascii : b < 0x80
  · exact ⟨_, asciiToUtf16_ascii hb hascii⟩
  · rw [lt_80_iff] at hascii
    rw [asciiToUtf16_high (by omega), if_neg htwo, if_neg hthree]
    exact ⟨_, rfl⟩

/-- A round consumes as many bytes as the first one announces, whatever they are. -/
theorem asciiToUtf16_round (hb : b ≠ 0) (hlen : announced b ≤ rest.length + 1) :
    ∃ wc, asciiToUtf16 (b :: rest) =
      (asciiToUtf16 (rest.drop (announced b - 1))).map (.step (announced b) wc) := by
  by_cases htwo : b &&& 0xe0 = 0xc0
  · rw [announced_two htwo] at hlen ⊢
    match rest, hlen with
    | b₁ :: rest, _ => exact ⟨_, asciiToUtf16_two htwo⟩
  · by_cases hthree : b &&& 0xf0 = 0xe0
    · rw [announced_three hthree] at hlen ⊢
      match rest, hlen with
      | b₁ :: b₂ :: rest, _ => exact ⟨_, asciiToUtf16_three hthree⟩
    · have hone := announced_one htwo hthree
      rw [hone]
      exact asciiToUtf16_one hb hone

/-- A sequence that is not whole is read beyond the end of the memory. -/
theorem asciiToUtf16_short (hlen : rest.length + 1 < announced b) :
    asciiToUtf16 (b :: rest) = none := by
  by_cases htwo : b &&& 0xe0 = 0xc0
  · have hrange := (lead_two_iff b).mp htwo
    rw [announced_two htwo] at hlen
    rw [asciiToUtf16_high (by omega), if_pos htwo]
    match rest, hlen with
    | [], _ => rfl
  · by_cases hthree : b &&& 0xf0 = 0xe0
    · have hrange := (lead_three_iff b).mp hthree
      rw [announced_three hthree] at hlen
      rw [asciiToUtf16_high (by omega), if_neg htwo, if_pos hthree]
      match rest, hlen with
      | [], _ => rfl
      | [b₁], _ => rfl
    · rw [announced_one htwo hthree] at hlen
      omega

end Round

/-! ## The terminator -/

/-- Sequences one after the other, each as long as its first byte announces. -/
def Complete (s : List UInt8) : Prop :=
  ∃ pieces : List (List UInt8),
    (∀ p ∈ pieces, ∃ b rest, p = b :: rest ∧ p.length = announced b) ∧ s = pieces.flatten

/-- The conversion ends, at the terminator of the string, and no byte behind that is read. -/
def Confined (s after : List UInt8) : Prop :=
  ∃ d, asciiToUtf16 (s ++ 0 :: after) = some d ∧ d.pin = s.length ∧ d.reach ≤ s.length + 1

theorem asciiToUtf16_empty (after : List UInt8) :
    asciiToUtf16 (0 :: after) = some ⟨⟨[0, 0], 2⟩, 0, 1⟩ := by
  rw [asciiToUtf16.eq_def]
  rfl

/-- Rounds of the loop: the end of the memory, the terminator, a sequence that the memory cuts
short, and one that it holds. -/
@[elab_as_elim]
theorem rounds_induction {motive : List UInt8 → Prop} (nil : motive [])
    (zero : ∀ rest, motive (0 :: rest))
    (short : ∀ b rest, b ≠ 0 → rest.length + 1 < announced b → motive (b :: rest))
    (round : ∀ b rest, b ≠ 0 → announced b ≤ rest.length + 1 →
      motive (rest.drop (announced b - 1)) → motive (b :: rest)) (mem : List UInt8) :
    motive mem := by
  induction hn : mem.length using Nat.strongRecOn generalizing mem with
  | ind n ih =>
      cases mem with
      | nil => exact nil
      | cons b rest =>
          by_cases hb : b = 0
          · subst hb
            exact zero rest
          · by_cases hlen : announced b ≤ rest.length + 1
            · have hpos := announced_pos b
              rw [List.length_cons] at hn
              exact round b rest hb hlen (ih _ (by omega) _ List.length_drop)
            · exact short b rest hb (Nat.lt_of_not_le hlen)

theorem announced_le (b : UInt8) : announced b ≤ 3 := by
  unfold announced
  split
  · decide
  · split <;> decide

/-- A sequence takes at most two of three zero bytes behind a string, and stops at the next. -/
theorem asciiToUtf16_ends (mem : List UInt8) : ∃ d, asciiToUtf16 (mem ++ [0, 0, 0]) = some d := by
  induction mem using rounds_induction with
  | nil => exact ⟨_, asciiToUtf16_empty _⟩
  | zero rest => exact ⟨_, asciiToUtf16_empty _⟩
  | short b rest hb hlen =>
      have hle := announced_le b
      obtain ⟨wc, hwc⟩ := @asciiToUtf16_round b (rest ++ [0, 0, 0]) hb (by
        rw [List.length_append]
        show _ ≤ rest.length + 3 + 1
        omega)
      have hzero : ∃ more, (rest ++ [0, 0, 0]).drop (announced b - 1) = 0 :: more := by
        rw [List.drop_append, List.drop_of_length_le (by omega), List.nil_append]
        obtain hone | htwo : announced b - 1 - rest.length = 1 ∨
            announced b - 1 - rest.length = 2 := by omega
        · exact ⟨[0], by rw [hone]; rfl⟩
        · exact ⟨[], by rw [htwo]; rfl⟩
      obtain ⟨more, hmore⟩ := hzero
      rw [List.cons_append, hwc, hmore, asciiToUtf16_empty]
      exact ⟨_, rfl⟩
  | round b rest hb hlen ih =>
      obtain ⟨wc, hwc⟩ := @asciiToUtf16_round b (rest ++ [0, 0, 0]) hb (by
        rw [List.length_append]
        omega)
      obtain ⟨d, hd⟩ := ih
      rw [List.cons_append, hwc, List.drop_append_of_le_length (by omega), hd]
      exact ⟨_, rfl⟩

/-- The length that is returned counts the bytes that are written. -/
theorem asciiToUtf16_len (mem : List UInt8) : ∀ {d : Decoded}, asciiToUtf16 mem = some d →
    d.len = d.out.length := by
  induction mem using rounds_induction with
  | nil => exact nofun
  | zero rest =>
      intro d hd
      rw [asciiToUtf16_empty] at hd
      cases hd
      rfl
  | short b rest hb hlen =>
      intro d hd
      rw [asciiToUtf16_short hlen] at hd
      cases hd
  | round b rest hb hlen ih =>
      intro d hd
      obtain ⟨wc, hwc⟩ := asciiToUtf16_round hb hlen
      rw [hwc] at hd
      obtain ⟨d', hd', rfl⟩ := Option.map_eq_some_iff.mp hd
      show d'.len + 2 = d'.out.length + 2
      rw [ih hd']

/-- At most one unit is written for each byte, and one for the terminator. -/
theorem asciiToUtf16_out_le (mem : List UInt8) : ∀ {d : Decoded}, asciiToUtf16 mem = some d →
    d.out.length ≤ 2 * d.pin + 2 := by
  induction mem using rounds_induction with
  | nil => exact nofun
  | zero rest =>
      intro d hd
      rw [asciiToUtf16_empty] at hd
      cases hd
      exact Nat.le_refl _
  | short b rest hb hlen =>
      intro d hd
      rw [asciiToUtf16_short hlen] at hd
      cases hd
  | round b rest hb hlen ih =>
      intro d hd
      obtain ⟨wc, hwc⟩ := asciiToUtf16_round hb hlen
      rw [hwc] at hd
      obtain ⟨d', hd', rfl⟩ := Option.map_eq_some_iff.mp hd
      have hpos := announced_pos b
      have hle := ih hd'
      show d'.out.length + 2 ≤ 2 * (announced b + d'.pin) + 2
      omega

theorem complete_cons {b : UInt8} {rest : List UInt8} (hlen : announced b ≤ rest.length + 1)
    (h : Complete (rest.drop (announced b - 1))) : Complete (b :: rest) := by
  obtain ⟨pieces, hpieces, hflat⟩ := h
  have hpos := announced_pos b
  refine ⟨(b :: rest.take (announced b - 1)) :: pieces, ?_, ?_⟩
  · rintro p (_ | ⟨_, hp⟩)
    · refine ⟨b, _, rfl, ?_⟩
      rw [List.length_cons, List.length_take]
      omega
    · exact hpieces p hp
  · rw [List.flatten_cons, ← hflat, List.cons_append, List.take_append_drop]

theorem asciiToUtf16_letters (n : Nat) : ∃ d,
    asciiToUtf16 (List.replicate n 0x41 ++ [0, 0, 0]) = some d ∧ n ≤ d.out.length := by
  induction n with
  | zero => exact ⟨_, asciiToUtf16_empty _, Nat.zero_le _⟩
  | succ n ih =>
      obtain ⟨d, hd, hlen⟩ := ih
      refine ⟨d.step 1 0x41, ?_, ?_⟩
      · rw [List.replicate_succ, List.cons_append, asciiToUtf16_ascii (by decide) (by decide), hd]
        rfl
      · show n + 1 ≤ d.out.length + 2
        omega

/-- Where the last sequence of a string is cut, the text behind the terminator is converted
too. -/
theorem asciiToUtf16_incomplete {s : List UInt8} (hs : 0 ∉ s) (h : ¬Complete s) (n : Nat) : ∃ d,
    asciiToUtf16 (s ++ 0 :: (List.replicate (n + 1) 0x41 ++ [0, 0, 0])) = some d ∧
      n ≤ d.out.length := by
  induction s using rounds_induction with
  | nil => exact absurd ⟨[], nofun, rfl⟩ h
  | zero rest => exact absurd List.mem_cons_self hs
  | short b rest hb hlen =>
      have hle := announced_le b
      obtain ⟨wc, hwc⟩ := @asciiToUtf16_round b
        (rest ++ 0 :: (List.replicate (n + 1) 0x41 ++ [0, 0, 0])) hb (by
          rw [List.length_append, List.length_cons, List.length_append, List.length_replicate]
          omega)
      have hletters : ∃ k, n ≤ k ∧
          (rest ++ 0 :: (List.replicate (n + 1) 0x41 ++ [0, 0, 0])).drop (announced b - 1) =
            List.replicate k 0x41 ++ [0, 0, 0] := by
        rw [List.drop_append, List.drop_of_length_le (by omega), List.nil_append]
        obtain hone | htwo : announced b - 1 - rest.length = 1 ∨
            announced b - 1 - rest.length = 2 := by omega
        · exact ⟨n + 1, Nat.le_succ n, by rw [hone]; rfl⟩
        · exact ⟨n, Nat.le_refl n, by rw [htwo, List.replicate_succ]; rfl⟩
      obtain ⟨k, hk, hdrop⟩ := hletters
      obtain ⟨d, hd, hout⟩ := asciiToUtf16_letters k
      rw [List.cons_append, hwc, hdrop, hd]
      refine ⟨_, rfl, ?_⟩
      show n ≤ d.out.length + 2
      omega
  | round b rest hb hlen ih =>
      obtain ⟨wc, hwc⟩ := @asciiToUtf16_round b
        (rest ++ 0 :: (List.replicate (n + 1) 0x41 ++ [0, 0, 0])) hb (by
          rw [List.length_append]
          omega)
      obtain ⟨d, hd, hout⟩ := ih
        (fun hmem => hs (List.mem_cons_of_mem _ (List.mem_of_mem_drop hmem)))
        fun hrest => h (complete_cons hlen hrest)
      rw [List.cons_append, hwc, List.drop_append_of_le_length (by omega), hd]
      refine ⟨_, rfl, ?_⟩
      show n ≤ d.out.length + 2
      omega

theorem confined_append {b : UInt8} {rest s after : List UInt8} (hb : b ≠ 0)
    (hpiece : (b :: rest).length = announced b) (h : Confined s after) :
    Confined (b :: rest ++ s) after := by
  obtain ⟨d, hd, hpin, hreach⟩ := h
  rw [List.length_cons] at hpiece
  have hround := @asciiToUtf16_round b (rest ++ (s ++ 0 :: after)) hb
    (by rw [List.length_append]; omega)
  obtain ⟨wc, hwc⟩ := hround
  rw [List.drop_left' (by omega), hd] at hwc
  refine ⟨d.step (announced b) wc, ?_, ?_, ?_⟩
  · rw [List.append_assoc, List.cons_append]
    exact hwc
  · show announced b + d.pin = _
    rw [hpin, ← hpiece, List.length_append, List.length_cons]
  · show announced b + d.reach ≤ _
    rw [← hpiece, List.length_append, List.length_cons]
    omega

theorem confined_of_complete {s : List UInt8} (after : List UInt8) (hs : 0 ∉ s) (h : Complete s) :
    Confined s after := by
  obtain ⟨pieces, hpieces, rfl⟩ := h
  induction pieces with
  | nil => exact ⟨_, asciiToUtf16_empty after, rfl, Nat.le_refl _⟩
  | cons p pieces ih =>
      obtain ⟨b, rest, rfl, hpiece⟩ := hpieces p List.mem_cons_self
      rw [List.flatten_cons] at hs ⊢
      refine confined_append (fun hzero => hs ?_) hpiece (ih ?_ ?_)
      · rw [hzero]
        exact List.mem_append_left _ List.mem_cons_self
      · exact fun q hq => hpieces q (List.mem_cons_of_mem _ hq)
      · exact fun hmem => hs (List.mem_append_right _ hmem)

/-- Where the loop stops at the terminator, it has consumed whole sequences. -/
theorem complete_of_pin {after : List UInt8} (s : List UInt8) : ∀ {d : Decoded}, 0 ∉ s →
    asciiToUtf16 (s ++ 0 :: after) = some d → d.pin = s.length → Complete s := by
  induction s using rounds_induction with
  | nil => exact fun _ _ _ => ⟨[], nofun, rfl⟩
  | zero rest => exact fun hs _ _ => absurd List.mem_cons_self hs
  | short b rest hb hlen =>
      intro d hs hd hpin
      by_cases hmem : announced b ≤ (rest ++ 0 :: after).length + 1
      · -- the sequence ends behind the terminator
        obtain ⟨wc, hwc⟩ := asciiToUtf16_round hb hmem
        rw [List.cons_append, hwc] at hd
        obtain ⟨d', hd', rfl⟩ := Option.map_eq_some_iff.mp hd
        have hsum : announced b + d'.pin = rest.length + 1 := hpin
        omega
      · rw [List.cons_append, asciiToUtf16_short (Nat.lt_of_not_le hmem)] at hd
        cases hd
  | round b rest hb hlen ih =>
      intro d hs hd hpin
      obtain ⟨wc, hwc⟩ := @asciiToUtf16_round b (rest ++ 0 :: after) hb (by
        rw [List.length_append]
        omega)
      rw [List.cons_append, hwc] at hd
      obtain ⟨d', hd', rfl⟩ := Option.map_eq_some_iff.mp hd
      have hsum : announced b + d'.pin = rest.length + 1 := hpin
      have hpos := announced_pos b
      rw [List.drop_append_of_le_length (by omega)] at hd'
      refine complete_cons hlen (ih ?_ hd' ?_)
      · exact fun hmem => hs (List.mem_cons_of_mem _ (List.mem_of_mem_drop hmem))
      · rw [List.length_drop]
        omega

/-- The terminator is respected exactly by the strings whose last sequence is whole. -/
theorem asciiToUtf16_confined_iff {s : List UInt8} (after : List UInt8) (hs : 0 ∉ s) :
    Confined s after ↔ Complete s := by
  constructor
  · rintro ⟨d, hd, hpin, -⟩
    exact complete_of_pin s hs hd hpin
  · exact confined_of_complete after hs

/-- A two-byte character and an ASCII one. -/
theorem asciiToUtf16_confined_cafe : Confined [0xc3, 0xa9, 0x41] [0x42, 0] ∧
    asciiToUtf16 ([0xc3, 0xa9, 0x41] ++ 0 :: [0x42, 0]) = some ⟨⟨[0xe9, 0, 0x41, 0, 0, 0], 6⟩, 3, 4⟩ := by
  have hcomplete : Complete [0xc3, 0xa9, 0x41] := by
    refine ⟨[[0xc3, 0xa9], [0x41]], List.forall_mem_cons.mpr ⟨⟨0xc3, [0xa9], rfl, rfl⟩, ?_⟩, rfl⟩
    exact List.forall_mem_singleton.mpr ⟨0x41, [], rfl, rfl⟩
  exact ⟨(asciiToUtf16_confined_iff _ (by decide)).mpr hcomplete, by decide +kernel⟩

/-- Cut behind its first byte, a character takes the terminator with it, and the memory behind
becomes part of the name. -/
theorem asciiToUtf16_cut_character : (0 : UInt8) ∉ [0x41, 0xc3] ∧
    asciiToUtf16 ([0x41, 0xc3] ++ 0 :: [0x42, 0]) =
      some ⟨⟨[0x41, 0, 0xc0, 0, 0x42, 0, 0, 0], 8⟩, 4, 5⟩ ∧
    ¬Confined [0x41, 0xc3] [0x42, 0] := by
  have hrun : asciiToUtf16 ([0x41, 0xc3] ++ 0 :: [0x42, 0]) =
      some ⟨⟨[0x41, 0, 0xc0, 0, 0x42, 0, 0, 0], 8⟩, 4, 5⟩ := by decide +kernel
  refine ⟨by decide, hrun, ?_⟩
  rintro ⟨d, hd, hpin, -⟩
  rw [hrun] at hd
  cases hd
  cases hpin

/-! ## Code units -/

theorem le16_word {wc : Nat} (hwc : wc < 65536) :
    (UInt8.ofNat (wc &&& 0xff)).toNat ||| (UInt8.ofNat (wc >>> 8 &&& 0xff)).toNat <<< 8 = wc := by
  have hlo : wc % 256 < 2 ^ 8 := Nat.mod_lt _ (by decide)
  rw [and_ff, and_ff, Nat.shiftRight_eq_div_pow, toNat_ofNat_lt (by omega),
    toNat_ofNat_lt (by omega), Nat.or_comm, shiftLeft_or hlo]
  omega

/-- The bytes of the three branches, without the masks. -/
theorem utf8_two {wc : Nat} (hwc : wc < 0x800) :
    [UInt8.ofNat (0xc0 ||| wc >>> 6), UInt8.ofNat (0x80 ||| (wc &&& 0x3f))] =
      [UInt8.ofNat (0xc0 + wc / 64), UInt8.ofNat (0x80 + wc % 64)] := by
  have hlead : wc / 64 < 2 ^ 6 := by omega
  have hlast : wc % 64 < 2 ^ 6 := Nat.mod_lt _ (by decide)
  rw [and_3f, Nat.shiftRight_eq_div_pow, show 0xc0 = 3 <<< 6 from rfl, show 0x80 = 2 <<< 6 from rfl,
    shiftLeft_or hlead, shiftLeft_or hlast]
  rfl

theorem utf8_three {wc : Nat} (hwc : wc < 65536) :
    [UInt8.ofNat (0xe0 ||| wc >>> 12), UInt8.ofNat (0x80 ||| (wc >>> 6 &&& 0x3f)),
        UInt8.ofNat (0x80 ||| (wc &&& 0x3f))] =
      [UInt8.ofNat (0xe0 + wc / 4096), UInt8.ofNat (0x80 + wc / 64 % 64),
        UInt8.ofNat (0x80 + wc % 64)] := by
  have hlead : wc / 4096 < 2 ^ 4 := by omega
  have hmid : wc / 64 % 64 < 2 ^ 6 := Nat.mod_lt _ (by decide)
  have hlast : wc % 64 < 2 ^ 6 := Nat.mod_lt _ (by decide)
  rw [and_3f, and_3f, Nat.shiftRight_eq_div_pow, Nat.shiftRight_eq_div_pow,
    show 0xe0 = 14 <<< 4 from rfl, show 0x80 = 2 <<< 6 from rfl,
    shiftLeft_or hlead, shiftLeft_or hmid, shiftLeft_or hlast]
  rfl

section Unit

variable {wc : Nat} {rest : List UInt8} {inbytes : Int}

theorem utf16ToAscii_stop (h : inbytes < 2 ∨ wc = 0) :
    utf16ToAscii (unitBytes wc ++ rest) inbytes = some ⟨[0], 1⟩ := by
  show utf16ToAscii (_ :: _ :: rest) inbytes = _
  rw [utf16ToAscii.eq_def]
  dsimp only
  by_cases hin : inbytes < 2
  · rw [if_pos hin]
  · obtain rfl := h.resolve_left hin
    rw [if_neg hin]
    rfl

/-- One round of `utf16ToAscii`. -/
theorem utf16ToAscii_unit (hpos : 0 < wc) (hwc : wc < 65536) (hin : 2 ≤ inbytes) :
    utf16ToAscii (unitBytes wc ++ rest) inbytes =
      (utf16ToAscii rest (inbytes - 2)).map (.step (utf8 wc) (utf8 wc).length) := by
  show utf16ToAscii (_ :: _ :: rest) inbytes = _
  rw [utf16ToAscii.eq_def]
  dsimp only
  rw [le16_word hwc, if_neg (by omega), if_neg (by omega)]
  unfold utf8
  split
  · rfl
  · split
    · rw [utf8_two (by omega)]
      rfl
    · rw [utf8_three hwc]
      rfl

/-- One round of `asciiToUtf16`, on what a round of `utf16ToAscii` writes. -/
theorem asciiToUtf16_unit (hpos : 0 < wc) (hwc : wc < 65536) :
    asciiToUtf16 (utf8 wc ++ rest) =
      (asciiToUtf16 rest).map (.step (utf8 wc).length wc) := by
  unfold utf8
  split
  · have hbyte : (UInt8.ofNat wc).toNat = wc := toNat_ofNat_lt (by omega)
    have hround := @asciiToUtf16_ascii (UInt8.ofNat wc) rest
    rw [Ne, eq_zero_iff, lt_80_iff, hbyte] at hround
    exact hround (by omega) ‹_›
  · split
    · have hlead : (UInt8.ofNat (0xc0 + wc / 64)).toNat = 0xc0 + wc / 64 :=
        toNat_ofNat_lt (by omega)
      have hlast : (UInt8.ofNat (0x80 + wc % 64)).toNat = 0x80 + wc % 64 :=
        toNat_ofNat_lt (by omega)
      have hround := @asciiToUtf16_two (UInt8.ofNat (0xc0 + wc / 64))
        (UInt8.ofNat (0x80 + wc % 64)) rest
      have hlow : (0x80 + wc % 64) % 64 < 2 ^ 6 := Nat.mod_lt _ (by decide)
      rw [lead_two_iff, hlead, hlast, and_3f, Nat.and_two_pow_sub_one_eq_mod _ 5,
        shiftLeft_or hlow] at hround
      have hvalue : (0xc0 + wc / 64) % 2 ^ 5 * 2 ^ 6 + (0x80 + wc % 64) % 64 = wc := by omega
      rw [hvalue] at hround
      exact hround (by omega)
    · have hlead : (UInt8.ofNat (0xe0 + wc / 4096)).toNat = 0xe0 + wc / 4096 :=
        toNat_ofNat_lt (by omega)
      have hmid : (UInt8.ofNat (0x80 + wc / 64 % 64)).toNat = 0x80 + wc / 64 % 64 :=
        toNat_ofNat_lt (by omega)
      have hlast : (UInt8.ofNat (0x80 + wc % 64)).toNat = 0x80 + wc % 64 :=
        toNat_ofNat_lt (by omega)
      have hround := @asciiToUtf16_three (UInt8.ofNat (0xe0 + wc / 4096))
        (UInt8.ofNat (0x80 + wc / 64 % 64)) (UInt8.ofNat (0x80 + wc % 64)) rest
      have hlast' : (0x80 + wc % 64) % 64 < 2 ^ 6 := Nat.mod_lt _ (by decide)
      have hlow : (0x80 + wc / 64 % 64) % 64 * 2 ^ 6 + (0x80 + wc % 64) % 64 < 2 ^ 12 := by omega
      rw [lead_three_iff, hlead, hmid, hlast, and_3f, and_3f, Nat.and_two_pow_sub_one_eq_mod _ 4,
        Nat.or_assoc, shiftLeft_or hlast', shiftLeft_or hlow] at hround
      have hvalue : (0xe0 + wc / 4096) % 2 ^ 4 * 2 ^ 12 +
          ((0x80 + wc / 64 % 64) % 64 * 2 ^ 6 + (0x80 + wc % 64) % 64) = wc := by omega
      rw [hvalue] at hround
      exact hround (by omega)

end Unit

/-! ## Round trips -/

/-- The units in memory. -/
def units (u : List UInt16) : List UInt8 := u.flatMap fun wc => unitBytes wc.toNat

/-- What `utf16ToAscii` writes for them. -/
def text (u : List UInt16) : List UInt8 := u.flatMap fun wc => utf8 wc.toNat

section Units

variable {u : List UInt16} {rest : List UInt8}

theorem units_length (u : List UInt16) : (units u).length = 2 * u.length := by
  induction u with
  | nil => rfl
  | cons wc u ih =>
      show (unitBytes wc.toNat ++ units u).length = _
      rw [List.length_append, ih, List.length_cons]
      show 2 + 2 * u.length = _
      omega

theorem toNat_pos_of_mem {wc : UInt16} (hu : 0 ∉ u) (hwc : wc ∈ u) : 0 < wc.toNat := by
  refine Nat.pos_of_ne_zero fun hzero => hu ?_
  rwa [← UInt16.toNat_inj.mp (show wc.toNat = (0 : UInt16).toNat from hzero)]

theorem utf16ToAscii_units (hu : 0 ∉ u) (inbytes : Nat) :
    utf16ToAscii (units u ++ rest) (2 * u.length + inbytes : Nat) =
      (utf16ToAscii rest inbytes).map (.step (text u) (text u).length) := by
  induction u with
  | nil =>
      show utf16ToAscii rest _ = _
      rw [List.length_nil, Nat.mul_zero, Nat.zero_add]
      exact (Option.map_id_apply).symm
  | cons wc u ih =>
      have hpos := toNat_pos_of_mem hu List.mem_cons_self
      have hrest : ((2 * (u.length + 1) + inbytes : Nat) : Int) - 2 =
          (2 * u.length + inbytes : Nat) := by omega
      show utf16ToAscii (unitBytes wc.toNat ++ units u ++ rest) _ = _
      rw [List.append_assoc, List.length_cons, utf16ToAscii_unit hpos wc.toNat_lt (by omega), hrest,
        ih fun hmem => hu (List.mem_cons_of_mem _ hmem), Option.map_map]
      congr 1
      funext w
      show Written.mk (utf8 wc.toNat ++ (text u ++ w.out)) (w.len + (text u).length + _) =
        Written.mk (utf8 wc.toNat ++ text u ++ w.out) (w.len + (utf8 wc.toNat ++ text u).length)
      rw [List.append_assoc, List.length_append, Nat.add_assoc, Nat.add_comm (text u).length]

/-- The terminator, or the end of the field, ends the conversion. -/
theorem utf16ToAscii_field (hu : 0 ∉ u) {inbytes : Nat}
    (hin : inbytes = 2 * u.length ∨ inbytes = 2 * u.length + 2) :
    utf16ToAscii (units u ++ 0 :: 0 :: rest) inbytes =
      some ⟨text u ++ [0], (text u).length + 1⟩ := by
  have hend : ∀ n : Nat, utf16ToAscii (0 :: 0 :: rest) n = some ⟨[0], 1⟩ :=
    fun n => @utf16ToAscii_stop 0 rest n (Or.inr rfl)
  obtain rfl | rfl := hin
  · have hunits := @utf16ToAscii_units u (0 :: 0 :: rest) hu 0
    rw [Nat.add_zero, hend] at hunits
    rw [hunits, Nat.add_comm]
    rfl
  · rw [utf16ToAscii_units hu, hend, Nat.add_comm]
    rfl

theorem asciiToUtf16_text (hu : 0 ∉ u) : asciiToUtf16 (text u ++ 0 :: rest) =
    some ⟨⟨units u ++ [0, 0], 2 * u.length + 2⟩, (text u).length, (text u).length + 1⟩ := by
  induction u with
  | nil => exact asciiToUtf16_empty rest
  | cons wc u ih =>
      have hpos := toNat_pos_of_mem hu List.mem_cons_self
      show asciiToUtf16 (utf8 wc.toNat ++ text u ++ 0 :: rest) = _
      rw [List.append_assoc, asciiToUtf16_unit hpos wc.toNat_lt,
        ih fun hmem => hu (List.mem_cons_of_mem _ hmem)]
      show some (Decoded.mk (Written.mk (unitBytes wc.toNat ++ (units u ++ [0, 0])) _) _ _) =
        some (Decoded.mk (Written.mk (unitBytes wc.toNat ++ units u ++ [0, 0]) _)
          (utf8 wc.toNat ++ text u).length ((utf8 wc.toNat ++ text u).length + 1))
      rw [List.append_assoc, List.length_append, List.length_cons]
      rfl

end Units

section Characters

/-- The characters as one unit each. -/
def codeUnits (chars : List Char) : List UInt16 := chars.map fun c => c.val.toUInt16

/-- A character of the basic plane that is not the terminator. -/
def Basic (c : Char) : Prop := c ≠ '\x00' ∧ c.val < 0x10000

theorem Basic.toNat_lt {c : Char} (h : Basic c) : c.val.toNat < 65536 := UInt32.lt_iff_toNat_lt.mp h.2

theorem Basic.toUInt16_toNat {c : Char} (h : Basic c) : c.val.toUInt16.toNat = c.val.toNat := by
  rw [UInt32.toNat_toUInt16]
  exact Nat.mod_eq_of_lt h.toNat_lt

theorem Basic.utf8EncodeChar {c : Char} (h : Basic c) :
    String.utf8EncodeChar c = utf8 c.val.toUInt16.toNat := by
  have hlt := h.toNat_lt
  rw [h.toUInt16_toNat]
  unfold String.utf8EncodeChar utf8
  dsimp only
  by_cases hone : c.val.toNat < 0x80
  · rw [if_pos (by omega), if_pos hone]
  · rw [if_neg (by omega), if_neg hone]
    by_cases htwo : c.val.toNat < 0x800
    · rw [if_pos (by omega), if_pos htwo, Nat.mod_eq_of_lt (by omega), Nat.add_comm,
        Nat.add_comm (c.val.toNat % 64)]
    · rw [if_neg (by omega), if_neg htwo, if_pos (by omega),
        Nat.mod_eq_of_lt (show c.val.toNat / 4096 < 16 by omega), Nat.add_comm,
        Nat.add_comm (c.val.toNat / 64 % 64), Nat.add_comm (c.val.toNat % 64)]

theorem text_codeUnits {chars : List Char} (h : ∀ c ∈ chars, Basic c) :
    text (codeUnits chars) = chars.flatMap String.utf8EncodeChar := by
  unfold text codeUnits
  rw [List.flatMap_map]
  exact List.flatMap_congr fun c hc => (h c hc).utf8EncodeChar.symm

theorem zero_notMem_codeUnits {chars : List Char} (h : ∀ c ∈ chars, Basic c) :
    0 ∉ codeUnits chars := by
  intro hmem
  obtain ⟨c, hc, hzero⟩ := List.mem_map.mp hmem
  have hbasic := h c hc
  refine hbasic.1 (Char.ext (UInt32.toNat_inj.mp ?_))
  rw [← hbasic.toUInt16_toNat, hzero]
  rfl

end Characters

/-- Units survive the way through UTF-8, and UTF-8 the way through units; what is returned is
the number of bytes that were written. -/
theorem codec_round_trip :
    (∀ (u : List UInt16) (after : List UInt8) (inbytes : Nat), 0 ∉ u →
      (inbytes = 2 * u.length ∨ inbytes = 2 * u.length + 2) →
      ∃ w d, utf16ToAscii (units u ++ 0 :: 0 :: after) inbytes = some w ∧
        asciiToUtf16 w.out = some d ∧ d.out = units u ++ [0, 0] ∧
        w.len = w.out.length ∧ d.len = d.out.length) ∧
    (∀ (chars : List Char) (after : List UInt8), (∀ c ∈ chars, Basic c) →
      ∃ d w, asciiToUtf16 (chars.flatMap String.utf8EncodeChar ++ 0 :: after) = some d ∧
        utf16ToAscii d.out d.len = some w ∧ w.out = chars.flatMap String.utf8EncodeChar ++ [0] ∧
        d.len = d.out.length ∧ w.len = w.out.length) := by
  constructor
  · intro u after inbytes hu hin
    refine ⟨_, _, utf16ToAscii_field hu hin, asciiToUtf16_text hu, rfl, ?_, ?_⟩
    · rw [List.length_append]
      rfl
    · rw [List.length_append, units_length]
      rfl
  · intro chars after hchars
    rw [← text_codeUnits hchars]
    have hu := zero_notMem_codeUnits hchars
    refine ⟨_, _, asciiToUtf16_text hu, utf16ToAscii_field hu (Or.inr rfl), rfl, ?_, ?_⟩
    · rw [List.length_append, units_length]
      rfl
    · rw [List.length_append]
      rfl

/-- A lone surrogate, and a character of each length. -/
theorem codec_round_trip_samples :
    (∃ w d, utf16ToAscii (units [0xd800, 0x7f, 0x7ff] ++ [0, 0]) 6 = some w ∧
      asciiToUtf16 w.out = some d ∧ d.out = units [0xd800, 0x7f, 0x7ff] ++ [0, 0] ∧
      w.len = w.out.length ∧ d.len = d.out.length) ∧
    ∃ d w, asciiToUtf16 (['A', 'é', '中'].flatMap String.utf8EncodeChar ++ [0]) = some d ∧
      utf16ToAscii d.out d.len = some w ∧
      w.out = ['A', 'é', '中'].flatMap String.utf8EncodeChar ++ [0] ∧
      d.len = d.out.length ∧ w.len = w.out.length := by
  refine ⟨codec_round_trip.1 _ [] 6 (by decide) (Or.inl rfl), codec_round_trip.2 _ [] ?_⟩
  simp [Basic]

end BdmAssault.Smb.Codec
