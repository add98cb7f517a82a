import Mathlib
import BdmAssault.DeviceOps
import BdmAssault.FatFs.Fragments

/-! # Requests to a fragmented file

`bd_defrag_read` and `bd_defrag_write` of `bd_defrag.c` take a fragment list and a range of
sectors of the file. They look for the fragment of the next sector, pass on what lies in
it, and start the search again.
-/

namespace BdmAssault.FatFs

/-- A request that is passed on: `count` sectors from `lba` on, at sector `pos` of the buffer. -/
structure Piece where
  lba : UInt64
  pos : Nat
  count : UInt16
  deriving DecidableEq

/-- The fragment of a sector of the file, and where it begins in the file. -/
def locateFragment (sector : UInt64) : UInt64 → List BdFragment → Option (BdFragment × UInt64)
  | _, [] => none
  | offset, f :: frags =>
      if offset ≤ sector ∧ sector < offset + f.count.toUInt64 then some (f, offset)
      else locateFragment sector (offset + f.count.toUInt64) frags

/-- Clip to fragment size. -/
def clipCount (sector : UInt64) (left : UInt16) (f : BdFragment) (offset : UInt64) : UInt16 :=
  if offset + f.count.toUInt64 < sector + left.toUInt64 then (offset + f.count.toUInt64 - sector).toUInt16
  else left

/-- The common loop; `io` is the call of `bd->read` or `bd->write`. -/
def defragLoop {σ : Type} (io : Piece → σ → Int × σ) (frags : List BdFragment) (count : UInt16) :
    Nat → UInt64 → Nat → UInt16 → σ → Option (Int × σ)
  | fuel, sector, pos, left, s =>
      if left = 0 then some (count.toNat, s)
      else
        match fuel with
        | 0 => none
        | fuel + 1 =>
            match locateFragment sector 0 frags with
            | none => some (-1, s)
            | some (f, offset) =>
                let n := clipCount sector left f offset
                let (res, s) := io ⟨f.sector + (sector - offset), pos, n⟩ s
                if res ≠ n.toNat then some (-1, s)
                else defragLoop io frags count fuel (sector + n.toUInt64) (pos + n.toNat) (left - n) s

/-- The fragments of `fraglist[0]` to `fraglist[fragcount - 1]`. -/
def fragments (fragcount : UInt32) (fraglist : Nat → BdFragment) : List BdFragment :=
  (List.range fragcount.toNat).map fraglist

/-- `bd->read` into sector `pos` of the buffer. -/
def readPiece {σ α : Type} (bd : DeviceOps σ α) (p : Piece) (s : (Nat → α) × σ) : Int × (Nat → α) × σ :=
  let (reply, dev) := bd.read p.lba p.count s.2
  (reply.result, fun i => if p.pos ≤ i ∧ i < p.pos + p.count.toNat then reply.data (i - p.pos) else s.1 i, dev)

/-- `bd->write` from sector `pos` of the buffer. -/
def writePiece {σ α : Type} (bd : DeviceOps σ α) (buffer : Nat → α) (p : Piece) (s : σ) : Int × σ :=
  bd.write p.lba (fun i => buffer (p.pos + i)) p.count s

def bdDefragRead {σ α : Type} (bd : DeviceOps σ α) (fragcount : UInt32) (fraglist : Nat → BdFragment)
    (sector : UInt64) (buffer : Nat → α) (count : UInt16) (s : σ) : Option (Int × (Nat → α) × σ) :=
  defragLoop (readPiece bd) (fragments fragcount fraglist) count count.toNat sector 0 count (buffer, s)

def bdDefragWrite {σ α : Type} (bd : DeviceOps σ α) (fragcount : UInt32) (fraglist : Nat → BdFragment)
    (sector : UInt64) (buffer : Nat → α) (count : UInt16) (s : σ) : Option (Int × σ) :=
  defragLoop (writePiece bd buffer) (fragments fragcount fraglist) count count.toNat sector 0 count s

/-! ## One pass over the fragments -/

/-- The parts of the range from `lo` to `hi` in fragments that begin at sector `off` of the
file; sector `base` is the first one of the buffer. -/
def pieces (base lo hi : Nat) : Nat → List BdFragment → List Piece
  | _, [] => []
  | off, f :: frags =>
      let rest := pieces base lo hi (off + f.count.toNat) frags
      if max lo off < min hi (off + f.count.toNat) then
        ⟨f.sector + .ofNat (max lo off - off), max lo off - base,
          .ofNat (min hi (off + f.count.toNat) - max lo off)⟩ :: rest
      else rest

/-- One piece after the other, up to the first that is not done in full. -/
def passOn {σ : Type} (io : Piece → σ → Int × σ) : List Piece → σ → Bool × σ
  | [], s => (true, s)
  | p :: ps, s =>
      let (res, s) := io p s
      if res ≠ p.count.toNat then (false, s) else passOn io ps s

/-- The length of a fragmented file in sectors. -/
def total (frags : List BdFragment) : Nat := (frags.map fun f => f.count.toNat).sum

@[simp] theorem total_nil : total [] = 0 := rfl

@[simp] theorem total_cons (f : BdFragment) (frags : List BdFragment) :
    total (f :: frags) = f.count.toNat + total frags := List.sum_cons

@[simp] theorem total_append (frags frags' : List BdFragment) :
    total (frags ++ frags') = total frags + total frags' := by
  unfold total
  rw [List.map_append, List.sum_append]

/-- Counts of 32 bits cannot overflow an offset of 64 bits. -/
theorem total_lt {frags : List BdFragment} (h : frags.length < 4294967296) :
    total frags ≤ 18446744065119617025 := by
  have hsum : total frags ≤ frags.length * 4294967295 := by
    clear h
    induction frags with
    | nil => exact Nat.zero_le _
    | cons f frags ih =>
        have hf := f.count.toNat_lt
        rw [total_cons, List.length_cons]
        omega
  omega

theorem fragments_length (fragcount : UInt32) (fraglist : Nat → BdFragment) :
    (fragments fragcount fraglist).length < 4294967296 := by
  unfold fragments
  rw [List.length_map, List.length_range]
  exact fragcount.toNat_lt

section Locate

variable {frags : List BdFragment} {sector off : Nat}

theorem locateFragment_step (f : BdFragment) (h : off + total (f :: frags) < 18446744073709551616)
    (hsector : sector < 18446744073709551616) :
    locateFragment (.ofNat sector) (.ofNat off) (f :: frags) =
      if off ≤ sector ∧ sector < off + f.count.toNat then some (f, .ofNat off)
      else locateFragment (.ofNat sector) (.ofNat (off + f.count.toNat)) frags := by
  rw [total_cons] at h
  have hadd : UInt64.ofNat off + f.count.toUInt64 = .ofNat (off + f.count.toNat) := by
    rw [UInt64.ofNat_add, UInt64.ofNat_uInt32ToNat]
  have hlow : (UInt64.ofNat off).toNat = off := UInt64.toNat_ofNat_of_lt' (Nat.lt_of_le_of_lt (Nat.le_add_right _ _) h)
  have hhigh : (UInt64.ofNat (off + f.count.toNat)).toNat = off + f.count.toNat := by
    apply UInt64.toNat_ofNat_of_lt'
    show off + f.count.toNat < 18446744073709551616
    omega
  rw [locateFragment, hadd]
  refine if_congr ?_ rfl rfl
  rw [UInt64.le_iff_toNat_le, UInt64.lt_iff_toNat_lt, UInt64.toNat_ofNat_of_lt' hsector, hlow, hhigh]

/-- What the search finds: the fragments before the one that it stops at end in front of
the sector. -/
theorem locateFragment_spec (hsector : sector < 18446744073709551616)
    (h : off + total frags < 18446744073709551616) (hoff : off ≤ sector) :
    (off + total frags ≤ sector ∧ locateFragment (.ofNat sector) (.ofNat off) frags = none) ∨
      ∃ pre f post, frags = pre ++ f :: post ∧ off + total pre ≤ sector ∧
        sector < off + total pre + f.count.toNat ∧
        locateFragment (.ofNat sector) (.ofNat off) frags = some (f, .ofNat (off + total pre)) := by
  induction frags generalizing off with
  | nil => exact .inl ⟨hoff, rfl⟩
  | cons f frags ih =>
      rw [locateFragment_step f h hsector]
      by_cases hin : off ≤ sector ∧ sector < off + f.count.toNat
      · rw [if_pos hin]
        exact .inr ⟨[], f, frags, rfl, hin.1, hin.2, rfl⟩
      · rw [if_neg hin]
        rw [total_cons] at h
        rcases @ih (off + f.count.toNat) (by omega) (by omega) with
          ⟨hend, hnone⟩ | ⟨pre, g, post, hfrags, hlow, hhigh, hsome⟩
        · exact .inl ⟨by rw [total_cons]; omega, hnone⟩
        · refine .inr ⟨f :: pre, g, post, by rw [hfrags, List.cons_append], ?_, ?_, ?_⟩
          · rw [total_cons]; omega
          · rw [total_cons]; omega
          · rw [hsome, total_cons, Nat.add_assoc]

end Locate

section Pieces

variable {base lo hi mid off : Nat} {f : BdFragment} {pre post frags : List BdFragment}

/-- Fragments that end in front of the range. -/
theorem pieces_before (h : off + total pre ≤ lo) :
    pieces base lo hi off (pre ++ frags) = pieces base lo hi (off + total pre) frags := by
  induction pre generalizing off with
  | nil => rfl
  | cons g pre ih =>
      rw [total_cons] at h
      rw [List.cons_append, pieces]
      rw [if_neg (by omega), ih (by omega), total_cons, Nat.add_assoc]

/-- Fragments that begin behind the range. -/
theorem pieces_behind (h : hi ≤ off) : pieces base lo hi off frags = [] := by
  induction frags generalizing off with
  | nil => rfl
  | cons g frags ih =>
      rw [pieces]
      rw [if_neg (by omega)]
      exact ih (by omega)

/-- Where the range begins does not matter to fragments behind. -/
theorem pieces_advance (h : lo ≤ off) (h' : mid ≤ off) :
    pieces base lo hi off frags = pieces base mid hi off frags := by
  induction frags generalizing off with
  | nil => rfl
  | cons g frags ih =>
      rw [pieces, pieces]
      rw [ih (by omega) (by omega), Nat.max_eq_right h, Nat.max_eq_right h']

/-- The first piece, and the pieces of what is left. -/
theorem pieces_step (hlow : total pre ≤ lo) (hhigh : lo < total pre + f.count.toNat) (hlt : lo < hi)
    (hmid : mid = min hi (total pre + f.count.toNat)) :
    pieces base lo hi 0 (pre ++ f :: post) =
      ⟨f.sector + .ofNat (lo - total pre), lo - base, .ofNat (mid - lo)⟩ ::
        pieces base mid hi 0 (pre ++ f :: post) := by
  rw [pieces_before (by omega), pieces_before (by omega), Nat.zero_add, pieces, pieces]
  rw [if_pos (by omega), if_neg (by omega), Nat.max_eq_left hlow, ← hmid]
  congr 1
  by_cases hall : hi ≤ total pre + f.count.toNat
  · rw [pieces_behind hall, pieces_behind hall]
  · exact pieces_advance (by omega) (by omega)

/-- An empty range. -/
theorem pieces_empty : pieces base lo lo off frags = [] := by
  induction frags generalizing off with
  | nil => rfl
  | cons g frags ih =>
      rw [pieces, if_neg (by omega)]
      exact ih

/-- Nothing is left behind the last fragment. -/
theorem pieces_end (h : total frags ≤ lo) : pieces base lo hi 0 frags = [] := by
  have hall := @pieces_before base lo hi 0 frags [] (by omega)
  rw [List.append_nil] at hall
  rw [hall]
  rfl

end Pieces

section Loop

variable {σ : Type} {io : Piece → σ → Int × σ} {frags : List BdFragment}

/-- The clipped count, without the arithmetic of the source. -/
theorem clipCount_eq {f : BdFragment} {offset sector : Nat} {left : UInt16}
    (h : offset + f.count.toNat ≤ 18446744065119617025) (hlow : offset ≤ sector)
    (hhigh : sector < offset + f.count.toNat) :
    (clipCount (.ofNat sector) left f (.ofNat offset)).toNat =
      min (sector + left.toNat) (offset + f.count.toNat) - sector := by
  have hleft := left.toNat_lt
  have hcount : (UInt64.ofNat offset + f.count.toUInt64).toNat = offset + f.count.toNat := by
    rw [UInt64.toNat_add, UInt32.toNat_toUInt64, UInt64.toNat_ofNat']
    show (offset % 18446744073709551616 + f.count.toNat) % 18446744073709551616 = _
    omega
  have hsector : (UInt64.ofNat sector).toNat = sector := by
    apply UInt64.toNat_ofNat_of_lt'
    show sector < 18446744073709551616
    omega
  have hend : (UInt64.ofNat sector + left.toUInt64).toNat = sector + left.toNat := by
    rw [UInt64.toNat_add, UInt16.toNat_toUInt64, hsector]
    exact Nat.mod_eq_of_lt (by omega)
  unfold clipCount
  by_cases hclip : UInt64.ofNat offset + f.count.toUInt64 < UInt64.ofNat sector + left.toUInt64
  · rw [if_pos hclip]
    rw [UInt64.lt_iff_toNat_lt, hcount, hend] at hclip
    rw [UInt64.toNat_toUInt16, UInt64.toNat_sub_of_le, hcount, hsector]
    · omega
    · rw [UInt64.le_iff_toNat_le, hcount, hsector]
      omega
  · rw [if_neg hclip]
    rw [UInt64.lt_iff_toNat_lt, hcount, hend] at hclip
    omega

theorem passOn_done {p : Piece} {ps : List Piece} {s : σ} (h : (io p s).1 = p.count.toNat) :
    passOn io (p :: ps) s = passOn io ps (io p s).2 := if_neg (not_not_intro h)

theorem passOn_failed {p : Piece} {ps : List Piece} {s : σ} (h : (io p s).1 ≠ p.count.toNat) :
    passOn io (p :: ps) s = (false, (io p s).2) := if_pos h

section Round

variable {count left n : UInt16} {fuel pos : Nat} {sector offset : UInt64} {s : σ} {f : BdFragment}

theorem defragLoop_done : defragLoop io frags count fuel sector pos 0 s = some ((count.toNat : Int), s) := by
  unfold defragLoop
  rw [if_pos rfl]

theorem defragLoop_notFound (hleft : left ≠ 0) (h : locateFragment sector 0 frags = none) :
    defragLoop io frags count (fuel + 1) sector pos left s = some (-1, s) := by
  unfold defragLoop
  rw [if_neg hleft, h]

theorem defragLoop_found (hleft : left ≠ 0) (h : locateFragment sector 0 frags = some (f, offset))
    (hn : clipCount sector left f offset = n) :
    defragLoop io frags count (fuel + 1) sector pos left s =
      if (io ⟨f.sector + (sector - offset), pos, n⟩ s).1 ≠ n.toNat then
        some (-1, (io ⟨f.sector + (sector - offset), pos, n⟩ s).2)
      else defragLoop io frags count fuel (sector + n.toUInt64) (pos + n.toNat) (left - n)
        (io ⟨f.sector + (sector - offset), pos, n⟩ s).2 := by
  rw [defragLoop, if_neg hleft, h, ← hn]

end Round

/-- What the caller gets when sector `lo` of the file and `left` sectors behind it were to
come. -/
def defragResult (frags : List BdFragment) (count : UInt16) (lo : Nat) (left : UInt16) (r : Bool × σ) :
    Int × σ :=
  (if r.1 = true ∧ (lo + left.toNat ≤ total frags ∨ left = 0) then count.toNat else -1, r.2)

theorem defragResult_cases (count : UInt16) (lo : Nat) (left : UInt16) (r : Bool × σ) :
    (defragResult frags count lo left r).1 = count.toNat ∨ (defragResult frags count lo left r).1 = -1 := by
  unfold defragResult
  split
  · exact .inl rfl
  · exact .inr rfl

theorem defragResult_iff {count : UInt16} {lo : Nat} {left : UInt16} {r : Bool × σ} :
    (defragResult frags count lo left r).1 = count.toNat ↔
      r.1 = true ∧ (lo + left.toNat ≤ total frags ∨ left = 0) := by
  unfold defragResult
  split
  · rename_i h
    exact ⟨fun _ => h, fun _ => rfl⟩
  · rename_i h
    exact ⟨fun heq => absurd heq (by dsimp only; omega), fun hyes => absurd hyes h⟩

/-- The loop passes on the pieces of the range, and refuses at the end of the file. -/
theorem defragLoop_eq (hfrags : total frags ≤ 18446744065119617025) (count : UInt16) {fuel base lo : Nat}
    {left : UInt16} (hfuel : left.toNat ≤ fuel) (hlo : lo < 18446744073709551616) (hbase : base ≤ lo) (s : σ) :
    defragLoop io frags count fuel (.ofNat lo) (lo - base) left s =
      some (defragResult frags count lo left (passOn io (pieces base lo (lo + left.toNat) 0 frags) s)) := by
  induction fuel generalizing lo left s with
  | zero =>
      have hleft : left = 0 := UInt16.toNat_inj.mp (Nat.le_zero.mp hfuel)
      subst hleft
      rw [defragLoop_done, show pieces base lo (lo + (0 : UInt16).toNat) 0 frags = [] from pieces_empty]
      simp [passOn, defragResult]
  | succ fuel ih =>
      by_cases hleft : left = 0
      · subst hleft
        rw [defragLoop_done, show pieces base lo (lo + (0 : UInt16).toNat) 0 frags = [] from pieces_empty]
        simp [passOn, defragResult]
      · have hpos : 0 < left.toNat := Nat.pos_of_ne_zero fun h => hleft (UInt16.toNat_inj.mp h)
        rcases @locateFragment_spec frags lo 0 hlo (by omega) (Nat.zero_le _) with
          ⟨hend, hnone⟩ | ⟨pre, f, post, hsplit, hlow, hhigh, hsome⟩
        · rw [defragLoop_notFound hleft hnone, pieces_end (by omega)]
          unfold passOn defragResult
          rw [if_neg]
          rintro ⟨-, hle | hzero⟩
          · omega
          · exact hleft hzero
        · rw [Nat.zero_add] at hlow hhigh hsome
          have hall : total pre + f.count.toNat ≤ total frags := by
            rw [hsplit, total_append, total_cons]
            omega
          have hclip := @clipCount_eq f (total pre) lo left (by omega) hlow hhigh
          rw [defragLoop_found hleft hsome rfl]
          generalize clipCount (.ofNat lo) left f (.ofNat (total pre)) = n at hclip ⊢
          have hn : lo + n.toNat = min (lo + left.toNat) (total pre + f.count.toNat) := by omega
          have hpiece := @pieces_step base lo _ _ f pre post hlow hhigh (by omega) hn
          rw [← hsplit, Nat.add_sub_cancel_left, show UInt16.ofNat n.toNat = n from UInt16.ofNat_toNat,
            UInt64.ofNat_sub hlow] at hpiece
          have hrest : lo + n.toNat + (left - n).toNat = lo + left.toNat := by
            rw [UInt16.toNat_sub_of_le _ _ (UInt16.le_iff_toNat_le.mpr (by omega))]
            omega
          have hzero : left - n = 0 → lo + left.toNat ≤ total frags := by
            intro h
            rw [h] at hrest
            have hall' : lo + n.toNat + 0 = lo + left.toNat := hrest
            omega
          rw [hpiece]
          have hp : (⟨f.sector + (.ofNat lo - .ofNat (total pre)), lo - base, n⟩ : Piece).count = n := rfl
          generalize (⟨f.sector + (.ofNat lo - .ofNat (total pre)), lo - base, n⟩ : Piece) = p at hp ⊢
          by_cases hres : (io p s).1 = n.toNat
          · have hsector : UInt64.ofNat lo + n.toUInt64 = .ofNat (lo + n.toNat) := by
              rw [UInt64.ofNat_add, UInt64.ofNat_uInt16ToNat]
            have hpos : lo - base + n.toNat = lo + n.toNat - base := by omega
            rw [if_neg (not_not_intro hres), passOn_done (hp ▸ hres), hsector, hpos,
              ih (by omega) (by omega) (by omega), hrest]
            unfold defragResult
            rw [hrest]
            congr 2
            refine if_congr (and_congr_right fun _ => ?_) rfl rfl
            exact ⟨fun h => .inl (h.elim id hzero), fun h => .inl (h.resolve_right hleft)⟩
          · rw [if_pos hres, passOn_failed (hp ▸ hres)]
            simp [defragResult]

end Loop

/-! ## The sectors of the pieces -/

def Piece.sectors (p : Piece) : List UInt64 := sectorsFrom p.lba p.count.toNat

/-- The sectors of a fragmented file, in order. -/
def fileSectors (frags : List BdFragment) : List UInt64 := frags.flatMap BdFragment.sectors

theorem fileSectors_length (frags : List BdFragment) : (fileSectors frags).length = total frags := by
  unfold fileSectors total
  rw [List.length_flatMap]
  congr 1
  apply List.map_congr_left
  intro f _
  unfold BdFragment.sectors
  rw [List.length_map, List.length_range]

theorem sectorsFrom_length (sector : UInt64) (n : Nat) : (sectorsFrom sector n).length = n := by
  unfold sectorsFrom
  rw [List.length_map, List.length_range]

theorem sectorsFrom_getElem {sector : UInt64} {n i : Nat} (h : i < (sectorsFrom sector n).length) :
    (sectorsFrom sector n)[i] = sector + .ofNat i := by simp [sectorsFrom]

theorem Piece.sectors_getElem {p : Piece} {i : Nat} (h : i < p.sectors.length) : p.sectors[i] = p.lba + .ofNat i :=
  sectorsFrom_getElem h

theorem Piece.mem_sectors {p : Piece} {i : Nat} (h : i < p.count.toNat) : p.lba + .ofNat i ∈ p.sectors :=
  List.mem_map.mpr ⟨i, List.mem_range.mpr h, rfl⟩

theorem sectorsFrom_take_drop (sector : UInt64) (n first last : Nat) :
    ((sectorsFrom sector n).take last).drop first =
      sectorsFrom (sector + .ofNat first) (min last n - first) := by
  apply List.ext_getElem
  · rw [List.length_drop, List.length_take, sectorsFrom_length, sectorsFrom_length]
  · intro i _ _
    rw [List.getElem_drop, List.getElem_take, sectorsFrom_getElem, sectorsFrom_getElem, UInt64.ofNat_add,
      UInt64.add_assoc]

theorem pieces_sectors {base lo hi off : Nat} (h : hi - lo < 65536) (frags : List BdFragment) :
    (pieces base lo hi off frags).flatMap Piece.sectors =
      ((fileSectors frags).take (hi - off)).drop (lo - off) := by
  induction frags generalizing off with
  | nil =>
      show [] = _
      rw [show fileSectors [] = [] from rfl, List.take_nil, List.drop_nil]
  | cons f frags ih =>
      have hf : f.sectors = sectorsFrom f.sector f.count.toNat := rfl
      have hfile : fileSectors (f :: frags) = sectorsFrom f.sector f.count.toNat ++ fileSectors frags :=
        List.flatMap_cons
      have hrest : (fileSectors frags).take (hi - off - f.count.toNat) =
          (fileSectors frags).take (hi - (off + f.count.toNat)) := by rw [Nat.sub_sub]
      rw [hfile, List.take_append, List.drop_append, sectorsFrom_take_drop, sectorsFrom_length, hrest, List.length_take,
        sectorsFrom_length]
      have hdrop : ((fileSectors frags).take (hi - (off + f.count.toNat))).drop
            (lo - off - min (hi - off) f.count.toNat) =
          (pieces base lo hi (off + f.count.toNat) frags).flatMap Piece.sectors := by
        rw [ih]
        by_cases hlo : f.count.toNat ≤ hi - off
        · rw [Nat.min_eq_right hlo, Nat.sub_sub]
        · rw [show hi - (off + f.count.toNat) = 0 by omega, List.take_zero, List.drop_nil, List.drop_nil]
      rw [hdrop, pieces]
      by_cases hpart : max lo off < min hi (off + f.count.toNat)
      · rw [if_pos hpart, List.flatMap_cons]
        congr 1
        have hcount : (UInt16.ofNat (min hi (off + f.count.toNat) - max lo off)).toNat =
            min hi (off + f.count.toNat) - max lo off := UInt16.toNat_ofNat_of_lt' (by
          show min hi (off + f.count.toNat) - max lo off < 65536
          omega)
        show sectorsFrom _ (UInt16.ofNat (min hi (off + f.count.toNat) - max lo off)).toNat = _
        rw [hcount, show max lo off - off = lo - off by omega]
        congr 1
        omega
      · rw [if_neg hpart, show min (hi - off) f.count.toNat - (lo - off) = 0 by omega]
        rfl

/-- The pieces fill the buffer without gaps, from sector `pos` of it on. -/
def Contiguous : Nat → List Piece → Prop
  | _, [] => True
  | pos, p :: ps => p.pos = pos ∧ Contiguous (pos + p.count.toNat) ps

theorem contiguous_pieces {base lo hi off : Nat} (h : hi - lo < 65536) (hle : lo ≤ hi) (hbase : base ≤ lo)
    (frags : List BdFragment) : Contiguous (max lo off - base) (pieces base lo hi off frags) := by
  induction frags generalizing off with
  | nil => trivial
  | cons f frags ih =>
      have hrest := @ih (off + f.count.toNat)
      have hbehind := @pieces_behind base lo hi (off + f.count.toNat) frags
      rw [pieces]
      by_cases hpart : max lo off < min hi (off + f.count.toNat)
      · rw [if_pos hpart]
        refine ⟨rfl, ?_⟩
        show Contiguous (max lo off - base + (UInt16.ofNat _).toNat) _
        rw [UInt16.toNat_ofNat_of_lt' (by
          show min hi (off + f.count.toNat) - max lo off < 65536
          omega)]
        by_cases hend : hi ≤ off + f.count.toNat
        · rw [hbehind hend]
          trivial
        · rwa [show max lo off - base + (min hi (off + f.count.toNat) - max lo off) =
            max lo (off + f.count.toNat) - base by omega]
      · rw [if_neg hpart]
        by_cases hend : hi ≤ off + f.count.toNat
        · rw [hbehind hend]
          trivial
        · rwa [show max lo off = max lo (off + f.count.toNat) by omega]

/-! ## Reading and writing -/

section Device

variable {σ α : Type} {bd : DeviceOps σ α} {contents : σ → UInt64 → α}

theorem passOn_working {σ : Type} {io : Piece → σ → Int × σ} (h : ∀ p s, (io p s).1 = p.count.toNat)
    (ps : List Piece) (s : σ) : (passOn io ps s).1 = true := by
  induction ps generalizing s with
  | nil => rfl
  | cons p ps ih => rw [passOn_done (h p s), ih]

theorem passOn_read (hbd : HasSectors bd contents) {ps : List Piece} {pos : Nat} (hps : Contiguous pos ps)
    (s : (Nat → α) × σ) :
    contents (passOn (readPiece bd) ps s).2.2 = contents s.2 ∧
      (∀ i, i < pos ∨ pos + (ps.flatMap Piece.sectors).length ≤ i → (passOn (readPiece bd) ps s).2.1 i = s.1 i) ∧
      ((passOn (readPiece bd) ps s).1 = true → ∀ i (h : i < (ps.flatMap Piece.sectors).length),
        (passOn (readPiece bd) ps s).2.1 (pos + i) = contents s.2 (ps.flatMap Piece.sectors)[i]) := by
  induction ps generalizing pos s with
  | nil => exact ⟨rfl, fun _ _ => rfl, fun _ i h => absurd h (Nat.not_lt_zero i)⟩
  | cons p ps ih =>
      obtain ⟨hpos, hps⟩ := hps
      have hlength : p.sectors.length = p.count.toNat := sectorsFrom_length _ _
      have hkeeps : contents (readPiece bd p s).2.2 = contents s.2 := hbd.read_keeps _ _ _
      have houtside : ∀ i, i < pos ∨ pos + p.count.toNat ≤ i → (readPiece bd p s).2.1 i = s.1 i := by
        intro i hi
        refine if_neg ?_
        rw [hpos]
        omega
      have hinside : (readPiece bd p s).1 = p.count.toNat → ∀ i < p.count.toNat,
          (readPiece bd p s).2.1 (pos + i) = contents s.2 (p.lba + .ofNat i) := by
        intro hres i hi
        rw [← hbd.read_data _ _ _ hres i hi]
        refine (if_pos (by rw [hpos]; omega)).trans ?_
        rw [hpos, Nat.add_sub_cancel_left]
      rw [List.flatMap_cons]
      have htotal : (p.sectors ++ ps.flatMap Piece.sectors).length =
          p.count.toNat + (ps.flatMap Piece.sectors).length := by rw [List.length_append, hlength]
      by_cases hres : (readPiece bd p s).1 = p.count.toNat
      · rw [passOn_done hres]
        obtain ⟨hcontents, hframe, hdata⟩ := ih hps (readPiece bd p s).2
        refine ⟨hcontents.trans hkeeps, fun i hi => ?_, fun hok i hi => ?_⟩
        · rw [hframe i (by omega), houtside i (by omega)]
        · by_cases hfirst : i < p.count.toNat
          · rw [hframe _ (by omega), hinside hres i hfirst, List.getElem_append_left (by omega), Piece.sectors_getElem]
          · have hnext := hdata hok (i - p.count.toNat) (by omega)
            rw [hkeeps, show pos + p.count.toNat + (i - p.count.toNat) = pos + i by omega] at hnext
            rw [hnext, List.getElem_append_right (by omega)]
            simp only [hlength]
      · rw [passOn_failed hres]
        refine ⟨hkeeps, fun i hi => houtside i (by omega), fun hfalse => absurd hfalse Bool.false_ne_true⟩

theorem passOn_write (hbd : HasSectors bd contents) {ps : List Piece} {pos : Nat} (hps : Contiguous pos ps)
    (hnodup : (ps.flatMap Piece.sectors).Nodup) (buffer : Nat → α) (s : σ) :
    (∀ a ∉ ps.flatMap Piece.sectors, contents (passOn (writePiece bd buffer) ps s).2 a = contents s a) ∧
      ((passOn (writePiece bd buffer) ps s).1 = true → ∀ i (h : i < (ps.flatMap Piece.sectors).length),
        contents (passOn (writePiece bd buffer) ps s).2 (ps.flatMap Piece.sectors)[i] = buffer (pos + i)) := by
  induction ps generalizing pos s with
  | nil => exact ⟨fun _ _ => rfl, fun _ i h => absurd h (Nat.not_lt_zero i)⟩
  | cons p ps ih =>
      obtain ⟨hpos, hps⟩ := hps
      have hlength : p.sectors.length = p.count.toNat := sectorsFrom_length _ _
      rw [List.flatMap_cons] at hnodup ⊢
      obtain ⟨-, hrest, hdisjoint⟩ := List.nodup_append.mp hnodup
      have hkeeps : ∀ a ∉ p.sectors, contents (writePiece bd buffer p s).2 a = contents s a :=
        fun a ha => hbd.write_keeps _ _ _ _ a fun i hi heq => ha (heq ▸ Piece.mem_sectors hi)
      have hinside : (writePiece bd buffer p s).1 = p.count.toNat → ∀ i < p.count.toNat,
          contents (writePiece bd buffer p s).2 (p.lba + .ofNat i) = buffer (pos + i) :=
        fun hres i hi => hpos ▸ hbd.write_data _ _ _ _ hres i hi
      by_cases hres : (writePiece bd buffer p s).1 = p.count.toNat
      · rw [passOn_done hres]
        obtain ⟨hframe, hdata⟩ := ih hps hrest (writePiece bd buffer p s).2
        refine ⟨fun a ha => ?_, fun hok i hi => ?_⟩
        · rw [List.mem_append, not_or] at ha
          rw [hframe a ha.2, hkeeps a ha.1]
        · by_cases hfirst : i < p.sectors.length
          · rw [List.getElem_append_left hfirst, hframe _ fun hmem => hdisjoint _ (List.getElem_mem hfirst) _ hmem rfl,
              Piece.sectors_getElem, hinside hres i (by omega)]
          · have hnext := hdata hok (i - p.sectors.length) (by rw [List.length_append] at hi; omega)
            rw [List.getElem_append_right (by omega), hnext]
            congr 1
            omega
      · rw [passOn_failed hres]
        refine ⟨fun a ha => hkeeps a ?_, fun hfalse => absurd hfalse Bool.false_ne_true⟩
        rw [List.mem_append, not_or] at ha
        exact ha.1

/-- The sectors of a range of the file, as far as it goes. -/
def rangeSectors (frags : List BdFragment) (sector : UInt64) (count : UInt16) : List UInt64 :=
  ((fileSectors frags).take (sector.toNat + count.toNat)).drop sector.toNat

/-- The requests that a call comes to. -/
theorem requests_exist (frags : List BdFragment) (h : frags.length < 4294967296) (sector : UInt64) (count : UInt16) :
    ∃ ps, Contiguous 0 ps ∧ ps.flatMap Piece.sectors = rangeSectors frags sector count ∧
      ∀ {σ : Type} (io : Piece → σ → Int × σ) (s : σ),
        defragLoop io frags count count.toNat sector 0 count s =
          some (defragResult frags count sector.toNat count (passOn io ps s)) := by
  have hcount : count.toNat < 65536 := count.toNat_lt
  have hrange : sector.toNat + count.toNat - sector.toNat < 65536 := by omega
  refine ⟨pieces sector.toNat sector.toNat (sector.toNat + count.toNat) 0 frags, ?_, ?_, fun io s => ?_⟩
  · have hpieces := @contiguous_pieces sector.toNat _ _ 0 hrange (Nat.le_add_right _ _) (Nat.le_refl _) frags
    rwa [Nat.max_zero, Nat.sub_self] at hpieces
  · exact pieces_sectors hrange frags
  · have hloop := @defragLoop_eq _ io frags (total_lt h) count _ sector.toNat _ count (Nat.le_refl _) sector.toNat_lt
      (Nat.le_refl _) s
    rwa [UInt64.ofNat_toNat, Nat.sub_self] at hloop

section Range

variable {frags : List BdFragment} {sector : UInt64} {count : UInt16}

theorem rangeSectors_length_le : (rangeSectors frags sector count).length ≤ count.toNat := by
  unfold rangeSectors
  rw [List.length_drop, List.length_take]
  omega

theorem rangeSectors_length (h : sector.toNat + count.toNat ≤ total frags) :
    (rangeSectors frags sector count).length = count.toNat := by
  unfold rangeSectors
  rw [List.length_drop, List.length_take, fileSectors_length]
  omega

theorem rangeSectors_getElem? {i : Nat} (hi : i < count.toNat) :
    (rangeSectors frags sector count)[i]? = (fileSectors frags)[sector.toNat + i]? := by
  unfold rangeSectors
  rw [List.getElem?_drop, List.getElem?_take_of_lt (by omega)]

end Range

/-- What a read of a range of a fragmented file does. -/
theorem bdDefragRead_eq (hbd : HasSectors bd contents) {frags : List BdFragment} {fragcount : UInt32}
    {fraglist : Nat → BdFragment} (hfrags : fragments fragcount fraglist = frags)
    (sector : UInt64) (buffer : Nat → α) (count : UInt16) (s : σ) :
    ∃ ret data dev, bdDefragRead bd fragcount fraglist sector buffer count s = some (ret, data, dev) ∧
      contents dev = contents s ∧ (ret = count.toNat ∨ ret = -1) ∧
      (∀ i, count.toNat ≤ i → data i = buffer i) ∧
      (ret = count.toNat → (count = 0 ∨ sector.toNat + count.toNat ≤ total frags) ∧
        ∀ i < count.toNat, some (data i) = (fileSectors frags)[sector.toNat + i]?.map (contents s)) ∧
      (Working bd → sector.toNat + count.toNat ≤ total frags → ret = count.toNat) := by
  obtain ⟨ps, hps, hsectors, hloop⟩ := requests_exist frags (hfrags ▸ fragments_length _ _) sector count
  obtain ⟨hkeeps, houtside, hinside⟩ := passOn_read hbd hps (buffer, s)
  rw [hsectors] at houtside hinside
  have hle := @rangeSectors_length_le frags sector count
  refine ⟨_, _, _, by unfold bdDefragRead; rw [hfrags]; exact hloop _ _, hkeeps, ?_, fun i hi => ?_, ?_, ?_⟩
  · exact defragResult_cases count _ _ _
  · exact houtside i (.inr (by omega))
  · intro hret
    obtain ⟨hok, hfits⟩ := defragResult_iff.mp hret
    refine ⟨hfits.symm, fun i hi => ?_⟩
    have hall : sector.toNat + count.toNat ≤ total frags := by
      rcases hfits with hfits | rfl
      · exact hfits
      · exact absurd hi (Nat.not_lt_zero i)
    have hlength := rangeSectors_length hall
    have hdata := hinside hok i (by omega)
    rw [Nat.zero_add] at hdata
    rw [← rangeSectors_getElem? hi, List.getElem?_eq_getElem (by omega)]
    exact congrArg some hdata
  · intro hworking hall
    exact defragResult_iff.mpr ⟨passOn_working (fun p s => hworking.reads _ _ _) ps _, .inl hall⟩

/-- What a write of a range of a fragmented file does, if the file has no sector twice. -/
theorem bdDefragWrite_eq (hbd : HasSectors bd contents) {frags : List BdFragment} {fragcount : UInt32}
    {fraglist : Nat → BdFragment} (hfrags : fragments fragcount fraglist = frags)
    (hnodup : (fileSectors frags).Nodup) (sector : UInt64) (buffer : Nat → α) (count : UInt16) (s : σ) :
    ∃ ret dev, bdDefragWrite bd fragcount fraglist sector buffer count s = some (ret, dev) ∧
      (ret = count.toNat ∨ ret = -1) ∧
      (∀ a, (∀ i < count.toNat, (fileSectors frags)[sector.toNat + i]? ≠ some a) → contents dev a = contents s a) ∧
      (ret = count.toNat → (count = 0 ∨ sector.toNat + count.toNat ≤ total frags) ∧
        ∀ i < count.toNat, (fileSectors frags)[sector.toNat + i]?.map (contents dev) = some (buffer i)) ∧
      (Working bd → sector.toNat + count.toNat ≤ total frags → ret = count.toNat) := by
  obtain ⟨ps, hps, hsectors, hloop⟩ := requests_exist frags (hfrags ▸ fragments_length _ _) sector count
  have hrange : (rangeSectors frags sector count).Nodup :=
    hnodup.sublist ((List.drop_sublist _ _).trans (List.take_sublist _ _))
  obtain ⟨houtside, hinside⟩ := passOn_write hbd hps (hsectors ▸ hrange) buffer s
  rw [hsectors] at houtside hinside
  have hle := @rangeSectors_length_le frags sector count
  refine ⟨_, _, by unfold bdDefragWrite; rw [hfrags]; exact hloop _ _, ?_, fun a ha => ?_, ?_, ?_⟩
  · exact defragResult_cases count _ _ _
  · refine houtside a fun hmem => ?_
    obtain ⟨i, hi, rfl⟩ := List.mem_iff_getElem.mp hmem
    refine ha i (by omega) ?_
    have hcount : i < count.toNat := by omega
    rw [← rangeSectors_getElem? hcount, List.getElem?_eq_getElem hi]
  · intro hret
    obtain ⟨hok, hfits⟩ := defragResult_iff.mp hret
    refine ⟨hfits.symm, fun i hi => ?_⟩
    have hall : sector.toNat + count.toNat ≤ total frags := by
      rcases hfits with hfits | rfl
      · exact hfits
      · exact absurd hi (Nat.not_lt_zero i)
    have hlength := rangeSectors_length hall
    have hdata := hinside hok i (by omega)
    rw [Nat.zero_add] at hdata
    rw [← rangeSectors_getElem? hi, List.getElem?_eq_getElem (by omega)]
    exact congrArg some hdata
  · intro hworking hall
    exact defragResult_iff.mpr ⟨passOn_working (fun p s => hworking.writes _ _ _ _) ps _, .inl hall⟩

end Device

/-! ## Files -/

section File

variable {vol : Volume} {window : FatSectors} {obj : ObjId}

/-- Sector `k` of a file on the disk. -/
def fileSector (vol : Volume) (window : FatSectors) (obj : ObjId) (k : Nat) : UInt64 :=
  clst2sect vol.fs ((getFat vol.fs window obj)^[k / vol.fs.csize.toNat] obj.sclust) + vol.bd.sectorOffset +
    .ofNat (k % vol.fs.csize.toNat)

/-- The number of sectors of the clusters of a file. -/
def sectorLimit (vol : Volume) (obj : ObjId) : Nat := clusterCount vol obj * vol.fs.csize.toNat

theorem flatMap_getElem? {α β : Type} {f : α → List β} {c : Nat} (hc : 0 < c) (l : List α)
    (hf : ∀ a ∈ l, (f a).length = c) (k : Nat) :
    (l.flatMap f)[k]? = (l[k / c]?).bind fun a => (f a)[k % c]? := by
  induction l generalizing k with
  | nil => rfl
  | cons a l ih =>
      have ha := hf a List.mem_cons_self
      rw [List.flatMap_cons]
      by_cases hk : k < c
      · rw [List.getElem?_append_left (ha ▸ hk), Nat.div_eq_of_lt hk, Nat.mod_eq_of_lt hk]
        rfl
      · rw [List.getElem?_append_right (by omega), ih (fun b hb => hf b (List.mem_cons_of_mem a hb)), ha,
          Nat.div_eq_sub_div hc (Nat.le_of_not_lt hk), Nat.mod_eq_sub_mod (Nat.le_of_not_lt hk)]
        rfl

/-- The sectors of the clusters, one by one. -/
theorem clusters_flatMap (vol : Volume) (window : FatSectors) (obj : ObjId) :
    (clusters vol window obj).flatMap (clusterSectors vol) =
      (List.range (sectorLimit vol obj)).map (fileSector vol window obj) := by
  have hlength : ∀ clst, (clusterSectors vol clst).length = vol.fs.csize.toNat := by
    intro clst
    unfold clusterSectors
    rw [List.length_map, List.length_range]
  apply List.ext_getElem?
  intro k
  rw [flatMap_getElem? vol.fs.csize_pos _ fun clst _ => hlength clst, List.getElem?_map]
  unfold clusters sectorLimit
  by_cases hk : k < clusterCount vol obj * vol.fs.csize.toNat
  · have hdiv : k / vol.fs.csize.toNat < clusterCount vol obj := Nat.div_lt_of_lt_mul (by rwa [Nat.mul_comm])
    have hmod := Nat.mod_lt k vol.fs.csize_pos
    rw [List.getElem?_eq_getElem (by rwa [List.length_iterate]), List.getElem_iterate,
      List.getElem?_range hk]
    show (clusterSectors vol _)[k % vol.fs.csize.toNat]? = _
    unfold clusterSectors
    rw [List.getElem?_map, List.getElem?_range hmod]
    rfl
  · have hdiv : clusterCount vol obj ≤ k / vol.fs.csize.toNat :=
      (Nat.le_div_iff_mul_le vol.fs.csize_pos).mpr (Nat.le_of_not_lt hk)
    rw [List.getElem?_eq_none (by rwa [List.length_iterate]),
      List.getElem?_eq_none (by rw [List.length_range]; exact Nat.le_of_not_lt hk)]
    rfl

/-- Two clusters share no sector. -/
theorem clusterSectors_disjoint {a b : UInt32} (ha : vol.fs.InRange a) (hb : vol.fs.InRange b) (hne : a ≠ b) :
    (clusterSectors vol a).Disjoint (clusterSectors vol b) := by
  intro sector hsa hsb
  obtain ⟨i, hi, rfl⟩ := List.mem_map.mp hsa
  obtain ⟨j, hj, heq⟩ := List.mem_map.mp hsb
  rw [List.mem_range] at hi hj
  rw [clst2sect_of_inRange ha, clst2sect_of_inRange hb] at heq
  have hoffset : vol.fs.csize.toUInt64 * (b - 2).toUInt64 + .ofNat j =
      vol.fs.csize.toUInt64 * (a - 2).toUInt64 + .ofNat i := by grind
  have hsize : vol.fs.csize.toNat < 65536 := vol.fs.csize.toNat_lt
  have hnat := congrArg UInt64.toNat hoffset
  have hterm : ∀ {clst : UInt32} {k : Nat}, vol.fs.InRange clst → k < vol.fs.csize.toNat →
      (vol.fs.csize.toUInt64 * (clst - 2).toUInt64 + .ofNat k).toNat =
        vol.fs.csize.toNat * (clst.toNat - 2) + k := by
    intro clst k hclst hk
    have hclst' : clst.toNat - 2 < 4294967296 := by
      have := clst.toNat_lt
      omega
    have hmul : vol.fs.csize.toNat * (clst.toNat - 2) ≤ 65536 * 4294967296 :=
      Nat.mul_le_mul (Nat.le_of_lt hsize) (Nat.le_of_lt hclst')
    rw [UInt64.toNat_add, UInt64.toNat_mul, UInt16.toNat_toUInt64, UInt32.toNat_toUInt64,
      UInt32.toNat_sub_of_le _ _ hclst.1, UInt64.toNat_ofNat']
    show (vol.fs.csize.toNat * (clst.toNat - 2) % 18446744073709551616 + k % 18446744073709551616) %
      18446744073709551616 = _
    omega
  rw [hterm hb hj, hterm ha hi] at hnat
  -- the quotients by the cluster size agree
  have hquot := congrArg (· / vol.fs.csize.toNat) hnat
  rw [Nat.mul_add_div vol.fs.csize_pos, Nat.mul_add_div vol.fs.csize_pos, Nat.div_eq_of_lt hj,
    Nat.div_eq_of_lt hi] at hquot
  obtain ⟨hla, -⟩ := Fatfs.inRange_iff.mp ha
  obtain ⟨hlb, -⟩ := Fatfs.inRange_iff.mp hb
  exact hne (UInt32.toNat_inj.mp (by omega))

theorem WellFormed.nodup_sectors (h : WellFormed vol window obj) :
    ((clusters vol window obj).flatMap (clusterSectors vol)).Nodup := by
  rw [List.nodup_flatMap]
  constructor
  · intro clst _
    refine List.Nodup.map_on ?_ List.nodup_range
    intro i hi j hj heq
    rw [List.mem_range] at hi hj
    have hsize : vol.fs.csize.toNat < 65536 := vol.fs.csize.toNat_lt
    have hnat := congrArg UInt64.toNat ((UInt64.add_right_inj _).mp heq)
    rw [UInt64.toNat_ofNat', UInt64.toNat_ofNat'] at hnat
    omega
  · refine (Linked.nodup h).imp_of_mem ?_
    intro a b ha hb hne
    exact clusterSectors_disjoint (h.inRange ha) (h.inRange hb) hne

/-- A fragment list that has been filled by `get_frag_list`. -/
structure Listed (vol : Volume) (window : FatSectors) (obj : ObjId) (fragcount : UInt32)
    (fraglist : Nat → BdFragment) : Prop where
  answer : ∃ rdata, getFragList (some vol) window obj rdata = ((fragcount.toNat : Int), fraglist) ∧
    fragcount.toNat ≤ rdata.maxFragments

theorem Listed.fileSectors {fragcount : UInt32} {fraglist : Nat → BdFragment}
    (h : Listed vol window obj fragcount fraglist) (hsize : obj.objsize ≠ 0) (hshort : ShortRuns vol window obj) :
    WellFormed vol window obj ∧ FatFs.fileSectors (fragments fragcount fraglist) =
      (List.range (sectorLimit vol obj)).map (fileSector vol window obj) := by
  obtain ⟨rdata, hanswer, hfits⟩ := h.answer
  have hwell : WellFormed vol window obj := by
    by_contra hno
    have hrefused := getFragList_refused hsize hno rdata
    rw [hanswer] at hrefused
    have hneg : (fragcount.toNat : Int) = -eio := hrefused
    unfold eio at hneg
    omega
  refine ⟨hwell, ?_⟩
  have hlist := hwell.fragmented hsize hshort
  have hcount := hlist.count rdata
  rw [hanswer] at hcount
  have hlength : fragcount.toNat = ((runs (clusters vol window obj)).map (runFragment vol)).length :=
    Int.natCast_inj.mp hcount
  have hfragments : fragments fragcount fraglist = (runs (clusters vol window obj)).map (runFragment vol) := by
    apply List.ext_getElem
    · unfold fragments
      rw [List.length_map, List.length_range, hlength]
    · intro i hi hi'
      have hwritten := hlist.written rdata i
      rw [hanswer, dif_pos ⟨hi', by omega⟩] at hwritten
      simpa [fragments] using hwritten
  rw [hfragments, ← clusters_flatMap]
  exact hlist.sectors

end File

section Results

variable {vol : Volume} {window : FatSectors} {obj : ObjId} {σ α : Type} {bd : DeviceOps σ α}
  {contents : σ → UInt64 → α} {fragcount : UInt32} {fraglist : Nat → BdFragment}

/-- Reading a file through its fragment list reads the sectors of its clusters, and refuses
what lies behind them. -/
theorem bd_defrag_read_file (hsize : obj.objsize ≠ 0) (hshort : ShortRuns vol window obj)
    (hlist : Listed vol window obj fragcount fraglist) (hbd : HasSectors bd contents) (sector : UInt64)
    (buffer : Nat → α) (count : UInt16) (s : σ) :
    ∃ ret data dev, bdDefragRead bd fragcount fraglist sector buffer count s = some (ret, data, dev) ∧
      contents dev = contents s ∧ (ret = count.toNat ∨ ret = -1) ∧
      (∀ i, count.toNat ≤ i → data i = buffer i) ∧
      (ret = count.toNat → (count = 0 ∨ sector.toNat + count.toNat ≤ sectorLimit vol obj) ∧
        ∀ i < count.toNat, data i = contents s (fileSector vol window obj (sector.toNat + i))) ∧
      (Working bd → sector.toNat + count.toNat ≤ sectorLimit vol obj → ret = count.toNat) := by
  obtain ⟨-, hsectors⟩ := hlist.fileSectors hsize hshort
  have htotal : total (fragments fragcount fraglist) = sectorLimit vol obj := by
    rw [← fileSectors_length, hsectors, List.length_map, List.length_range]
  obtain ⟨ret, data, dev, hread, hkeeps, hret, hframe, hok, hworks⟩ :=
    bdDefragRead_eq hbd (rfl : fragments fragcount fraglist = _) sector buffer count s
  rw [hsectors, htotal] at hok
  rw [htotal] at hworks
  refine ⟨ret, data, dev, hread, hkeeps, hret, hframe, fun h => ?_, hworks⟩
  obtain ⟨hfits, hdata⟩ := hok h
  refine ⟨hfits, fun i hi => ?_⟩
  have hlimit : sector.toNat + i < sectorLimit vol obj := by
    rcases hfits with rfl | hfits
    · exact absurd hi (Nat.not_lt_zero i)
    · omega
  have hsome := hdata i hi
  rw [List.getElem?_map, List.getElem?_range hlimit] at hsome
  exact Option.some_inj.mp hsome

theorem splitVolume_nFatent_le : (100 : UInt32).toNat ≤ FsType.fat32.maxClusters + 2 := by decide

def splitVolume : Volume where
  fs := ⟨.fat32, 1, 512, 100, 32, 1024, Nat.one_pos, sectorSize_le, splitVolume_nFatent_le⟩
  bd := ⟨some "usb", 0, 1, 7, 512, 63, 10000⟩
  ssize_eq := rfl

/-- Cluster 3 follows cluster 2, and cluster 5 follows cluster 3. -/
def splitTable : FatSectors :=
  fun _ => some fun i => if i = 8 then 3 else if i = 12 then 5 else if 20 ≤ i ∧ i < 24 then 0xFF else 0

/-- A file of three clusters from cluster 2 on. -/
def splitFile : ObjId := ⟨0, 2, 1536, 0, 0⟩

/-- Its list of two fragments. -/
def splitFragments : Nat → BdFragment :=
  (getFragList (some splitVolume) splitTable splitFile ⟨16, false, 32, fun _ => ⟨0, 0⟩⟩).2

theorem listed_split : Listed splitVolume splitTable splitFile 2 splitFragments :=
  ⟨⟨16, false, 32, fun _ => ⟨0, 0⟩⟩, Prod.ext (by decide) rfl, by decide⟩

theorem shortRuns_split : ShortRuns splitVolume splitTable splitFile := by
  have hclusters : clusters splitVolume splitTable splitFile = [2, 3, 5] := by decide
  intro run hrun
  have hlength : run.length ≤ 3 := by
    have hsum := List.length_flatten (L := runs (clusters splitVolume splitTable splitFile))
    unfold runs at hsum
    rw [List.flatten_splitBy, hclusters] at hsum
    have hle := List.single_le_sum (fun _ _ => Nat.zero_le _) _ (List.mem_map_of_mem (f := List.length) hrun)
    exact hle.trans_eq hsum.symm
  show run.length * 1 < 4294967296
  omega

theorem bd_defrag_read_file_split :
    ∃ data dev, bdDefragRead arrayDevice 2 splitFragments 1 (fun _ => 0) 2 UInt64.toNat = some (2, data, dev) ∧
      data 0 = 1088 ∧ data 1 = 1090 := by
  obtain ⟨ret, data, dev, hread, -, -, -, hok, hworks⟩ := bd_defrag_read_file (by decide) shortRuns_split listed_split
    arrayDevice_holds 1 (fun _ => 0) 2 UInt64.toNat
  have hret : ret = 2 := hworks arrayDevice_working (by decide)
  subst hret
  have hdata := (hok rfl).2
  exact ⟨data, dev, hread, (hdata 0 (by decide)).trans (by decide), (hdata 1 (by decide)).trans (by decide)⟩

/-- The list of a file has no sector twice. -/
theorem Listed.nodup (h : Listed vol window obj fragcount fraglist) (hsize : obj.objsize ≠ 0)
    (hshort : ShortRuns vol window obj) : (FatFs.fileSectors (fragments fragcount fraglist)).Nodup := by
  obtain ⟨hwell, hsectors⟩ := h.fileSectors hsize hshort
  rw [hsectors, ← clusters_flatMap]
  exact hwell.nodup_sectors

/-- What was written to a range of a list is read back, in whatever ranges it is read, and
what lies outside of it is as it was, in the list and elsewhere. -/
theorem bd_defrag_write_read (hnodup : (fileSectors (fragments fragcount fraglist)).Nodup)
    (hbd : HasSectors bd contents) {sector : UInt64} {buffer : Nat → α} {count : UInt16} {s s' : σ}
    (hwrite : bdDefragWrite bd fragcount fraglist sector buffer count s = some ((count.toNat : Int), s')) :
    (∀ a ∉ fileSectors (fragments fragcount fraglist), contents s' a = contents s a) ∧
      ∀ sector' buffer' count' data dev,
        bdDefragRead bd fragcount fraglist sector' buffer' count' s' = some ((count'.toNat : Int), data, dev) →
          ∀ i < count'.toNat, some (data i) =
            if sector.toNat ≤ sector'.toNat + i ∧ sector'.toNat + i < sector.toNat + count.toNat then
              some (buffer (sector'.toNat + i - sector.toNat))
            else (fileSectors (fragments fragcount fraglist))[sector'.toNat + i]?.map (contents s) := by
  generalize hfrags : fragments fragcount fraglist = frags at hnodup ⊢
  obtain ⟨ret, dev, hwritten, -, hframe, hok, -⟩ := bdDefragWrite_eq hbd hfrags hnodup sector buffer count s
  rw [hwrite] at hwritten
  obtain ⟨rfl, rfl⟩ := Prod.mk.inj (Option.some_inj.mp hwritten)
  obtain ⟨-, hdata⟩ := hok rfl
  refine ⟨fun a ha => hframe a fun i hi heq => ha (List.mem_of_getElem? heq),
    fun sector' buffer' count' data dev hread i hi => ?_⟩
  obtain ⟨ret, data', dev', hread', -, -, -, hok', -⟩ := bdDefragRead_eq hbd hfrags sector' buffer' count' s'
  rw [hread] at hread'
  obtain ⟨rfl, hrest⟩ := Prod.mk.inj (Option.some_inj.mp hread')
  obtain ⟨rfl, rfl⟩ := Prod.mk.inj hrest
  rw [(hok' rfl).2 i hi]
  split
  · rename_i hrange
    have hsame := hdata (sector'.toNat + i - sector.toNat) (by omega)
    rwa [Nat.add_sub_cancel' hrange.1] at hsame
  · rename_i hrange
    cases hat : (fileSectors frags)[sector'.toNat + i]? with
    | none => rfl
    | some a =>
        -- another sector of the list is not written
        refine congrArg some (hframe a fun k hk heq => hrange ?_)
        obtain ⟨hlength, -⟩ := List.getElem?_eq_some_iff.mp heq
        have hsame := (List.getElem?_inj hlength hnodup).mp (heq.trans hat.symm)
        omega

theorem bd_defrag_write_read_split :
    ∃ dev data dev', bdDefragWrite arrayDevice 2 splitFragments 1 (fun i => i) 2 UInt64.toNat = some (2, dev) ∧
      bdDefragRead arrayDevice 2 splitFragments 0 (fun _ => 0) 3 dev = some (3, data, dev') ∧
      data 0 = 1087 ∧ data 1 = 0 ∧ data 2 = 1 := by
  have hnodup := listed_split.nodup (by decide) shortRuns_split
  obtain ⟨ret, dev, hwrite, -, -, -, hworks⟩ := bdDefragWrite_eq arrayDevice_holds
    (rfl : fragments 2 splitFragments = _) hnodup 1 (fun i => i) 2 UInt64.toNat
  have hret : ret = 2 := hworks arrayDevice_working (by decide)
  subst hret
  obtain ⟨ret, data, dev', hread, -, -, -, -, hworks'⟩ := bdDefragRead_eq arrayDevice_holds
    (rfl : fragments 2 splitFragments = _) 0 (fun _ => 0) 3 dev
  have hret' : ret = 3 := hworks' arrayDevice_working (by decide)
  subst hret'
  have hdata := (bd_defrag_write_read hnodup arrayDevice_holds hwrite).2 0 _ 3 _ _ hread
  have hfirst : some (data 0) = some 1087 := (hdata 0 (by decide)).trans (by decide)
  have hsecond : some (data 1) = some 0 := (hdata 1 (by decide)).trans (by decide)
  have hthird : some (data 2) = some 1 := (hdata 2 (by decide)).trans (by decide)
  exact ⟨dev, data, dev', hwrite, hread, Option.some_inj.mp hfirst, Option.some_inj.mp hsecond,
    Option.some_inj.mp hthird⟩

end Results

end BdmAssault.FatFs
