import Mathlib.Data.List.FinRange
import BdmAssault.Cache.Transparency

/-! # The weights of the cache blocks

What aging and hits do to the weights over long runs. Aging keeps them above -2048 and never
overflows; a hit adds to the weight of its block without a limit.
-/

namespace BdmAssault.Cache

open Lib

variable {α : Type*}

/-! ## One step -/

/-- Aging, as it is meant: 64 less, and a part of the weight. -/
def aged (w : Int) : Int := w - (64 + w.tdiv 32)

/-- A hit of `count` sectors. -/
def raised (w : Int) (count : Nat) : Int := max w 0 + count * 256

theorem tdiv_bounds (w : Int) : (0 ≤ w ∧ w.tdiv 32 = w / 32) ∨ (w ≤ 0 ∧ w.tdiv 32 = -(-w / 32)) := by
  rcases Int.le_total 0 w with h | h
  · exact .inl ⟨h, Int.tdiv_eq_ediv_of_nonneg h⟩
  · refine .inr ⟨h, ?_⟩
    rw [← Int.tdiv_eq_ediv_of_nonneg (Int.neg_nonneg.mpr h), Int.neg_tdiv, Int.neg_neg]

/-- Below -2048 aging would raise a weight, and above it lowers it. -/
theorem aged_bounds {w : Int} (h : -2048 ≤ w) : -2048 ≤ aged w ∧ aged w ≤ w := by
  unfold aged
  rcases tdiv_bounds w with ⟨_, hdiv⟩ | ⟨_, hdiv⟩
  · omega
  · omega

theorem toInt_bmod_eq {n : Int} (hlow : -2147483648 ≤ n) (hhigh : n ≤ 2147483647) : n.bmod (2 ^ 32) = n :=
  Int.bmod_eq_of_le (by omega) (by omega)

/-- The subtraction of aging never overflows. -/
theorem toInt_aged (w : Int32) : (w - (8 * 256 / 32 + w / 32)).toInt = aged w.toInt := by
  have hlow := w.le_toInt
  have hhigh := w.toInt_lt
  have hdiv : (w / 32).toInt = w.toInt.tdiv 32 := Int32.toInt_div_of_ne_right w 32 (by decide)
  have hconst : (8 * 256 / 32 : Int32).toInt = 64 := by decide
  have hrange : -67108864 ≤ w.toInt.tdiv 32 ∧ w.toInt.tdiv 32 ≤ 67108863 ∧
      -2147483648 ≤ w.toInt - (64 + w.toInt.tdiv 32) ∧ w.toInt - (64 + w.toInt.tdiv 32) ≤ 2147483647 := by
    rcases tdiv_bounds w.toInt with ⟨_, heq⟩ | ⟨_, heq⟩
    · omega
    · omega
  obtain ⟨hleast, hmost, hlow', hhigh'⟩ := hrange
  have hsum : (64 + w.toInt.tdiv 32).bmod (2 ^ 32) = 64 + w.toInt.tdiv 32 := toInt_bmod_eq (by omega) (by omega)
  rw [Int32.toInt_sub, Int32.toInt_add, hdiv, hconst, hsum]
  exact toInt_bmod_eq hlow' hhigh'

theorem toInt_count (count : UInt16) : (count.toUInt32.toInt32 * 256).toInt = count.toNat * 256 := by
  have hsize : count.toNat < 65536 := count.toNat_lt_size
  have hword : count.toUInt32.toBitVec.toNat = count.toNat := UInt16.toNat_toUInt32 count
  have hcount : count.toUInt32.toInt32.toInt = count.toNat := by
    show count.toUInt32.toBitVec.toInt = count.toNat
    rw [BitVec.toInt_eq_toNat_of_lt (by omega), hword]
  have hconst : (256 : Int32).toInt = 256 := by decide
  rw [Int32.toInt_mul, hcount, hconst]
  exact toInt_bmod_eq (by omega) (by omega)

/-- The addition of a hit overflows exactly when there is no room for it. -/
theorem toInt_raised (w : Int32) (count : UInt16) :
    ((if w < 0 then 0 else w) + count.toUInt32.toInt32 * 256).toInt = raised w.toInt count.toNat ↔
      raised w.toInt count.toNat ≤ 2147483647 := by
  have hhigh := w.toInt_lt
  have hsize : count.toNat < 65536 := count.toNat_lt_size
  have hmax : (if w < 0 then 0 else w : Int32).toInt = max w.toInt 0 := by
    have hzero : (0 : Int32).toInt = 0 := by decide
    split
    · rename_i hneg
      rw [Int32.lt_iff_toInt_lt, hzero] at hneg
      omega
    · rename_i hpos
      rw [Int32.lt_iff_toInt_lt, hzero] at hpos
      omega
  rw [Int32.toInt_add, hmax, toInt_count]
  constructor
  · intro heq
    have hrange := Int.bmod_lt (x := max w.toInt 0 + count.toNat * 256) (m := 2 ^ 32) (by decide)
    unfold raised at heq ⊢
    omega
  · exact fun hroom => toInt_bmod_eq (by omega) hroom

theorem ageBlock_weight (a : Aging) (b b' : Fin 32) : (ageBlock a b).weight b' =
    if b' = b then a.weight b - (8 * 256 / 32 + a.weight b / 32) else a.weight b' := by
  unfold ageBlock
  dsimp only
  split
  · exact Function.update_apply _ _ _ _
  · exact Function.update_apply _ _ _ _

theorem foldl_ageBlock_weight {l : List (Fin 32)} (hl : l.Nodup) (a : Aging) (b : Fin 32) :
    (l.foldl ageBlock a).weight b =
      if b ∈ l then a.weight b - (8 * 256 / 32 + a.weight b / 32) else a.weight b := by
  induction l generalizing a with
  | nil => exact (if_neg List.not_mem_nil).symm
  | cons b' l ih =>
      obtain ⟨hnot, hl⟩ := List.nodup_cons.mp hl
      rw [List.foldl_cons, ih hl, ageBlock_weight]
      by_cases hb : b = b'
      · subst hb
        rw [if_neg hnot, if_pos rfl, if_pos List.mem_cons_self]
      · rw [if_neg hb]
        simp only [List.mem_cons, hb, false_or]

/-- Every block is aged once. -/
theorem age_weight (weight : Fin 32 → Int32) (b : Fin 32) : ((age weight).weight b).toInt = aged (weight b).toInt := by
  unfold age
  rw [foldl_ageBlock_weight (List.nodup_finRange 32), if_pos (List.mem_finRange b), toInt_aged]

/-! ## Runs -/

def afterCall (bd : BlockDevice) (c : BdCache α) : Call α → BdCache α
  | .read dev sector buffer count => (read bd c dev sector buffer count).cache
  | .write dev sector buffer count => (write c dev sector buffer count).cache

/-- All sequences of calls, whatever the device answers. -/
def cachedCalls (α : Type*) (bd : BlockDevice) : System (BdCache α) (Call α) where
  init c := ∃ junk, bdCacheCreate (some bd) true true junk = some (bd, c)
  step c call c' := c' = afterCall bd c call

/-- A hit finds room for what it adds to the weight. -/
def Unsaturated (bd : BlockDevice) (c : BdCache α) : Call α → Prop
  | .read _ sector _ count => ∀ b, route bd c sector count = .hit b → raised (c.weight b).toInt count.toNat ≤ 2147483647
  | .write _ _ _ _ => True

section Runs

variable {bd : BlockDevice} {c : BdCache α} {call : Call α} {dev : DeviceRead α} {sector : UInt64} {buffer : Nat → α}
  {count : UInt16} {b b' : Fin 32}

theorem readHit_weight : (readHit c b sector buffer count).cache.weight b' =
    if b' = b then (if c.weight b < 0 then 0 else c.weight b) + count.toUInt32.toInt32 * 256 else c.weight b' :=
  Function.update_apply _ _ _ _

/-- The victim may start over with the weight of what was read. -/
theorem readMiss_weight : ((readMiss bd c dev sector buffer count).cache.weight b).toInt = aged (c.weight b).toInt ∨
    ((readMiss bd c dev sector buffer count).cache.weight b).toInt = count.toNat * 256 := by
  have haged := age_weight c.weight b
  unfold readMiss
  generalize age c.weight = a at haged ⊢
  dsimp only
  split
  · exact .inl haged
  · show (Function.update a.weight a.best _ b).toInt = _ ∨ (Function.update a.weight a.best _ b).toInt = _
    rw [Function.update_apply]
    split
    · exact .inr (toInt_count count)
    · exact .inl haged

/-- What a call leaves of a weight. -/
theorem afterCall_weight (h : Unsaturated bd c call) (b : Fin 32) :
    let w := (c.weight b).toInt
    let w' := ((afterCall bd c call).weight b).toInt
    w' = w ∨ w' = aged w ∨ ∃ count : UInt16, w' = raised w count.toNat ∨ w' = count.toNat * 256 := by
  cases call with
  | write dev sector buffer count => exact .inl rfl
  | read dev sector buffer count =>
      unfold afterCall read
      dsimp only
      split
      · exact .inl rfl
      · exact .inl rfl
      · exact .inl rfl
      · rename_i hit hroute
        rw [readHit_weight]
        split
        · rename_i hb
          subst hb
          exact .inr (.inr ⟨count, .inl ((toInt_raised _ _).mpr (h b hroute))⟩)
        · exact .inl rfl
      · exact .inr (readMiss_weight.imp_right fun hw => ⟨count, .inr hw⟩)

theorem weights_bounded (h : (cachedCalls α bd).Reachable (Unsaturated bd) c) (b : Fin 32) :
    -2048 ≤ (c.weight b).toInt := by
  have hinv : (cachedCalls α bd).Invariant (Unsaturated bd) fun c => ∀ b, -2048 ≤ (c.weight b).toInt := by
    refine ⟨fun c hinit b => ?_, fun c call c' _ hc hok hstep b => ?_⟩
    · obtain ⟨junk, hcreate⟩ := hinit
      obtain rfl := (Prod.mk.inj (Option.some.inj hcreate)).2
      exact (by decide : -2048 ≤ (0 : Int32).toInt)
    · subst hstep
      have hb := hc b
      rcases afterCall_weight hok b with hw | hw | ⟨count, hw | hw⟩
      · exact hw ▸ hb
      · exact hw ▸ (aged_bounds hb).1
      · have hraised : 0 ≤ raised (c.weight b).toInt count.toNat := by
          unfold raised
          omega
        omega
      · omega
  exact hinv.holds h b

end Runs

/-- In runs whose hits find room no weight falls below -2048. In every state aging is exact, and
a hit is exactly when it finds room. -/
theorem weights_in_range (bd : BlockDevice) (c : BdCache α) (h : (cachedCalls α bd).Reachable (Unsaturated bd) c) :
    (∀ b, -2048 ≤ (c.weight b).toInt) ∧
    (∀ b, ((age c.weight).weight b).toInt = aged (c.weight b).toInt) ∧
    ∀ b sector (buffer : Nat → α) count, ((readHit c b sector buffer count).cache.weight b).toInt =
      raised (c.weight b).toInt count.toNat ↔ raised (c.weight b).toInt count.toNat ≤ 2147483647 := by
  refine ⟨weights_bounded h, age_weight c.weight, fun b sector buffer count => ?_⟩
  rw [readHit_weight, if_pos rfl]
  exact toInt_raised _ _

section Examples

/-- The first block holds sector 0 on. -/
structure Hot (c : BdCache Nat) (hits : Nat) : Prop where
  sector : c.sector 0 = 0
  weight : (c.weight 0).toInt = hits * 1792

def readFirst : Call Nat := .read (honestRead fun _ => 0) 0 (fun _ => 0) 7

def filled : BdCache Nat := afterCall smallDevice (freshState fun _ => 0).cache readFirst

theorem filled_hot : Hot filled 1 := ⟨by decide +kernel, by decide +kernel⟩

theorem filled_reachable {ok : BdCache Nat → Call Nat → Prop} (hok : ok (freshState fun _ => 0).cache readFirst) :
    (cachedCalls Nat smallDevice).Reachable ok filled := by
  have hcreated : (cachedCalls Nat smallDevice).Reachable ok (freshState fun _ => 0).cache := .init ⟨fun _ _ => 0, rfl⟩
  exact hcreated.next hok rfl

theorem route_hot {hits : Nat} {c : BdCache Nat} (h : Hot c hits) : route smallDevice c 0 7 = .hit 0 := by
  have hfind : (List.finRange 32).find? (fun b => contains (c.sector b) 0 7) = some 0 := by
    rw [List.finRange_succ]
    exact List.find?_cons_of_pos (by rw [h.sector]; decide)
  unfold route
  rw [if_neg (by decide), if_neg (by decide), if_neg (by decide), hfind]

theorem afterCall_hot {hits : Nat} {c : BdCache Nat} (h : Hot c hits) :
    afterCall smallDevice c readFirst = (readHit c 0 0 (fun _ => 0) 7).cache := by
  unfold afterCall readFirst read
  dsimp only
  rw [route_hot h]

/-- As many hits as the weight has room for. -/
theorem hot_reachable (n : Nat) (hn : n < 1198372) :
    ∃ c, (cachedCalls Nat smallDevice).Reachable (fun _ _ => True) c ∧ Hot c (n + 1) := by
  induction n with
  | zero => exact ⟨filled, filled_reachable trivial, filled_hot⟩
  | succ n ih =>
      obtain ⟨c, hreach, hhot⟩ := ih (by omega)
      refine ⟨_, hreach.next (a := readFirst) trivial rfl, ?_⟩
      rw [afterCall_hot hhot]
      refine ⟨hhot.sector, ?_⟩
      have hweight := hhot.weight
      have hseven : (7 : UInt16).toNat = 7 := by decide
      have hraised : raised (c.weight 0).toInt (7 : UInt16).toNat = (n + 1 + 1 : Nat) * 1792 := by
        unfold raised
        rw [hseven]
        omega
      rw [readHit_weight, if_pos rfl, (toInt_raised _ _).mpr (by omega), hraised]

/-- The block is read and then hit, and the weight has room for the hit. -/
theorem weights_in_range_filled : -2048 ≤ ((afterCall smallDevice filled readFirst).weight 0).toInt ∧
    ((afterCall smallDevice filled readFirst).weight 0).toInt = 2 * 1792 := by
  have hfilled : (cachedCalls Nat smallDevice).Reachable (Unsaturated smallDevice) filled := by
    refine filled_reachable fun b hhit => ?_
    have hmiss : route smallDevice (freshState fun _ => 0 : State Nat).cache 0 7 = .miss := by decide +kernel
    exact absurd (hmiss.symm.trans hhit) nofun
  have hroom : Unsaturated smallDevice filled readFirst := by
    intro b hhit
    obtain rfl : 0 = b := Route.hit.inj ((route_hot filled_hot).symm.trans hhit)
    rw [filled_hot.weight]
    decide
  refine ⟨(weights_in_range smallDevice _ (hfilled.next (a := readFirst) hroom rfl)).1 0, ?_⟩
  have hseven : (7 : UInt16).toNat = 7 := by decide
  have hraised : raised (filled.weight 0).toInt (7 : UInt16).toNat = 2 * 1792 := by
    unfold raised
    rw [hseven, filled_hot.weight]
    decide
  rw [afterCall_hot filled_hot, readHit_weight, if_pos rfl, (toInt_raised _ _).mpr (by omega), hraised]

/-- The hit after 1198371 in a row makes the highest weight the lowest one. -/
theorem hit_overflows : ¬∀ c, (cachedCalls Nat smallDevice).Reachable (fun _ _ => True) c →
    ∀ b, -2048 ≤ (c.weight b).toInt := by
  intro hall
  obtain ⟨c, hreach, hhot⟩ := hot_reachable 1198371 (by decide)
  have hweight : c.weight 0 = 2147482624 := Int32.toInt_inj.mp (hhot.weight.trans (by decide))
  have hlow := hall _ (hreach.next (a := readFirst) trivial rfl) 0
  rw [afterCall_hot hhot, readHit_weight, if_pos rfl, hweight] at hlow
  exact absurd hlow (by decide)

end Examples

end BdmAssault.Cache
