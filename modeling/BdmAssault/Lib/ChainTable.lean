import Mathlib.Data.Finset.Card
import Mathlib.Data.List.Basic
import Mathlib.Data.List.Nodup
import Mathlib.Logic.Function.Basic

/-! # Chains in a table

A table in which every used cell names the next one or is the last of its chain. The owners
of chains share no cell: chains are stretched by a free cell, cut and given back one cell
after the other.
-/

namespace BdmAssault.Lib

inductive Cell (α : Type*) where
  | free
  | last
  | link (a : α)
  | other
  deriving DecidableEq

abbrev ChainTable (α : Type*) := α → Cell α

namespace ChainTable

variable {α ι : Type*} {T : ChainTable α} {l r : List α} {a b : α}

/-- The cells from the first one to the one that is the last. -/
def Chain (T : ChainTable α) : List α → Prop
  | [] => False
  | [a] => T a = .last
  | a :: b :: l => T a = .link b ∧ Chain T (b :: l)

theorem Chain.tail (h : Chain T (l ++ a :: r)) : Chain T (a :: r) := by
  induction l with
  | nil => exact h
  | cons x l ih =>
      cases l with
      | nil => exact h.2
      | cons y l => exact ih h.2

theorem Chain.drop (h : Chain T l) {k : Nat} (hk : k < l.length) : Chain T (l[k] :: l.drop (k + 1)) := by
  refine Chain.tail (l := l.take k) ?_
  rwa [← List.drop_eq_getElem_cons hk, List.take_append_drop]

/-- What is behind a cell that is not the last. -/
theorem Chain.link_getElem (h : Chain T l) {k : Nat} (hk : k + 1 < l.length) : T l[k] = .link l[k + 1] := by
  have hdrop := h.drop (k := k) (by omega)
  rw [List.drop_eq_getElem_cons hk] at hdrop
  exact hdrop.1

theorem Chain.last_getElem (h : Chain T l) {k : Nat} (hk : k < l.length) (hend : l.length = k + 1) : T l[k] = .last := by
  have hdrop := h.drop hk
  rwa [List.drop_eq_nil_of_le (by omega)] at hdrop

/-- A chain is determined by its first cell. -/
theorem Chain.unique (h : Chain T (a :: l)) (h' : Chain T (a :: r)) : l = r := by
  induction l generalizing a r with
  | nil =>
      cases r with
      | nil => rfl
      | cons b r =>
          have hlast : T a = .last := h
          rw [h'.1] at hlast
          cases hlast
  | cons b l ih =>
      cases r with
      | nil =>
          have hlast : T a = .last := h'
          rw [h.1] at hlast
          cases hlast
      | cons c r =>
          have heq : b = c := by
            have hlink := h.1.symm.trans h'.1
            cases hlink
            rfl
          subst heq
          rw [ih h.2 h'.2]

/-- A chain that ends is nowhere twice. -/
theorem Chain.nodup (h : Chain T l) : l.Nodup := by
  induction l with
  | nil => exact List.nodup_nil
  | cons a l ih =>
      have hl : l.Nodup := by
        cases l with
        | nil => exact List.nodup_nil
        | cons b l => exact ih h.2
      refine List.nodup_cons.mpr ⟨fun hmem => ?_, hl⟩
      -- from the second place on the chain would be longer than itself
      obtain ⟨front, back, rfl⟩ := List.append_of_mem hmem
      have hback : Chain T (a :: back) := Chain.tail (l := a :: front) h
      have hlen := congrArg List.length (h.unique hback)
      rw [List.length_append, List.length_cons] at hlen
      omega

theorem Chain.used (h : Chain T l) (ha : a ∈ l) : T a ≠ .free := by
  obtain ⟨front, back, rfl⟩ := List.append_of_mem ha
  have htail := h.tail
  intro hfree
  cases back with
  | nil =>
      have hlast : T a = .last := htail
      rw [hfree] at hlast
      cases hlast
  | cons b back =>
      have hlink := htail.1
      rw [hfree] at hlink
      cases hlink

theorem Chain.last_of_append (h : Chain T (l ++ [a])) : T a = .last := Chain.tail h

/-- The cell that is the last one stands at the end. -/
theorem Chain.eq_append (h : Chain T l) (ha : a ∈ l) (hlast : T a = .last) : ∃ front, l = front ++ [a] := by
  obtain ⟨front, back, rfl⟩ := List.append_of_mem ha
  cases back with
  | nil => exact ⟨front, rfl⟩
  | cons b back =>
      have hlink := h.tail.1
      rw [hlast] at hlink
      cases hlink

theorem Chain.congr {T' : ChainTable α} (h : Chain T l) (hT : ∀ a ∈ l, T' a = T a) : Chain T' l := by
  induction l with
  | nil => exact h
  | cons x l ih =>
      have hx := hT x List.mem_cons_self
      cases l with
      | nil => exact hx.trans h
      | cons y l => exact ⟨hx.trans h.1, ih h.2 fun z hz => hT z (List.mem_cons_of_mem x hz)⟩

/-- The front of a chain, with a new end. -/
theorem Chain.replace (h : Chain T (l ++ a :: r)) (ha : a ∉ l) {T' : ChainTable α}
    (hT : ∀ x ∈ l, T' x = T x) {r' : List α} (hr : Chain T' (a :: r')) : Chain T' (l ++ a :: r') := by
  induction l with
  | nil => exact hr
  | cons x l ih =>
      have hx := hT x List.mem_cons_self
      have hl := ih
      cases l with
      | nil => exact ⟨hx.trans h.1, hr⟩
      | cons y l =>
          exact ⟨hx.trans h.1, ih h.2 (fun hmem => ha (List.mem_cons_of_mem x hmem))
            fun z hz => hT z (List.mem_cons_of_mem x hz)⟩

section Update

variable [DecidableEq α] {c : Cell α}

theorem Chain.update (h : Chain T l) (ha : a ∉ l) (c : Cell α) : Chain (Function.update T a c) l := by
  induction l with
  | nil => exact h
  | cons x l ih =>
      obtain ⟨hx, hl⟩ := not_or.mp (List.mem_cons.not.mp ha)
      cases l with
      | nil =>
          show Function.update T a c x = .last
          rw [Function.update_of_ne (Ne.symm hx)]
          exact h
      | cons y l =>
          refine ⟨?_, ih h.2 hl⟩
          rw [Function.update_of_ne (Ne.symm hx)]
          exact h.1

/-- A free cell behind the last one. -/
theorem Chain.stretch (h : Chain T (l ++ [a])) (hb : T b = .free) :
    Chain (Function.update (Function.update T b .last) a (.link b)) (l ++ [a, b]) := by
  have hnodup := h.nodup
  have ha : a ∉ l := fun hmem =>
    List.disjoint_of_nodup_append hnodup hmem (List.mem_singleton_self a)
  have hne : b ≠ a := by
    rintro rfl
    exact h.used (List.mem_append_right l (List.mem_singleton_self b)) hb
  refine h.replace ha (fun x hx => ?_) ⟨Function.update_self _ _ _, ?_⟩
  · have hxa : x ≠ a := fun heq => ha (heq ▸ hx)
    have hxb : x ≠ b := fun heq => h.used (List.mem_append_left [a] hx) (heq ▸ hb)
    rw [Function.update_of_ne hxa, Function.update_of_ne hxb]
  · have hb : Function.update (Function.update T b .last) a (.link b) b = .last := by
      rw [Function.update_of_ne hne, Function.update_self]
    exact hb

/-- The chain ends early. -/
theorem Chain.cut (h : Chain T (l ++ a :: r)) : Chain (Function.update T a .last) (l ++ [a]) := by
  have ha : a ∉ l := fun hmem =>
    List.disjoint_of_nodup_append h.nodup hmem List.mem_cons_self
  refine h.replace ha (fun x hx => ?_) (Function.update_self _ _ _)
  refine Function.update_of_ne ?_ _ _
  rintro rfl
  exact ha hx

end Update

/-! ## Owners -/

/-- Every owner that has cells has a chain, and no cell has two owners. -/
structure Owned (T : ChainTable α) (files : ι → List α) : Prop where
  chain : ∀ i, files i ≠ [] → Chain T (files i)
  apart : ∀ i j a, a ∈ files i → a ∈ files j → i = j

section Owners

variable {files : ι → List α} {i : ι}

theorem Owned.used (h : Owned T files) (ha : a ∈ files i) : T a ≠ .free :=
  (h.chain i (List.ne_nil_of_mem ha)).used ha

theorem Owned.not_mem (h : Owned T files) (ha : T a = .free) (i : ι) : a ∉ files i := fun hmem => h.used hmem ha

theorem Owned.congr {T' : ChainTable α} (h : Owned T files) (hT : ∀ i, ∀ a ∈ files i, T' a = T a) : Owned T' files :=
  ⟨fun i hi => (h.chain i hi).congr (hT i), h.apart⟩

/-- A cell that nobody has. -/
theorem Owned.update [DecidableEq α] (h : Owned T files) (ha : ∀ i, a ∉ files i) (c : Cell α) :
    Owned (Function.update T a c) files :=
  ⟨fun i hi => (h.chain i hi).update (ha i) c, h.apart⟩

variable [DecidableEq ι]

/-- The owner `i` has other cells, none of them anybody else's. -/
theorem Owned.replace (h : Owned T files) {T' : ChainTable α} (hT : ∀ j ≠ i, ∀ a ∈ files j, T' a = T a)
    (hl : l ≠ [] → Chain T' l) (hapart : ∀ j ≠ i, ∀ a ∈ l, a ∉ files j) :
    Owned T' (Function.update files i l) := by
  constructor
  · intro j hj
    by_cases hji : j = i
    · subst hji
      rw [Function.update_self] at hj ⊢
      exact hl hj
    · rw [Function.update_of_ne hji] at hj ⊢
      exact (h.chain j hj).congr (hT j hji)
  · intro j k a hj hk
    by_cases hji : j = i
    · by_cases hki : k = i
      · rw [hji, hki]
      · rw [hji, Function.update_self] at hj
        rw [Function.update_of_ne hki] at hk
        exact absurd hk (hapart k hki a hj)
    · by_cases hki : k = i
      · rw [hki, Function.update_self] at hk
        rw [Function.update_of_ne hji] at hj
        exact absurd hj (hapart j hji a hk)
      · rw [Function.update_of_ne hji] at hj
        rw [Function.update_of_ne hki] at hk
        exact h.apart j k a hj hk

theorem Owned.drop (h : Owned T files) (i : ι) : Owned T (Function.update files i []) :=
  h.replace (fun _ _ _ _ => rfl) (fun hne => absurd rfl hne) fun _ _ _ ha => absurd ha List.not_mem_nil

variable [DecidableEq α]

theorem Owned.stretch (h : Owned T files) (hi : files i = l ++ [a]) (hb : T b = .free) :
    Owned (Function.update (Function.update T b .last) a (.link b)) (Function.update files i (l ++ [a, b])) := by
  have hai : a ∈ files i := by
    rw [hi]
    exact List.mem_append_right l (List.mem_singleton_self a)
  have hchain := h.chain i (List.ne_nil_of_mem hai)
  rw [hi] at hchain
  refine h.replace (fun j hj x hx => ?_) (fun _ => hchain.stretch hb) fun j hj x hx hxj => ?_
  · have hxa : x ≠ a := by
      rintro rfl
      exact hj (h.apart j i x hx hai)
    have hxb : x ≠ b := by
      rintro rfl
      exact h.not_mem hb j hx
    rw [Function.update_of_ne hxa, Function.update_of_ne hxb]
  · have hmem : x ∈ l ++ [a] ∨ x = b := by
      rw [show l ++ [a, b] = l ++ [a] ++ [b] by rw [List.append_assoc]; rfl] at hx
      exact (List.mem_append.mp hx).imp_right List.mem_singleton.mp
    rcases hmem with hmem | rfl
    · exact hj (h.apart j i x hxj (by rw [hi]; exact hmem))
    · exact h.not_mem hb j hxj

/-- A new chain of one cell. -/
theorem Owned.create (h : Owned T files) (hb : T b = .free) :
    Owned (Function.update T b .last) (Function.update files i [b]) := by
  refine h.replace (fun j _ x hx => ?_) (fun _ => Function.update_self _ _ _) fun j _ x hx hxj => ?_
  · refine Function.update_of_ne ?_ _ _
    rintro rfl
    exact h.not_mem hb j hx
  · rw [List.mem_singleton] at hx
    exact h.not_mem hb j (hx ▸ hxj)

theorem Owned.cut (h : Owned T files) (hi : files i = l ++ a :: r) :
    Owned (Function.update T a .last) (Function.update files i (l ++ [a])) := by
  have hai : a ∈ files i := by
    rw [hi]
    exact List.mem_append_right l List.mem_cons_self
  have hchain := h.chain i (List.ne_nil_of_mem hai)
  rw [hi] at hchain
  refine h.replace (fun j hj x hx => ?_) (fun _ => hchain.cut) fun j hj x hx hxj => ?_
  · refine Function.update_of_ne ?_ _ _
    rintro rfl
    exact hj (h.apart j i x hx hai)
  · refine hj (h.apart j i x hxj ?_)
    rw [hi]
    rcases List.mem_append.mp hx with hmem | hmem
    · exact List.mem_append_left _ hmem
    · rw [List.mem_singleton.mp hmem]
      exact List.mem_append_right l List.mem_cons_self

end Owners

/-! ## Counting -/

section Count

variable [DecidableEq α] {s : Finset α} {c : Cell α}

/-- The free cells among those of `s`. -/
def freeCount (T : ChainTable α) (s : Finset α) : Nat := (s.filter fun a => T a = .free).card

theorem freeCount_le (T : ChainTable α) (s : Finset α) : freeCount T s ≤ s.card := Finset.card_filter_le _ _

theorem freeCount_pos (ha : a ∈ s) (hfree : T a = .free) : 0 < freeCount T s :=
  Finset.card_pos.mpr ⟨a, Finset.mem_filter.mpr ⟨ha, hfree⟩⟩

/-- A cell that stays what it was. -/
theorem freeCount_update (ha : T a ≠ .free) (hc : c ≠ .free) : freeCount (Function.update T a c) s = freeCount T s := by
  unfold freeCount
  refine congrArg Finset.card (Finset.filter_congr fun x _ => ?_)
  by_cases hx : x = a
  · subst hx
    rw [Function.update_self]
    exact iff_of_false hc ha
  · rw [Function.update_of_ne hx]

theorem freeCount_give (ha : a ∈ s) (hused : T a ≠ .free) :
    freeCount (Function.update T a .free) s = freeCount T s + 1 := by
  unfold freeCount
  have hnot : a ∉ s.filter fun x => T x = .free := fun hmem => hused (Finset.mem_filter.mp hmem).2
  rw [← Finset.card_insert_of_notMem hnot]
  refine congrArg Finset.card (Finset.ext fun x => ?_)
  rw [Finset.mem_insert, Finset.mem_filter, Finset.mem_filter]
  by_cases hx : x = a
  · subst hx
    rw [Function.update_self]
    exact iff_of_true ⟨ha, rfl⟩ (.inl rfl)
  · rw [Function.update_of_ne hx]
    exact ⟨.inr, fun h => h.resolve_left hx⟩

theorem freeCount_take (ha : a ∈ s) (hfree : T a = .free) (hc : c ≠ .free) :
    freeCount (Function.update T a c) s + 1 = freeCount T s := by
  have hgive := freeCount_give (T := Function.update T a c) ha (by rwa [Function.update_self])
  rw [Function.update_idem, ← hfree, Function.update_eq_self] at hgive
  exact hgive.symm

end Count

end ChainTable

end BdmAssault.Lib
