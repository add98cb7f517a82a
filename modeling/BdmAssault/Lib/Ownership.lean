import Mathlib.Logic.ExistsUnique

/-! # Items and the places that hold them

A relation says which places hold an item. The items are partitioned when each of them is
held in exactly one place, and moving items from where they are to one place keeps that.
-/

namespace BdmAssault.Lib

variable {ι π : Type*}

/-- Only items are held, and each of them in one place. -/
structure Partitioned (item : ι → Prop) (holds : ι → π → Prop) : Prop where
  within : ∀ x p, holds x p → item x
  somewhere : ∀ x, item x → ∃ p, holds x p
  once : ∀ x p q, holds x p → holds x q → p = q

/-- The items in `moved` are now at `dest`; the others are where they were. -/
def Moves (moved : ι → Prop) (dest : π) (holds holds' : ι → π → Prop) : Prop :=
  ∀ x p, holds' x p ↔ (moved x ∧ p = dest) ∨ (¬moved x ∧ holds x p)

variable {item : ι → Prop} {holds holds' : ι → π → Prop} {p q : π} {x : ι}

theorem Partitioned.existsUnique (h : Partitioned item holds) (hx : item x) : ∃! p, holds x p := by
  obtain ⟨p, hp⟩ := h.somewhere x hx
  exact ⟨p, hp, fun q hq => h.once x q p hq hp⟩

theorem Partitioned.not_held (h : Partitioned item holds) (hx : holds x p) (hne : p ≠ q) :
    ¬holds x q := fun hq => hne (h.once x p q hx hq)

theorem Partitioned.moves (h : Partitioned item holds) {moved : ι → Prop} {dest : π}
    (hmoves : Moves moved dest holds holds') (hmoved : ∀ x, moved x → item x) : Partitioned item holds' := by
  constructor
  · intro x p hp
    rcases (hmoves x p).mp hp with ⟨hx, -⟩ | ⟨-, hp⟩
    · exact hmoved x hx
    · exact h.within x p hp
  · intro x hx
    by_cases hm : moved x
    · exact ⟨dest, (hmoves x dest).mpr (.inl ⟨hm, rfl⟩)⟩
    · obtain ⟨p, hp⟩ := h.somewhere x hx
      exact ⟨p, (hmoves x p).mpr (.inr ⟨hm, hp⟩)⟩
  · intro x p q hp hq
    rcases (hmoves x p).mp hp with ⟨hx, rfl⟩ | ⟨hx, hp⟩
    · rcases (hmoves x q).mp hq with ⟨-, rfl⟩ | ⟨hx', -⟩
      · rfl
      · exact absurd hx hx'
    · rcases (hmoves x q).mp hq with ⟨hx', -⟩ | ⟨-, hq⟩
      · exact absurd hx' hx
      · exact h.once x p q hp hq

/-- Items are taken from one place and put into another. -/
theorem Partitioned.move (h : Partitioned item holds) (moved : ι → Prop) (src dest : π)
    (hsrc : ∀ x, moved x → holds x src)
    (htaken : ∀ x, holds' x src ↔ holds x src ∧ ¬moved x)
    (hput : ∀ x, holds' x dest ↔ holds x dest ∨ moved x)
    (hother : ∀ x p, p ≠ src → p ≠ dest → (holds' x p ↔ holds x p)) : Partitioned item holds' := by
  apply h.moves _ fun x hx => h.within x src (hsrc x hx)
  · exact dest
  intro x p
  by_cases hdest : p = dest
  · subst hdest
    rw [hput x]
    by_cases hm : moved x <;> simp [hm]
  · have hp : holds' x p ↔ holds x p ∧ ¬moved x := by
      by_cases hs : p = src
      · subst hs
        exact htaken x
      · rw [hother x p hs hdest]
        exact ⟨fun hp => ⟨hp, fun hm => hs (h.once x p src hp (hsrc x hm))⟩, And.left⟩
    rw [hp]
    simp [hdest, and_comm]

/-- A new item is put somewhere. -/
theorem Partitioned.insert (h : Partitioned item holds) {item' : ι → Prop} (new : ι) (dest : π)
    (hnew : ¬item new) (hitem : ∀ x, item' x ↔ item x ∨ x = new)
    (hholds : ∀ x p, holds' x p ↔ holds x p ∨ (x = new ∧ p = dest)) : Partitioned item' holds' := by
  constructor
  · intro x p hp
    rcases (hholds x p).mp hp with hp | ⟨rfl, -⟩
    · exact (hitem x).mpr (.inl (h.within x p hp))
    · exact (hitem x).mpr (.inr rfl)
  · intro x hx
    rcases (hitem x).mp hx with hx | rfl
    · obtain ⟨p, hp⟩ := h.somewhere x hx
      exact ⟨p, (hholds x p).mpr (.inl hp)⟩
    · exact ⟨dest, (hholds x dest).mpr (.inr ⟨rfl, rfl⟩)⟩
  · intro x p q hp hq
    rcases (hholds x p).mp hp with hp | ⟨rfl, rfl⟩
    · rcases (hholds x q).mp hq with hq | ⟨rfl, -⟩
      · exact h.once x p q hp hq
      · exact absurd (h.within x p hp) hnew
    · rcases (hholds x q).mp hq with hq | ⟨-, rfl⟩
      · exact absurd (h.within x q hq) hnew
      · rfl

/-- An item is no longer one. -/
theorem Partitioned.remove (h : Partitioned item holds) {item' : ι → Prop} (old : ι)
    (hitem : ∀ x, item' x ↔ item x ∧ x ≠ old) (hholds : ∀ x p, holds' x p ↔ holds x p ∧ x ≠ old) :
    Partitioned item' holds' := by
  constructor
  · intro x p hp
    obtain ⟨hp, hne⟩ := (hholds x p).mp hp
    exact (hitem x).mpr ⟨h.within x p hp, hne⟩
  · intro x hx
    obtain ⟨hx, hne⟩ := (hitem x).mp hx
    obtain ⟨p, hp⟩ := h.somewhere x hx
    exact ⟨p, (hholds x p).mpr ⟨hp, hne⟩⟩
  · intro x p q hp hq
    exact h.once x p q ((hholds x p).mp hp).1 ((hholds x q).mp hq).1

end BdmAssault.Lib
