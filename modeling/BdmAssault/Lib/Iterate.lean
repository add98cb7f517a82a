import Mathlib.Data.List.Iterate
import Mathlib.Data.List.Nodup
import Mathlib.Order.Interval.Finset.Nat

/-! # Chains of iterates

A list linked by a function: each element is what the function gives for the one before.
-/

namespace BdmAssault.Lib

variable {α : Type} {f : α → α} {a : α} {n : Nat}

/-- A chain that comes to leave a set has not been anywhere in it twice. -/
theorem nodup_iterate_of_leaves {P : α → Prop} (inside : ∀ i < n, P (f^[i] a)) (outside : ¬ P (f^[n] a)) :
    (List.iterate f a n).Nodup := by
  rw [List.nodup_iff_pairwise_ne, List.pairwise_iff_getElem]
  intro i j hi hj hij heq
  rw [List.getElem_iterate, List.getElem_iterate] at heq
  rw [List.length_iterate] at hj
  -- from `j` on the chain repeats what came after `i`
  have hback : f^[n] a = f^[n - j + i] a :=
    calc f^[n] a = f^[n - j + j] a := by rw [Nat.sub_add_cancel (Nat.le_of_lt hj)]
      _ = f^[n - j] (f^[j] a) := Function.iterate_add_apply f _ _ _
      _ = f^[n - j] (f^[i] a) := by rw [heq]
      _ = f^[n - j + i] a := (Function.iterate_add_apply f _ _ _).symm
  rw [hback] at outside
  exact outside (inside _ (by omega))

/-- Numbers in an interval, each of them once. -/
theorem length_le_of_nodup {l : List α} (g : α → Nat) (hinj : Function.Injective g) {low high : Nat}
    (hl : l.Nodup) (hmem : ∀ a ∈ l, low ≤ g a ∧ g a < high) : l.length ≤ high - low := by
  have hsub : (l.map g).toFinset ⊆ Finset.Ico low high := by
    intro n hn
    obtain ⟨a, ha, rfl⟩ := List.mem_map.mp (List.mem_toFinset.mp hn)
    exact Finset.mem_Ico.mpr (hmem a ha)
  have hcard := Finset.card_le_card hsub
  rwa [List.toFinset_card_of_nodup (hl.map hinj), List.length_map, Nat.card_Ico] at hcard

end BdmAssault.Lib
