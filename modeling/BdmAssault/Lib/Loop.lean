import Mathlib.Logic.Function.Basic

/-! # Loops over an index list

A C loop whose body may not return is a monadic fold in `Option`. Three rules
cover its uses: a predicate kept by every iteration, a fact that iteration `i`
establishes and the others keep, and totality.
-/

namespace BdmAssault.Lib

variable {σ ι : Type*} {f : σ → ι → Option σ}

theorem foldlM_cons_eq_some {l : List ι} {i : ι} {s s' : σ} :
    (i :: l).foldlM f s = some s' ↔ ∃ t, f s i = some t ∧ l.foldlM f t = some s' := by
  simp [List.foldlM_cons, Option.bind_eq_some_iff]

/-- What every iteration keeps, the loop keeps. -/
theorem foldlM_keeps {P : σ → Prop} (body : ∀ s i t, P s → f s i = some t → P t)
    {l : List ι} {s s' : σ} (hs : P s) (h : l.foldlM f s = some s') : P s' := by
  induction l generalizing s with
  | nil =>
      have heq : s = s' := by simpa using h
      exact heq ▸ hs
  | cons i l ih =>
      obtain ⟨t, first, rest⟩ := foldlM_cons_eq_some.mp h
      exact ih (body s i t hs first) rest

/-- A fact about index `i` that iteration `i` establishes and no iteration
destroys holds of every visited index afterwards. -/
theorem foldlM_establishes {P : σ → Prop} {Q : ι → σ → Prop}
    (body : ∀ s i t, P s → f s i = some t → P t)
    (establish : ∀ s i t, P s → f s i = some t → Q i t)
    (keep : ∀ s i t j, P s → f s i = some t → Q j s → Q j t)
    {l : List ι} {s s' : σ} (hs : P s) (h : l.foldlM f s = some s') : ∀ i ∈ l, Q i s' := by
  induction l generalizing s with
  | nil => simp
  | cons i l ih =>
      obtain ⟨t, first, rest⟩ := foldlM_cons_eq_some.mp h
      have ht := body s i t hs first
      intro j hj
      rcases List.mem_cons.mp hj with rfl | hj
      · have hboth := foldlM_keeps (P := fun s => P s ∧ Q j s)
          (fun s i t hp hst => ⟨body s i t hp.1 hst, keep s i t j hp.1 hst hp.2⟩)
          ⟨ht, establish s j t hs first⟩ rest
        exact hboth.2
      · exact ih ht rest j hj

/-- A loop whose iterations all return, returns. -/
theorem foldlM_total {P : σ → Prop} (body : ∀ s i, P s → ∃ t, f s i = some t ∧ P t)
    (l : List ι) {s : σ} (hs : P s) : ∃ s', l.foldlM f s = some s' ∧ P s' := by
  induction l generalizing s with
  | nil => exact ⟨s, rfl, hs⟩
  | cons i l ih =>
      obtain ⟨t, first, ht⟩ := body s i hs
      obtain ⟨s', rest, hs'⟩ := ih ht
      exact ⟨s', foldlM_cons_eq_some.mpr ⟨t, first, rest⟩, hs'⟩

end BdmAssault.Lib
