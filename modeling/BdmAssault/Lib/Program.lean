import Mathlib.Init

/-! # Programs that may return early

A C function that passes results on with `if (r <= 0) return r;` is a program that
either continues with a value or exits with the function's result. The state is
kept in both cases.
-/

namespace BdmAssault.Lib

abbrev Prog (σ ρ α : Type) := ExceptT ρ (StateM σ) α

namespace Prog

variable {σ ρ α β : Type} {m : Prog σ ρ α} {f : α → Prog σ ρ β} {s s' s'' : σ} {a : α} {b : β} {r : ρ}

def Continues (m : Prog σ ρ α) (s : σ) (a : α) (s' : σ) : Prop := m.run.run s = (.ok a, s')

def Exits (m : Prog σ ρ α) (s : σ) (r : ρ) (s' : σ) : Prop := m.run.run s = (.error r, s')

/-- The result of a function body, whichever way it is left; `ret` is the `return` at
its end. -/
def outcome (ret : α → ρ) (m : Prog σ ρ α) (s : σ) : ρ × σ :=
  match m.run.run s with
  | (.ok a, s') => (ret a, s')
  | (.error r, s') => (r, s')

/-- The call of another function, whose result is looked at. -/
def call {ρ' : Type} (ret : α → ρ) (m : Prog σ ρ α) : Prog σ ρ' ρ :=
  ExceptT.mk fun s => (.ok (m.outcome ret s).1, (m.outcome ret s).2)

theorem Continues.run_bind (h : m.Continues s a s') : (m >>= f).run.run s = (f a).run.run s' := by
  rw [ExceptT.run_bind, StateT.run_bind, h]
  rfl

theorem Continues.bind (h : m.Continues s a s') (hf : (f a).Continues s' b s'') :
    (m >>= f).Continues s b s'' := h.run_bind.trans hf

theorem Continues.bind_exits (h : m.Continues s a s') (hf : (f a).Exits s' r s'') :
    (m >>= f).Exits s r s'' := h.run_bind.trans hf

/-- `if (p) m;` -/
def when (p : Prop) [Decidable p] (m : Prog σ ρ Unit) : Prog σ ρ Unit := if p then m else pure ()

theorem continues_pure : (pure a : Prog σ ρ α).Continues s a s := rfl

theorem continues_get : (get : Prog σ ρ σ).Continues s s s := rfl

theorem continues_set : (set s' : Prog σ ρ PUnit).Continues s ⟨⟩ s' := rfl

theorem continues_call {ρ' : Type} {ret : α → ρ} :
    (m.call ret : Prog σ ρ' ρ).Continues s (m.outcome ret s).1 (m.outcome ret s).2 := rfl

theorem continues_modify {g : σ → σ} : (modify g : Prog σ ρ PUnit).Continues s ⟨⟩ (g s) := rfl

theorem exits_throw : (throw r : Prog σ ρ α).Exits s r s := rfl

theorem Exits.bind (h : m.Exits s r s') : (m >>= f).Exits s r s' := by
  unfold Exits at *
  rw [ExceptT.run_bind, StateT.run_bind, h]
  rfl

theorem continues_when_neg {p : Prop} [Decidable p] {m : Prog σ ρ Unit} (h : ¬p) :
    (when p m).Continues s () s := by
  rw [when, if_neg h]
  exact continues_pure

theorem when_pos {p : Prop} [Decidable p] {m : Prog σ ρ Unit} (h : p) : when p m = m := if_pos h

theorem Continues.outcome (ret : α → ρ) (h : m.Continues s a s') :
    m.outcome ret s = (ret a, s') := by
  unfold Prog.outcome
  rw [h]

theorem Exits.outcome (ret : α → ρ) (h : m.Exits s r s') : m.outcome ret s = (r, s') := by
  unfold Prog.outcome
  rw [h]

theorem Continues.call {ρ' : Type} (ret : α → ρ) (h : m.Continues s a s') :
    (m.call ret : Prog σ ρ' ρ).Continues s (ret a) s' := by
  have hcall : (m.call ret : Prog σ ρ' ρ).Continues s _ _ := continues_call
  rwa [h.outcome ret] at hcall

theorem Exits.call {ρ' : Type} (ret : α → ρ) (h : m.Exits s r s') :
    (m.call ret : Prog σ ρ' ρ).Continues s r s' := by
  have hcall : (m.call ret : Prog σ ρ' ρ).Continues s _ _ := continues_call
  rwa [h.outcome ret] at hcall

/-! ## Both ways at once -/

/-- From `s` the body either continues as `Q` says or exits as `E` says. -/
def Ensures (m : Prog σ ρ α) (s : σ) (Q : α → σ → Prop) (E : ρ → σ → Prop) : Prop :=
  match m.run.run s with
  | (.ok a, s') => Q a s'
  | (.error r, s') => E r s'

section Ensures

variable {Q : β → σ → Prop} {R : α → σ → Prop} {E : ρ → σ → Prop}

theorem ensures_pure (h : R a s) : (pure a : Prog σ ρ α).Ensures s R E := h

theorem ensures_throw (h : E r s) : (throw r : Prog σ ρ α).Ensures s R E := h

theorem Continues.ensures (h : m.Continues s a s') (hR : R a s') : m.Ensures s R E := by
  unfold Ensures
  rw [h]
  exact hR

theorem Exits.ensures (h : m.Exits s r s') (hE : E r s') : m.Ensures s R E := by
  unfold Ensures
  rw [h]
  exact hE

theorem Ensures.mono {R' : α → σ → Prop} (h : m.Ensures s R E) (hR : ∀ a s', R a s' → R' a s') :
    m.Ensures s R' E := by
  unfold Ensures at *
  split
  · rename_i a s' hm
    rw [hm] at h
    exact hR a s' h
  · rename_i r s' hm
    rw [hm] at h
    exact h

theorem Ensures.exits_mono {E' : ρ → σ → Prop} (h : m.Ensures s R E) (hE : ∀ r s', E r s' → E' r s') :
    m.Ensures s R E' := by
  unfold Ensures at *
  split
  · rename_i a s' hm
    rw [hm] at h
    exact h
  · rename_i r s' hm
    rw [hm] at h
    exact hE r s' h

theorem Ensures.bind (h : m.Ensures s R E) (hf : ∀ a s', R a s' → (f a).Ensures s' Q E) :
    (m >>= f).Ensures s Q E := by
  unfold Ensures at h
  cases hm : m.run.run s with
  | mk x s' =>
      rw [hm] at h
      cases x with
      | ok a =>
          unfold Ensures
          rw [Continues.run_bind hm]
          exact hf a s' h
      | error r => exact (Exits.bind hm).ensures h

theorem ensures_trivial (m : Prog σ ρ α) (s : σ) : m.Ensures s (fun _ _ => True) fun _ _ => True := by
  unfold Ensures
  split <;> trivial

/-- The rest may be another one where it does the same. -/
theorem Ensures.run_congr {f g : α → Prog σ ρ β} (h : m.Ensures s R E)
    (hfg : ∀ a s', R a s' → (f a).run.run s' = (g a).run.run s') : (m >>= f).run.run s = (m >>= g).run.run s := by
  unfold Ensures at h
  cases hm : m.run.run s with
  | mk x s' =>
      rw [hm] at h
      cases x with
      | ok a => rw [Continues.run_bind hm, Continues.run_bind hm, hfg a s' h]
      | error r => exact (Exits.bind hm).trans (Exits.bind hm).symm

theorem Continues.ensures_bind (h : m.Continues s a s') (hf : (f a).Ensures s' Q E) :
    (m >>= f).Ensures s Q E := by
  unfold Ensures
  rw [h.run_bind]
  exact hf

theorem Ensures.get {f : σ → Prog σ ρ β} (h : (f s).Ensures s Q E) :
    ((get : Prog σ ρ σ) >>= f).Ensures s Q E := continues_get.ensures_bind h

/-- The caller sees either way out of the function. -/
theorem Ensures.call {ρ' : Type} {E' : ρ' → σ → Prop} (ret : α → ρ) (h : m.Ensures s R E)
    (hret : ∀ a s', R a s' → E (ret a) s') : (m.call ret : Prog σ ρ' ρ).Ensures s E E' := by
  cases hm : m.run.run s with
  | mk x s' =>
      unfold Ensures at h
      rw [hm] at h
      cases x with
      | ok a => exact (Continues.call ret hm).ensures (hret a s' h)
      | error r => exact (Exits.call ret hm).ensures h

theorem ensures_when {p : Prop} [Decidable p] {m : Prog σ ρ Unit} {R : Unit → σ → Prop}
    (hpos : p → m.Ensures s R E) (hneg : ¬p → R () s) : (when p m).Ensures s R E := by
  by_cases hp : p
  · rw [when_pos hp]
    exact hpos hp
  · exact (continues_when_neg hp).ensures (hneg hp)

/-- `if (p) return r;` in front of the rest. -/
theorem ensures_check {p : Prop} [Decidable p] {f : Unit → Prog σ ρ β} (hexit : p → E r s)
    (hgo : ¬p → (f ()).Ensures s Q E) : (when p (throw r) >>= f).Ensures s Q E := by
  by_cases hp : p
  · rw [when_pos hp]
    exact (exits_throw.bind).ensures (hexit hp)
  · exact (continues_when_neg hp).ensures_bind (hgo hp)

theorem Ensures.outcome (ret : α → ρ) (h : m.Ensures s R E) (hret : ∀ a s', R a s' → E (ret a) s') :
    E (m.outcome ret s).1 (m.outcome ret s).2 := by
  unfold Ensures at h
  cases hm : m.run.run s with
  | mk x s' =>
      rw [hm] at h
      cases x with
      | ok a =>
          rw [Continues.outcome ret hm]
          exact hret a s' h
      | error r =>
          rw [Exits.outcome ret hm]
          exact h

end Ensures

end Prog

end BdmAssault.Lib
