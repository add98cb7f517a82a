import Mathlib.Tactic.TypeStar

/-! # Labelled transition systems and their runs

A run records the labels it took, latest first. Every step of a run may be
required to satisfy an admissibility condition on the state it is taken in, so
that one system serves both unconditional results and results about the runs
whose steps all meet a condition.
-/

namespace BdmAssault.Lib

/-- Initial states and labelled steps. -/
structure System (σ α : Type*) where
  init : σ → Prop
  step : σ → α → σ → Prop

namespace System

variable {σ α : Type*} (sys : System σ α) (ok : σ → α → Prop)

/-- The states reached by taking exactly the given labels, latest first, each
one admissible where it is taken. -/
inductive Run : List α → σ → Prop where
  | start {s : σ} (h : sys.init s) : Run [] s
  | step {as : List α} {a : α} {s s' : σ} (h : Run as s) (admissible : ok s a)
      (next : sys.step s a s') : Run (a :: as) s'

def Reachable (s : σ) : Prop := ∃ as, sys.Run ok as s

/-- An inductive invariant. The step case may use that its source is reachable,
so invariants already established are available to later ones. -/
structure Invariant (P : σ → Prop) : Prop where
  init : ∀ s, sys.init s → P s
  step : ∀ s a s', sys.Reachable ok s → P s → ok s a → sys.step s a s' → P s'

variable {sys ok}

theorem Reachable.init {s : σ} (h : sys.init s) : sys.Reachable ok s := ⟨[], .start h⟩

theorem Reachable.next {s s' : σ} {a : α} (h : sys.Reachable ok s) (admissible : ok s a)
    (next : sys.step s a s') : sys.Reachable ok s' := by
  obtain ⟨as, run⟩ := h
  exact ⟨a :: as, run.step admissible next⟩

theorem Reachable.weaken {ok' : σ → α → Prop} {s : σ} (h : sys.Reachable ok s)
    (hok : ∀ s a, ok s a → ok' s a) : sys.Reachable ok' s := by
  obtain ⟨as, run⟩ := h
  induction run with
  | start h => exact .init h
  | step _ admissible next ih => exact ih.next (hok _ _ admissible) next

theorem Invariant.holds {P : σ → Prop} (inv : sys.Invariant ok P) {s : σ}
    (h : sys.Reachable ok s) : P s := by
  obtain ⟨as, run⟩ := h
  induction run with
  | start h => exact inv.init _ h
  | step run admissible next ih => exact inv.step _ _ _ ⟨_, run⟩ ih admissible next

end System

end BdmAssault.Lib
