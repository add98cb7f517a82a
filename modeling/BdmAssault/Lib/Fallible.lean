import BdmAssault.Lib.Interaction

/-! # Programs that call an environment and fail

A program over commands whose result may be an error. The rules follow the way such a
program is written: one call after the other, and calls whose error is looked at.
-/

namespace BdmAssault.Lib

abbrev Fallible (C : Type) (R : C → Type) (ε α : Type) := ExceptT ε (Dialogue C R) α

namespace Fallible

variable {C : Type} {R : C → Type} {ε α β S : Type}

def command (c : C) : Fallible C R ε (R c) := ExceptT.lift (Dialogue.command c)

/-- The result of a call whose error the caller looks at. -/
def result (m : Fallible C R ε α) : Fallible C R ε (Except ε α) := ExceptT.lift m.run

/-! ## What holds of a run -/

section Meets

variable (h : Handler C R S) (G I : S → Prop)

def Meets (s : S) (m : Fallible C R ε α) (Q : Except ε α → S → Prop) : Prop :=
  Dialogue.Safe h G I Q m.run s

variable {h G I} {s : S} {m : Fallible C R ε α} {f : α → Fallible C R ε β}
  {Q : Except ε β → S → Prop} {T : Except ε α → S → Prop}

theorem Meets.mono {T' : Except ε α → S → Prop} (hm : Meets h G I s m T)
    (hT : ∀ r s', T r s' → T' r s') : Meets h G I s m T' := Dialogue.Safe.mono hm hT

theorem Meets.bind (hm : Meets h G I s m T) (hok : ∀ a s', T (.ok a) s' → Meets h G I s' (f a) Q)
    (herror : ∀ e s', T (.error e) s' → Q (.error e) s') : Meets h G I s (m >>= f) Q := by
  refine Dialogue.Safe.bind (hm.mono fun r s' hr => ?_)
  cases r with
  | ok a => exact hok a s' hr
  | error e => exact herror e s' hr

theorem Meets.result {f : Except ε α → Fallible C R ε β} (hm : Meets h G I s m T)
    (hf : ∀ r s', T r s' → Meets h G I s' (f r) Q) : Meets h G I s (m.result >>= f) Q := by
  refine Dialogue.Safe.bind (Dialogue.Safe.bind (hm.mono fun r s' hr => ?_))
  exact hf r s' hr

theorem meets_pure {a : α} (hT : T (.ok a) s) : Meets h G I s (pure a : Fallible C R ε α) T := hT

theorem meets_throw {e : ε} (hT : T (.error e) s) :
    Meets h G I s (throw e : Fallible C R ε α) T := hT

theorem meets_command {c : C} {T : Except ε (R c) → S → Prop}
    (hT : ∀ r s', h c s = some (r, s') → G s' → I s' ∧ T (.ok r) s') :
    Meets h G I s (command c) T := hT

/-- A command with a single outcome. -/
theorem Meets.step {c : C} {f : R c → Fallible C R ε β} {r : R c} {s' : S}
    (hstep : h c s = some (r, s')) (hI : I s') (hf : Meets h G I s' (f r) Q) :
    Meets h G I s (command c >>= f) Q := by
  refine Meets.bind (T := fun r' s'' => r' = .ok r ∧ s'' = s') ?_ ?_ ?_
  · refine meets_command fun r' s'' hstep' _ => ?_
    cases hstep.symm.trans hstep'
    exact ⟨hI, rfl, rfl⟩
  · rintro _ _ ⟨hr, rfl⟩
    cases hr
    exact hf
  · rintro e s'' ⟨he, -⟩
    cases he

end Meets

/-! ## Commands in use -/

def Uses (P : C → Prop) (m : Fallible C R ε α) : Prop := Dialogue.Uses P m.run

section Uses

variable {P P' : C → Prop} {m : Fallible C R ε α} {f : α → Fallible C R ε β}

theorem Uses.mono (hm : m.Uses P) (hP : ∀ c, P c → P' c) : m.Uses P' := Dialogue.Uses.mono hm hP

theorem uses_pure (a : α) : (pure a : Fallible C R ε α).Uses P := trivial

theorem uses_throw (e : ε) : (throw e : Fallible C R ε α).Uses P := trivial

theorem uses_command {c : C} (hc : P c) : (command c : Fallible C R ε (R c)).Uses P :=
  ⟨hc, fun _ => trivial⟩

theorem Uses.bind (hm : m.Uses P) (hf : ∀ a, (f a).Uses P) : (m >>= f).Uses P := by
  refine Dialogue.Uses.bind hm fun r => ?_
  cases r with
  | ok a => exact hf a
  | error e => trivial

theorem Uses.result (hm : m.Uses P) : m.result.Uses P :=
  Dialogue.Uses.bind hm fun _ => trivial

theorem uses_ite {p : Prop} [Decidable p] {m' : Fallible C R ε α} (hm : m.Uses P)
    (hm' : m'.Uses P) : (if p then m else m').Uses P := by
  split
  · exact hm
  · exact hm'

end Uses

end Fallible

end BdmAssault.Lib
