import BdmAssault.Lib.Fallible

/-! # Runs that come to their end

Total correctness of programs over commands: a run that ends with `Q`, and loops whose
rounds count down a variant. A run that meets a command without an answer is stuck.
-/

namespace BdmAssault.Lib

namespace Dialogue

variable {C : Type} {R : C → Type} {α β S : Type}

section Ends

variable (h : Handler C R S)

/-- The run comes to its end, with `Q` of the result and the last state. -/
def Ends (Q : α → S → Prop) : Dialogue C R α → S → Prop
  | .ret a, s => Q a s
  | .call c k, s => ∃ r s', h c s = some (r, s') ∧ Ends Q (k r) s'

def Stuck (m : Dialogue C R α) (s : S) : Prop := (m.exec h s).1 = none

variable {h} {Q Q' : α → S → Prop} {m : Dialogue C R α} {s : S}

theorem ends_iff : m.Ends h Q s ↔ ∃ a s', m.exec h s = (some a, s') ∧ Q a s' := by
  induction m generalizing s with
  | ret a =>
      constructor
      · exact fun hq => ⟨a, s, rfl, hq⟩
      · rintro ⟨b, s', hexec, hq⟩
        cases hexec
        exact hq
  | call c k ih =>
      rw [exec]
      constructor
      · rintro ⟨r, s', hstep, hk⟩
        rw [hstep]
        exact (ih r).mp hk
      · rintro ⟨a, s', hexec, hq⟩
        cases hstep : h c s with
        | none =>
            rw [hstep] at hexec
            cases hexec
        | some rs =>
            rw [hstep] at hexec
            exact ⟨rs.1, rs.2, hstep, (ih rs.1).mpr ⟨a, s', hexec, hq⟩⟩

theorem Ends.isSome (hm : m.Ends h Q s) : (m.exec h s).1.isSome := by
  obtain ⟨a, s', hexec, -⟩ := ends_iff.mp hm
  rw [hexec]
  rfl

theorem Ends.mono (hm : m.Ends h Q s) (hQ : ∀ a s', Q a s' → Q' a s') : m.Ends h Q' s := by
  induction m generalizing s with
  | ret a => exact hQ a s hm
  | call c k ih =>
      obtain ⟨r, s', hstep, hk⟩ := hm
      exact ⟨r, s', hstep, ih r hk⟩

theorem Ends.bind {f : α → Dialogue C R β} {Q : β → S → Prop}
    (hm : m.Ends h (fun a s' => (f a).Ends h Q s') s) : (m >>= f).Ends h Q s := by
  induction m generalizing s with
  | ret a => exact hm
  | call c k ih =>
      obtain ⟨r, s', hstep, hk⟩ := hm
      exact ⟨r, s', hstep, ih r hk⟩

/-- Every round that goes on counts `variant` down. -/
theorem Ends.iterate {stop : Dialogue C R α} {body : β → Dialogue C R (β ⊕ α)} {P : β → S → Prop}
    (variant : β → S → Nat)
    (hbody : ∀ b s', P b s' → (body b).Ends h (fun r s'' =>
      Sum.elim (fun b' => P b' s'' ∧ variant b' s'' < variant b s') (fun a => Q a s'') r) s')
    {rounds : Nat} {b : β} (hp : P b s) (hrounds : variant b s < rounds) :
    (iterate stop body rounds b).Ends h Q s := by
  induction rounds generalizing b s with
  | zero => exact absurd hrounds (Nat.not_lt_zero _)
  | succ rounds ih =>
      refine Ends.bind ((hbody b s hp).mono fun r s' hr => ?_)
      cases r with
      | inl b' => exact ih hr.1 (Nat.lt_of_lt_of_le hr.2 (Nat.le_of_lt_succ hrounds))
      | inr a => exact hr

theorem Stuck.bind {f : α → Dialogue C R β} (hm : m.Stuck h s) : (m >>= f).Stuck h s := by
  induction m generalizing s with
  | ret a => cases hm
  | call c k ih =>
      unfold Stuck at hm ⊢
      rw [show (call c k >>= f) = call c fun r => k r >>= f from rfl, exec]
      rw [exec] at hm
      cases hstep : h c s with
      | none => rfl
      | some rs =>
          rw [hstep] at hm
          exact ih rs.1 hm

theorem Ends.stuck {f : α → Dialogue C R β} (hm : m.Ends h (fun a s' => (f a).Stuck h s') s) :
    (m >>= f).Stuck h s := by
  obtain ⟨a, s', hexec, hf⟩ := ends_iff.mp hm
  unfold Stuck
  rw [exec_bind hexec]
  exact hf

/-- Every round goes on. -/
theorem stuck_iterate {stop : Dialogue C R α} {body : β → Dialogue C R (β ⊕ α)} {P : β → S → Prop}
    (hstop : ∀ s', stop.Stuck h s')
    (hbody : ∀ b s', P b s' → (body b).Ends h (fun r s'' => ∃ b', r = .inl b' ∧ P b' s'') s')
    (rounds : Nat) {b : β} (hp : P b s) : (iterate stop body rounds b).Stuck h s := by
  induction rounds generalizing b s with
  | zero => exact hstop s
  | succ rounds ih =>
      refine Ends.stuck ((hbody b s hp).mono ?_)
      rintro r s' ⟨b', rfl, hp'⟩
      exact ih hp'

end Ends

end Dialogue

namespace Fallible

variable {C : Type} {R : C → Type} {ε α β S : Type}

section Ends

variable (h : Handler C R S)

def Ends (s : S) (m : Fallible C R ε α) (Q : Except ε α → S → Prop) : Prop :=
  Dialogue.Ends h Q m.run s

def Stuck (s : S) (m : Fallible C R ε α) : Prop := Dialogue.Stuck h m.run s

variable {h} {s : S} {m : Fallible C R ε α} {f : α → Fallible C R ε β} {Q : Except ε β → S → Prop}
  {T T' : Except ε α → S → Prop}

theorem Ends.mono (hm : Ends h s m T) (hT : ∀ r s', T r s' → T' r s') : Ends h s m T' :=
  Dialogue.Ends.mono hm hT

theorem Ends.bind (hm : Ends h s m T) (hok : ∀ a s', T (.ok a) s' → Ends h s' (f a) Q)
    (herror : ∀ e s', T (.error e) s' → Q (.error e) s') : Ends h s (m >>= f) Q := by
  refine Dialogue.Ends.bind (Dialogue.Ends.mono hm fun r s' hr => ?_)
  cases r with
  | ok a => exact hok a s' hr
  | error e => exact herror e s' hr

theorem Ends.result {f : Except ε α → Fallible C R ε β} (hm : Ends h s m T)
    (hf : ∀ r s', T r s' → Ends h s' (f r) Q) : Ends h s (m.result >>= f) Q := by
  refine Dialogue.Ends.bind (Dialogue.Ends.bind (Dialogue.Ends.mono hm fun r s' hr => ?_))
  exact hf r s' hr

theorem ends_pure {a : α} (hT : T (.ok a) s) : Ends h s (pure a : Fallible C R ε α) T := hT

theorem ends_throw {e : ε} (hT : T (.error e) s) : Ends h s (throw e : Fallible C R ε α) T := hT

theorem Ends.step {c : C} {f : R c → Fallible C R ε β} {r : R c} {s' : S}
    (hstep : h c s = some (r, s')) (hf : Ends h s' (f r) Q) : Ends h s (command c >>= f) Q :=
  ⟨r, s', hstep, hf⟩

theorem Stuck.bind (hm : Stuck h s m) : Stuck h s (m >>= f) := Dialogue.Stuck.bind hm

theorem Stuck.step {c : C} {f : R c → Fallible C R ε β} {r : R c} {s' : S}
    (hstep : h c s = some (r, s')) (hf : Stuck h s' (f r)) : Stuck h s (command c >>= f) := by
  have hrun : (command c >>= f).run = .call c fun r => (f r).run := rfl
  unfold Stuck Dialogue.Stuck
  rw [hrun, Dialogue.exec, hstep]
  exact hf

end Ends

end Fallible

end BdmAssault.Lib
