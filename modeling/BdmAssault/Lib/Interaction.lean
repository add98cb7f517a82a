import Mathlib.Init

/-! # Programs that call an environment

A program calls commands, each followed by one continuation for every answer.
A handler answers the commands from a state; it stops the run where it has no answer.
-/

namespace BdmAssault.Lib

/-- A program over the commands `C`; the answer to `c` has type `R c`. -/
inductive Dialogue (C : Type) (R : C → Type) (α : Type) : Type where
  | ret (a : α)
  | call (c : C) (k : R c → Dialogue C R α)

abbrev Handler (C : Type) (R : C → Type) (S : Type) := (c : C) → S → Option (R c × S)

namespace Dialogue

variable {C : Type} {R : C → Type} {α β S : Type}

protected def bind (f : α → Dialogue C R β) : Dialogue C R α → Dialogue C R β
  | .ret a => f a
  | .call c k => .call c fun r => (k r).bind f

instance : Monad (Dialogue C R) where
  pure := .ret
  bind m f := m.bind f

def command (c : C) : Dialogue C R (R c) := .call c .ret

/-- Run to the end, or to the command that stops the run. -/
def exec (h : Handler C R S) : Dialogue C R α → S → Option α × S
  | .ret a, s => (some a, s)
  | .call c k, s =>
      match h c s with
      | none => (none, s)
      | some (r, s') => exec h (k r) s'

theorem exec_bind {h : Handler C R S} {m : Dialogue C R α} {f : α → Dialogue C R β} {s s' : S} {a : α}
    (hm : m.exec h s = (some a, s')) : (m >>= f).exec h s = (f a).exec h s' := by
  induction m generalizing s with
  | ret b =>
      cases hm
      rfl
  | call c k ih =>
      rw [exec] at hm
      rw [show (call c k >>= f) = call c fun r => k r >>= f from rfl, exec]
      cases hstep : h c s with
      | none =>
          rw [hstep] at hm
          cases hm
      | some rs =>
          rw [hstep] at hm
          exact ih rs.1 hm

/-- A loop with at most `rounds` rounds; `stop` is what a longer one is cut to. -/
def iterate (stop : Dialogue C R α) (body : β → Dialogue C R (β ⊕ α)) : Nat → β → Dialogue C R α
  | 0, _ => stop
  | rounds + 1, b => do
      match ← body b with
      | .inl b' => iterate stop body rounds b'
      | .inr a => pure a

/-! ## Safety

Only runs that stay in `G` are considered: `I` holds in every state of them, and `Q` of
the result and the last state.
-/

section Safety

variable (h : Handler C R S) (G I : S → Prop)

def Safe (Q : α → S → Prop) : Dialogue C R α → S → Prop
  | .ret a, s => Q a s
  | .call c k, s => ∀ r s', h c s = some (r, s') → G s' → I s' ∧ Safe Q (k r) s'

variable {h G I} {Q Q' : α → S → Prop} {m : Dialogue C R α} {s : S}

theorem Safe.mono (hm : m.Safe h G I Q s) (hQ : ∀ a s', Q a s' → Q' a s') :
    m.Safe h G I Q' s := by
  induction m generalizing s with
  | ret a => exact hQ a s hm
  | call c k ih =>
      intro r s' hstep hg
      obtain ⟨hi, hk⟩ := hm r s' hstep hg
      exact ⟨hi, ih r hk⟩

theorem Safe.and {I' : S → Prop} (hm : m.Safe h G I Q s) (hm' : m.Safe h G I' Q' s) :
    m.Safe h G I (fun a s' => Q a s' ∧ Q' a s') s := by
  induction m generalizing s with
  | ret a => exact ⟨hm, hm'⟩
  | call c k ih =>
      intro r s' hstep hg
      exact ⟨(hm r s' hstep hg).1, ih r (hm r s' hstep hg).2 (hm' r s' hstep hg).2⟩

/-- With fewer runs to consider. -/
theorem Safe.weaken {G' : S → Prop} (hm : m.Safe h G I Q s) (hG : ∀ s, G' s → G s) :
    m.Safe h G' I Q s := by
  induction m generalizing s with
  | ret a => exact hm
  | call c k ih =>
      intro r s' hstep hg
      obtain ⟨hi, hk⟩ := hm r s' hstep (hG s' hg)
      exact ⟨hi, ih r hk⟩

theorem safe_trivial (m : Dialogue C R α) :
    ∀ {s : S}, m.Safe h G (fun _ => True) (fun _ _ => True) s := by
  induction m with
  | ret a => exact trivial
  | call c k ih => exact fun r s' _ _ => ⟨trivial, ih r⟩

theorem Safe.bind {f : α → Dialogue C R β} {Q : β → S → Prop}
    (hm : m.Safe h G I (fun a s' => (f a).Safe h G I Q s') s) : (m >>= f).Safe h G I Q s := by
  induction m generalizing s with
  | ret a => exact hm
  | call c k ih =>
      intro r s' hstep hg
      obtain ⟨hi, hk⟩ := hm r s' hstep hg
      exact ⟨hi, ih r hk⟩

theorem Safe.iterate {stop : Dialogue C R α} {body : β → Dialogue C R (β ⊕ α)} {P : β → S → Prop}
    (hstop : ∀ s', stop.Safe h G I Q s')
    (hbody : ∀ b s', P b s' →
      (body b).Safe h G I (fun r s'' => Sum.elim (fun b' => P b' s'') (fun a => Q a s'') r) s')
    (rounds : Nat) {b : β} (hp : P b s) : (iterate stop body rounds b).Safe h G I Q s := by
  induction rounds generalizing b s with
  | zero => exact hstop s
  | succ rounds ih =>
      refine Safe.bind ((hbody b s hp).mono fun r s' hr => ?_)
      cases r with
      | inl b' => exact ih hr
      | inr a => exact hr

/-- When `G` cannot be entered again once it is left, a run that ends in `G` never left
it. -/
theorem exec_guard (hG : ∀ c s r s', h c s = some (r, s') → G s' → G s) (m : Dialogue C R α) :
    ∀ s, G (m.exec h s).2 → G s := by
  induction m with
  | ret a => exact fun s hg => hg
  | call c k ih =>
      intro s hg
      unfold exec at hg
      cases hstep : h c s with
      | none =>
          rw [hstep] at hg
          exact hg
      | some rs =>
          rw [hstep] at hg
          exact hG c s rs.1 rs.2 hstep (ih rs.1 rs.2 hg)

theorem Safe.exec (hG : ∀ c s r s', h c s = some (r, s') → G s' → G s)
    (hm : m.Safe h G I Q s) (hi : I s) (hg : G (m.exec h s).2) :
    I (m.exec h s).2 ∧ ∀ a, (m.exec h s).1 = some a → Q a (m.exec h s).2 := by
  induction m generalizing s with
  | ret a =>
      refine ⟨hi, fun b hb => ?_⟩
      cases hb
      exact hm
  | call c k ih =>
      unfold Dialogue.exec at hg ⊢
      cases hstep : h c s with
      | none => exact ⟨hi, fun a ha => by cases ha⟩
      | some rs =>
          rw [hstep] at hg
          obtain ⟨hi', hk⟩ := hm rs.1 rs.2 hstep (exec_guard hG (k rs.1) rs.2 hg)
          exact ih rs.1 hk hi' hg

end Safety

/-! ## Commands in use -/

/-- Every command the program can come to satisfies `P`, whatever the answers are. -/
def Uses (P : C → Prop) : Dialogue C R α → Prop
  | .ret _ => True
  | .call c k => P c ∧ ∀ r, Uses P (k r)

section Uses

variable {P P' : C → Prop} {m : Dialogue C R α}

theorem Uses.mono (hm : m.Uses P) (hP : ∀ c, P c → P' c) : m.Uses P' := by
  induction m with
  | ret a => trivial
  | call c k ih => exact ⟨hP c hm.1, fun r => ih r (hm.2 r)⟩

theorem uses_trivial (m : Dialogue C R α) : m.Uses fun _ => True := by
  induction m with
  | ret a => trivial
  | call c k ih => exact ⟨trivial, ih⟩

theorem Uses.bind {f : α → Dialogue C R β} (hm : m.Uses P) (hf : ∀ a, (f a).Uses P) :
    (m >>= f).Uses P := by
  induction m with
  | ret a => exact hf a
  | call c k ih => exact ⟨hm.1, fun r => ih r (hm.2 r)⟩

theorem Uses.iterate {stop : Dialogue C R α} {body : β → Dialogue C R (β ⊕ α)}
    (hstop : stop.Uses P) (hbody : ∀ b, (body b).Uses P) (rounds : Nat) :
    ∀ b, (iterate stop body rounds b).Uses P := by
  induction rounds with
  | zero => exact fun _ => hstop
  | succ rounds ih =>
      intro b
      refine (hbody b).bind fun r => ?_
      cases r with
      | inl b' => exact ih b'
      | inr a => trivial

/-- A relation that each of the commands keeps holds between the ends of a run. -/
theorem Uses.safe {h : Handler C R S} {G I : S → Prop} {T : S → S → Prop} (hrefl : ∀ s, T s s)
    (htrans : ∀ s s' s'', T s s' → T s' s'' → T s s'')
    (hstep : ∀ c s r s', P c → h c s = some (r, s') → G s' → T s s') {s : S}
    (hI : ∀ s', T s s' → I s') (hm : m.Uses P) : m.Safe h G I (fun _ s' => T s s') s := by
  have hrun : ∀ s', T s s' → m.Safe h G I (fun _ s'' => T s s'') s' := by
    induction m with
    | ret a => exact fun s' hs => hs
    | call c k ih =>
        intro s' hs r s'' hh hg
        have hs' := htrans s s' s'' hs (hstep c s' r s'' hm.1 hh hg)
        exact ⟨hI s'' hs', ih r (hm.2 r) s'' hs'⟩
  exact hrun s (hrefl s)

end Uses

end Dialogue

end BdmAssault.Lib
