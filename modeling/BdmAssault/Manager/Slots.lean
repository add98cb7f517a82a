import BdmAssault.Manager.Disconnect
import BdmAssault.Manager.Scan

/-! # What mount slots hold

The facts about `g_mount` that hold in every run, whatever the order of the calls
and whatever the disks contain: a slot's own device is a driver's device or an
occupied partition slot, and its cached device is a copy of it.
-/

namespace BdmAssault.Manager

structure Tidy (s : Bdm) : Prop where
  cached : ∀ i c, (s.mount i).cbd = some c → ∃ n, c = .cache n
  real : ∀ i d, (s.mount i).bd = some d → ∀ n, d ≠ .cache n
  owned : ∀ i k, (s.mount i).bd = some (.part k) → s.part k ≠ none
  copied : ∀ i c d, (s.mount i).cbd = some c → (s.mount i).bd = some d → s.block c = s.block d

theorem tidy_init {s : Bdm} (hmount : ∀ i, s.mount i = Mount.empty) : Tidy s where
  cached i c h := by rw [hmount i] at h; cases h
  real i d h := by rw [hmount i] at h; cases h
  owned i k h := by rw [hmount i] at h; cases h
  copied i c d h := by rw [hmount i] at h; cases h

theorem offered_cases {m : Mount} {b : Dev} (h : m.offered = some b) :
    m.cbd = some b ∨ m.cbd = none ∧ m.bd = some b := by
  unfold Mount.offered at h
  cases hc : m.cbd with
  | none =>
      rw [hc] at h
      exact .inr ⟨rfl, h⟩
  | some c =>
      rw [hc] at h
      exact .inl h

section Tidy

variable {s t : Bdm} {i : Fin 20} {b d : Dev}

theorem Tidy.of_same (h : Tidy s) (hmount : t.mount = s.mount) (hblock : t.block = s.block)
    (hpart : t.part = s.part) : Tidy t where
  cached := hmount ▸ h.cached
  real := hmount ▸ h.real
  owned := hmount ▸ hpart ▸ h.owned
  copied := hmount ▸ hblock ▸ h.copied

/-- An offered device that is not a cached one is the slot's own device. -/
theorem Tidy.bd_of_offered (h : Tidy s) (hd : ∀ n, d ≠ .cache n)
    (hoff : (s.mount i).offered = some d) : (s.mount i).bd = some d := by
  rcases offered_cases hoff with hc | ⟨-, hb⟩
  · obtain ⟨n, rfl⟩ := h.cached i d hc
    exact absurd rfl (hd n)
  · exact hb

theorem Tidy.cbd_of_offered (h : Tidy s) {n : Nat} (hoff : (s.mount i).offered = some (.cache n)) :
    (s.mount i).cbd = some (.cache n) := by
  rcases offered_cases hoff with hc | ⟨-, hb⟩
  · exact hc
  · exact absurd rfl (h.real i _ hb n)

/-- An offered pseudo-device belongs to an occupied partition slot. -/
theorem Tidy.part_of_offered (h : Tidy s) {k : Fin 10} (hoff : (s.mount i).offered = some (.part k)) :
    s.part k ≠ none :=
  h.owned i k (h.bd_of_offered (fun _ => Dev.noConfusion) hoff)

/-! ## Removals -/

theorem Tidy.shrink {R : Dev → Prop} (h : Tidy s) (step : Shrink R s t) : Tidy t where
  cached i c hc := by
    rcases step.shrunk.mount i with e | e
    · exact h.cached i c (e ▸ hc)
    · rw [e] at hc
      cases hc
  real i d hi := h.real i d (step.shrunk.mount_of_bd hi ▸ hi)
  owned i k hi := by
    have hs := step.shrunk.mount_of_bd hi ▸ hi
    cases step with
    | mount allowed childless => exact h.owned i k hs
    | @part l unmounted =>
        have hkl : k ≠ l := by
          rintro rfl
          exact unmounted i hs
        rw [clearPart_of_ne _ hkl]
        exact h.owned i k hs
  copied i c d hc hd := by
    have hsame := step.shrunk.mount_of_bd hd
    rw [hsame] at hc hd
    rw [step.shrunk.block]
    exact h.copied i c d hc hd

theorem Tidy.disconnect {fuel : Nat} (h : Tidy s) (hd : bdmDisconnectBd fuel s d = some t) :
    Tidy t := by
  have steps := (bdmDisconnectBd_spec hd).1
  clear hd
  induction steps with
  | refl => exact h
  | tail _ step ih => exact ih.shrink step

/-! ## Connects -/

section Placed

variable {cbd : Option Dev} {j : Fin 20}

/-- The record of a device that some slot offers is not overwritten. -/
theorem Placed.block_old (hp : Placed s d i cbd t) (h : Tidy s)
    (hoff : (s.mount j).offered = some b) : t.block b = s.block b := by
  rcases hp.fresh with ⟨-, hblock⟩ | ⟨n, -, fresh, hblock⟩
  · rw [hblock]
  · have hb : b ≠ .cache n := by
      rintro rfl
      exact fresh j (h.cbd_of_offered hoff)
    rw [hblock, Function.update_of_ne hb]

theorem Placed.block_new (hp : Placed s d i cbd t) (hoff : (t.mount i).offered = some b) :
    t.block b = s.block d := by
  rw [hp.self] at hoff
  rcases hp.fresh with ⟨rfl, hblock⟩ | ⟨n, rfl, -, hblock⟩
  · cases hoff
    rw [hblock]
  · cases hoff
    rw [hblock, Function.update_self]

theorem Placed.block_real (hp : Placed s d i cbd t) (hb : ∀ n, b ≠ .cache n) :
    t.block b = s.block b := by
  rcases hp.fresh with ⟨-, hblock⟩ | ⟨n, -, -, hblock⟩
  · rw [hblock]
  · rw [hblock, Function.update_of_ne (hb n)]

theorem Placed.cbd_fresh (hp : Placed s d i cbd t) (hc : cbd = some b) :
    ∃ n, b = .cache n ∧ ∀ j, (s.mount j).cbd ≠ some (.cache n) := by
  rcases hp.fresh with ⟨hnone, -⟩ | ⟨n, hn, fresh, -⟩
  · rw [hnone] at hc
    cases hc
  · rw [hn] at hc
    cases hc
    exact ⟨n, rfl, fresh⟩

theorem Tidy.placed (h : Tidy s) (hp : Placed s d i cbd t) (real : ∀ n, d ≠ .cache n)
    (owned : ∀ k, d = .part k → s.part k ≠ none) : Tidy t := by
  refine ⟨fun j c hc => ?_, fun j e he => ?_, fun j k hk => ?_, fun j c e hc he => ?_⟩
  all_goals by_cases hji : j = i
  · subst hji
    rw [hp.self] at hc
    obtain ⟨n, hn, -⟩ := hp.cbd_fresh hc
    exact ⟨n, hn⟩
  · rw [hp.other hji] at hc
    exact h.cached j c hc
  · subst hji
    rw [hp.self] at he
    cases he
    exact real
  · rw [hp.other hji] at he
    exact h.real j e he
  · subst hji
    rw [hp.self] at hk
    cases hk
    rw [hp.part]
    exact owned k rfl
  · rw [hp.other hji] at hk
    rw [hp.part]
    exact h.owned j k hk
  · subst hji
    rw [hp.block_new (b := c) (by rw [Mount.offered, hc]; rfl)]
    rw [hp.self] at he
    cases he
    rw [hp.block_real real]
  · rw [hp.other hji] at hc he
    rw [hp.block_old h (j := j) (b := c) (by rw [Mount.offered, hc]; rfl),
      hp.block_real (h.real j e he)]
    exact h.copied j c e hc he

theorem Tidy.connect (h : Tidy s) (real : ∀ n, d ≠ .cache n)
    (owned : ∀ k, d = .part k → s.part k ≠ none) : Tidy (bdmConnectBd s d) := by
  rcases bdmConnectBd_cases s d with hsame | ⟨i, cbd, hp⟩
  · rwa [hsame]
  · exact h.placed hp real owned

theorem Tidy.block_connect (h : Tidy s) (hoff : (s.mount j).offered = some b) :
    (bdmConnectBd s d).block b = s.block b := by
  rcases bdmConnectBd_cases s d with hsame | ⟨i, cbd, hp⟩
  · rw [hsame]
  · exact hp.block_old h hoff

end Placed

/-! ## Partitions -/

section Assign

variable {k : Fin 10} {e : Entry}

/-- Filling a free partition slot does not touch the record of an offered device. -/
theorem Tidy.block_assign (h : Tidy s) (free : s.part k = none) {c : Dev}
    (hoff : (s.mount i).offered = some c) : (setPart s k b e).block c = s.block c := by
  have hne : c ≠ .part k := by
    rintro rfl
    exact h.part_of_offered hoff free
  simp [setPart, hne]

theorem Tidy.assign (h : Tidy s) (free : s.part k = none) : Tidy (setPart s k b e) where
  cached := h.cached
  real := h.real
  owned j l hj := by
    by_cases hl : l = k
    · subst hl
      simp [setPart]
    · simpa [setPart, hl] using h.owned j l hj
  copied j c d hc hd := by
    have hdk : d ≠ .part k := by
      rintro rfl
      exact h.owned j k hd free
    rw [h.block_assign free (i := j) (by rw [Mount.offered, show (s.mount j).cbd = _ from hc]; rfl)]
    simpa [setPart, hdk] using h.copied j c d hc hd

theorem Tidy.store (h : Tidy s) {fs : FileSystem} : Tidy (storeFs s i fs) where
  cached j c hc := h.cached j c (by simpa using hc)
  real j d hd := h.real j d (by simpa using hd)
  owned j l hl := h.owned j l (by simpa using hl)
  copied j c d hc hd := h.copied j c d (by simpa using hc) (by simpa using hd)

end Assign

end Tidy

end BdmAssault.Manager
