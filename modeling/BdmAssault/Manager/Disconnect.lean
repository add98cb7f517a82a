import Mathlib.Logic.Relation
import BdmAssault.Lib.Loop
import BdmAssault.Manager.Table

/-! # What a disconnect can do

`bdm_disconnect_bd` is re-entrant, but all it does is a sequence of two kinds of
elementary removals: a mount slot is cleared when no partition slot depends on
its filesystem any more, and a partition slot is cleared when no mount slot
holds its pseudo-device. Every invariant below is checked against these two
removals only.
-/

namespace BdmAssault.Manager

open Lib

@[simp] theorem clearMount_self (s : Bdm) (i : Fin 20) :
    (clearMount s i).mount i = Mount.empty := by
  simp [clearMount]

theorem clearMount_of_ne (s : Bdm) {i j : Fin 20} (h : j ≠ i) :
    (clearMount s i).mount j = s.mount j := by
  simp [clearMount, h]

@[simp] theorem clearPart_self (s : Bdm) (k : Fin 10) : (clearPart s k).part k = none := by
  simp [clearPart]

theorem clearPart_of_ne (s : Bdm) {k l : Fin 10} (h : l ≠ k) :
    (clearPart s k).part l = s.part l := by
  simp [clearPart, h]

/-! ## Elementary removals -/

/-- One removal; `R` bounds the devices whose mount slots may be cleared. -/
inductive Shrink (R : Dev → Prop) : Bdm → Bdm → Prop where
  | mount {s : Bdm} {i : Fin 20} (allowed : ∀ bd, (s.mount i).bd = some bd → R bd)
      (childless : ∀ fs b, (s.mount i).fs = some fs → fs.isPartition = true →
        (s.mount i).offered = some b → ∀ k, s.part k ≠ some b) :
      Shrink R s (clearMount s i)
  | part {s : Bdm} {k : Fin 10} (unmounted : ∀ i, (s.mount i).bd ≠ some (.part k)) :
      Shrink R s (clearPart s k)

abbrev Shrinks (R : Dev → Prop) := Relation.ReflTransGen (Shrink R)

/-- `t` differs from `s` only by cleared slots and by the unmount notification. -/
structure Shrunk (s t : Bdm) : Prop where
  mount : ∀ i, t.mount i = s.mount i ∨ t.mount i = Mount.empty
  part : ∀ k, t.part k = s.part k ∨ t.part k = none
  block : t.block = s.block
  heap : t.heap = s.heap
  fs : t.fs = s.fs
  callback : t.callback = s.callback
  ataOnly : t.ataOnly = s.ataOnly
  event : ∃ b, t.event = { s.event with cbUmount := b }

theorem Shrunk.refl (s : Bdm) : Shrunk s s :=
  ⟨fun _ => .inl rfl, fun _ => .inl rfl, rfl, rfl, rfl, rfl, rfl, ⟨_, rfl⟩⟩

theorem Shrunk.trans {s t u : Bdm} (h₁ : Shrunk s t) (h₂ : Shrunk t u) : Shrunk s u where
  mount i := by
    rcases h₂.mount i with h | h
    · rw [h]; exact h₁.mount i
    · exact .inr h
  part k := by
    rcases h₂.part k with h | h
    · rw [h]; exact h₁.part k
    · exact .inr h
  block := h₂.block.trans h₁.block
  heap := h₂.heap.trans h₁.heap
  fs := h₂.fs.trans h₁.fs
  callback := h₂.callback.trans h₁.callback
  ataOnly := h₂.ataOnly.trans h₁.ataOnly
  event := by
    obtain ⟨b, hb⟩ := h₁.event
    obtain ⟨c, hc⟩ := h₂.event
    exact ⟨c, by rw [hc, hb]⟩

theorem Shrink.shrunk {R : Dev → Prop} {s t : Bdm} (h : Shrink R s t) : Shrunk s t := by
  cases h with
  | @mount i allowed childless =>
      refine ⟨?_, fun _ => .inl rfl, rfl, rfl, rfl, rfl, rfl, ?_⟩
      · intro j
        by_cases hj : j = i
        · subst hj; exact .inr (clearMount_self s j)
        · exact .inl (clearMount_of_ne s hj)
      · unfold clearMount
        dsimp only
        split
        · exact ⟨true, rfl⟩
        · exact ⟨s.event.cbUmount, rfl⟩
  | @part k unmounted =>
      refine ⟨fun _ => .inl rfl, ?_, rfl, rfl, rfl, rfl, rfl, ⟨_, rfl⟩⟩
      intro l
      by_cases hl : l = k
      · subst hl; exact .inr (clearPart_self s l)
      · exact .inl (clearPart_of_ne s hl)

theorem Shrinks.shrunk {R : Dev → Prop} {s t : Bdm} (h : Shrinks R s t) : Shrunk s t := by
  induction h with
  | refl => exact Shrunk.refl s
  | tail _ step ih => exact ih.trans step.shrunk

theorem Shrunk.bd_ne {s t : Bdm} (h : Shrunk s t) {i : Fin 20} {d : Dev}
    (hs : (s.mount i).bd ≠ some d) : (t.mount i).bd ≠ some d := by
  rcases h.mount i with e | e
  · rwa [e]
  · rw [e]; exact nofun

theorem Shrunk.part_ne {s t : Bdm} (h : Shrunk s t) {k : Fin 10} {b : Dev}
    (hs : s.part k ≠ some b) : t.part k ≠ some b := by
  rcases h.part k with e | e
  · rwa [e]
  · rw [e]; exact nofun

/-- A slot that still holds something was never touched. -/
theorem Shrunk.mount_of_bd {s t : Bdm} (h : Shrunk s t) {i : Fin 20} {d : Dev}
    (ht : (t.mount i).bd = some d) : t.mount i = s.mount i := by
  rcases h.mount i with e | e
  · exact e
  · rw [e] at ht; cases ht

theorem Shrunk.mount_of_offered {s t : Bdm} (h : Shrunk s t) {i : Fin 20} {b : Dev}
    (ht : (t.mount i).offered = some b) : t.mount i = s.mount i := by
  rcases h.mount i with e | e
  · exact e
  · rw [e] at ht; cases ht

theorem Shrunk.part_of_some {s t : Bdm} (h : Shrunk s t) {k : Fin 10} {b : Dev}
    (ht : t.part k = some b) : s.part k = some b := by
  rcases h.part k with e | e
  · rw [← e, ht]
  · rw [e] at ht; cases ht

/-! ## The devices a disconnect may reach -/

/-- `Within s d`: `d` itself, and the pseudo-devices below it that are removed
because a partition driver mounted their parent. -/
inductive Within (s : Bdm) (d : Dev) : Dev → Prop where
  | self : Within s d d
  | part {i : Fin 20} {k : Fin 10} {bd b : Dev} {fs : FileSystem} (h : Within s d bd)
      (mounted : (s.mount i).bd = some bd) (driver : (s.mount i).fs = some fs)
      (partition : fs.isPartition = true) (offered : (s.mount i).offered = some b)
      (child : s.part k = some b) : Within s d (.part k)

/-- A set of devices closed under taking the partitions of a mounted member. -/
def Closed (s : Bdm) (R : Dev → Prop) : Prop :=
  ∀ (i : Fin 20) (k : Fin 10) (bd b : Dev) (fs : FileSystem), R bd →
    (s.mount i).bd = some bd → (s.mount i).fs = some fs → fs.isPartition = true →
    (s.mount i).offered = some b → s.part k = some b → R (.part k)

theorem within_closed (s : Bdm) (d : Dev) : Closed s (Within s d) :=
  fun _ _ _ _ _ h mounted driver partition offered child =>
    h.part mounted driver partition offered child

theorem offered_eq_getD {m : Mount} {bd : Dev} (h : m.bd = some bd) :
    m.offered = some (m.cbd.getD bd) := by
  cases hc : m.cbd <;> simp [Mount.offered, h, hc]

section Spec

variable {s : Bdm} {R : Dev → Prop} {disconnect : Bdm → Dev → Option Bdm}

/-- What the recursive call is known to do. -/
def Removes (s : Bdm) (R : Dev → Prop) (disconnect : Bdm → Dev → Option Bdm) : Prop :=
  ∀ t d t', Shrunk s t → R d → disconnect t d = some t' →
    Shrinks R t t' ∧ ∀ i, (t'.mount i).bd ≠ some d

theorem partDisconnect_spec (hrec : Removes s R disconnect) {t t' : Bdm} {b : Dev}
    (ht : Shrunk s t) (hR : ∀ k, s.part k = some b → R (.part k))
    (h : partDisconnect disconnect t b = some t') :
    Shrinks R t t' ∧ ∀ k, t'.part k ≠ some b := by
  have body : ∀ u k v, Shrinks R t u → partDisconnectStep disconnect b u k = some v →
      Shrinks R u v ∧ v.part k ≠ some b := by
    intro u k v hu hv
    unfold partDisconnectStep at hv
    split at hv
    · rename_i hk
      obtain ⟨w, hw, rfl⟩ := Option.map_eq_some_iff.mp hv
      have hsu := ht.trans hu.shrunk
      obtain ⟨hs, gone⟩ := hrec u _ w hsu (hR k (hsu.part_of_some hk)) hw
      exact ⟨hs.tail (.part gone), by simp⟩
    · rename_i hk
      cases hv
      exact ⟨.refl, hk⟩
  have keep : ∀ u k v, Shrinks R t u → partDisconnectStep disconnect b u k = some v →
      Shrinks R t v := fun u k v hu hv => hu.trans (body u k v hu hv).1
  refine ⟨foldlM_keeps keep .refl h, fun k => ?_⟩
  exact foldlM_establishes (Q := fun k u => u.part k ≠ some b) keep
    (fun u k v hu hv => (body u k v hu hv).2)
    (fun u k v j hu hv hj => (body u k v hu hv).1.shrunk.part_ne hj)
    .refl h k (List.mem_finRange k)

theorem unmountFs_spec (closed : Closed s R) (hrec : Removes s R disconnect) {t t' : Bdm}
    {i : Fin 20} {bd : Dev} (ht : Shrunk s t) (hbd : (t.mount i).bd = some bd) (hR : R bd)
    (h : unmountFs disconnect t i bd = some t') :
    Shrinks R t t' ∧ ∀ fs b, (t'.mount i).fs = some fs → fs.isPartition = true →
      (t'.mount i).offered = some b → ∀ k, t'.part k ≠ some b := by
  have same := ht.mount_of_bd hbd
  unfold unmountFs at h
  cases hfs : (t.mount i).fs with
  | none =>
      simp only [hfs] at h
      cases h
      refine ⟨.refl, fun fs b hfs' => ?_⟩
      rw [hfs] at hfs'
      cases hfs'
  | some fs =>
      simp only [hfs, fsDisconnectBd] at h
      split at h
      · rename_i hpart
        have hoff := offered_eq_getD hbd
        obtain ⟨hs, gone⟩ := partDisconnect_spec hrec ht (b := (t.mount i).cbd.getD bd)
          (fun k hk => closed i k bd _ fs hR (same ▸ hbd) (same ▸ hfs) hpart
            (by rw [← same]; exact hoff) hk) h
        refine ⟨hs, fun fs' b _ _ hoff' => ?_⟩
        have hmount := hs.shrunk.mount_of_offered hoff'
        rw [hmount, hoff] at hoff'
        cases hoff'
        exact gone
      · rename_i hpart
        cases h
        refine ⟨.refl, fun fs' b hfs' hpart' => ?_⟩
        rw [hfs] at hfs'
        cases hfs'
        exact absurd hpart' hpart

theorem disconnectStep_spec (closed : Closed s R) (hrec : Removes s R disconnect) {t t' : Bdm}
    {i : Fin 20} {bd : Dev} (ht : Shrunk s t) (hR : R bd)
    (h : disconnectStep disconnect bd t i = some t') :
    Shrinks R t t' ∧ (t'.mount i).bd ≠ some bd := by
  unfold disconnectStep at h
  split at h
  · rename_i hbd
    obtain ⟨u, hu, rfl⟩ := Option.map_eq_some_iff.mp h
    obtain ⟨hs, childless⟩ := unmountFs_spec closed hrec ht hbd hR hu
    refine ⟨hs.tail (.mount (fun d hd => ?_) childless), by simp [Mount.empty]⟩
    have hmount := hs.shrunk.mount_of_bd hd
    rw [hmount, hbd] at hd
    cases hd
    exact hR
  · rename_i hbd
    cases h
    exact ⟨.refl, hbd⟩

/-- A disconnect is a sequence of removals inside any closed set that contains
the device, and leaves no mount slot holding it. -/
theorem bdmDisconnectBd_removes (closed : Closed s R) (fuel : Nat) :
    Removes s R (bdmDisconnectBd fuel) := by
  induction fuel with
  | zero =>
      intro t d t' _ _ h
      cases h
  | succ fuel ih =>
      intro t d t' ht hR h
      have body : ∀ u i v, Shrinks R t u → disconnectStep (bdmDisconnectBd fuel) d u i = some v →
          Shrinks R u v ∧ (v.mount i).bd ≠ some d :=
        fun u i v hu hv => disconnectStep_spec closed ih (ht.trans hu.shrunk) hR hv
      have keep : ∀ u i v, Shrinks R t u → disconnectStep (bdmDisconnectBd fuel) d u i = some v →
          Shrinks R t v := fun u i v hu hv => hu.trans (body u i v hu hv).1
      refine ⟨foldlM_keeps keep .refl h, fun i => ?_⟩
      exact foldlM_establishes (Q := fun i u => (u.mount i).bd ≠ some d) keep
        (fun u i v hu hv => (body u i v hu hv).2)
        (fun u i v j hu hv hj => (body u i v hu hv).1.shrunk.bd_ne hj)
        .refl h i (List.mem_finRange i)

end Spec

/-- The one fact about `bdm_disconnect_bd` that the invariants use. -/
theorem bdmDisconnectBd_spec {fuel : Nat} {s s' : Bdm} {d : Dev}
    (h : bdmDisconnectBd fuel s d = some s') :
    Shrinks (Within s d) s s' ∧ ∀ i, (s'.mount i).bd ≠ some d :=
  bdmDisconnectBd_removes (within_closed s d) fuel s d s' (Shrunk.refl s) .self h

end BdmAssault.Manager
