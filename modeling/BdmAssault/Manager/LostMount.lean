import BdmAssault.Manager.Thread

/-! # No mount is lost

Events are coalesced and cleared before a pass starts, and slots change while the
pass runs. A device that waits for a filesystem is accounted for in one of three
ways: the event bit is set, the offer has been made, or the pass under way still
has it ahead.
-/

namespace BdmAssault.Manager

open Lib

/-- The pass under way will still offer slot `i` to `fs`. -/
def Ahead (t : Thread) (i : Fin 20) (fs : FileSystem) : Prop :=
  match t.pc with
  | .waiting => False
  | .gate m | .filtering m _ | .acknowledge m => m = true
  | .mounting rest => i ∈ rest
  | .trying i' js rest | .offering i' _ _ _ js rest =>
      i ∈ rest ∨ (i' = i ∧ ∃ j ∈ js, t.bdm.fs j = some fs)

/-- Every waiting device is accounted for. -/
def Accounted (t : Thread) : Prop :=
  ∀ i j fs, (t.bdm.mount i).bd ≠ none → (t.bdm.mount i).fs = none → t.bdm.fs j = some fs →
    t.bdm.event.mount = true ∨ offeredSince i fs t.log = true ∨ Ahead t i fs

theorem accounted_of_event {t : Thread} (h : t.bdm.event.mount = true) : Accounted t :=
  fun _ _ _ _ _ _ => .inl h

theorem Accounted.connectBd {t : Thread} (h : Accounted t) (bd : Dev) : Accounted (t.connectBd bd) := by
  rcases t.connectBd_cases bd with hsame | ⟨i, cbd, hp, -⟩
  · rwa [hsame]
  · refine accounted_of_event ?_
    rw [hp.event]

/-- Steps that only move the thread on keep the account if what was ahead stays
ahead or has been offered. -/
theorem Accounted.advance {t t' : Thread} (h : Accounted t) (hmount : t'.bdm.mount = t.bdm.mount)
    (hfs : t'.bdm.fs = t.bdm.fs) (hevent : t'.bdm.event.mount = t.bdm.event.mount)
    (hlog : ∀ i fs, offeredSince i fs t.log = true → offeredSince i fs t'.log = true)
    (hahead : ∀ i j fs, (t.bdm.mount i).bd ≠ none → (t.bdm.mount i).fs = none →
      t.bdm.fs j = some fs → Ahead t i fs → offeredSince i fs t'.log = true ∨ Ahead t' i fs) :
    Accounted t' := by
  intro i j fs hbd hnone hj
  rw [hmount] at hbd hnone
  rw [hfs] at hj
  rw [hevent]
  rcases h i j fs hbd hnone hj with hev | hoff | hah
  · exact .inl hev
  · exact .inr (.inl (hlog i fs hoff))
  · exact .inr (hahead i j fs hbd hnone hj hah)

/-- A disconnect only takes devices out of the account. -/
theorem Accounted.shrunk {t t' : Thread} (h : Accounted t) (hst : Shrunk t.bdm t'.bdm)
    (hlog : t'.log = t.log) (hahead : ∀ i fs, Ahead t i fs → Ahead t' i fs) : Accounted t' := by
  intro i j fs hbd hnone hj
  have hsame : t'.bdm.mount i = t.bdm.mount i := by
    refine (hst.mount i).resolve_right fun hempty => hbd ?_
    rw [hempty]
    rfl
  obtain ⟨b, hevent⟩ := hst.event
  rw [hsame] at hbd hnone
  rw [hst.fs] at hj
  rw [hlog, hevent]
  rcases h i j fs hbd hnone hj with hev | hoff | hah
  · exact .inl hev
  · exact .inr (.inl hoff)
  · exact .inr (.inr (hahead i fs hah))

theorem Accounted.move {t t' : Thread} {a : Act} (h : Accounted t) (step : Move t a t') :
    Accounted t' := by
  cases step with
  | connect => exact h.connectBd _
  | disconnect hd =>
      have hst := (bdmDisconnectBd_spec hd).1.shrunk
      refine h.shrunk hst rfl fun i fs hah => ?_
      cases hpc : t.pc <;> simp_all [Ahead, hst.fs]
  | connectFs => exact accounted_of_event rfl
  | registerCallback =>
      refine h.advance rfl rfl ?_ (fun _ _ => id) fun i j fs _ _ _ hah => .inr ?_
      · simp only [bdmRegisterCallback]
        split <;> rfl
      · exact hah
  | setAtaOnly idle => exact h.advance rfl rfl rfl (fun _ _ => id) fun _ _ _ _ _ _ hah => .inr hah
  | signalFilter flagged =>
      exact h.advance rfl rfl rfl (fun _ _ => id) fun _ _ _ _ _ _ hah => .inr hah
  | returnAtaOnly waiting signalled =>
      exact h.advance rfl rfl rfl (fun _ _ => id) fun _ _ _ _ _ _ hah => .inr hah
  | wake hpc =>
      -- the bit is cleared, but the pass that starts has every slot ahead
      intro i j fs hbd hnone hj
      rcases h i j fs hbd hnone hj with hev | hoff | hah
      · refine .inr (.inr ?_)
        cases hfilter : t.bdm.event.filter <;> simp [Ahead, hev]
      · exact .inr (.inl hoff)
      · simp [Ahead, hpc] at hah
  | @gate _ m hpc =>
      refine h.advance rfl rfl rfl (fun _ _ => id) fun i j fs _ _ _ hah => .inr ?_
      have hm : m = true := by simpa [Ahead, hpc] using hah
      cases hata : t.bdm.ataOnly <;> simp [Ahead, hm]
  | filterEnd hpc =>
      refine h.advance rfl rfl rfl (fun _ _ => id) fun i j fs _ _ _ hah => .inr ?_
      simpa [Ahead, hpc] using hah
  | filterSlot hpc hf =>
      refine h.shrunk (filterStep_shrunk hf) rfl fun i fs hah => ?_
      simpa [Ahead, hpc] using hah
  | acknowledge hpc =>
      refine h.advance rfl rfl rfl (fun _ _ => id) fun i j fs _ _ _ hah => .inr ?_
      simp only [Ahead, hpc] at hah
      simp [Ahead, hah]
  | mountEnd hpc =>
      refine h.advance rfl rfl rfl (fun _ _ => id) fun i j fs _ _ _ hah => ?_
      simp [Ahead, hpc] at hah
  | @mountSlot i₀ rest hpc occupied unmounted =>
      refine h.advance rfl rfl rfl (fun _ _ => id) fun i j fs _ _ hj hah => .inr ?_
      simp only [Ahead, hpc, List.mem_cons] at hah
      rcases hah with rfl | hrest
      · exact .inr ⟨rfl, j, List.mem_finRange j, hj⟩
      · exact .inl hrest
  | @mountSkip i₀ rest hpc skip =>
      refine h.advance rfl rfl rfl (fun _ _ => id) fun i j fs hbd hnone _ hah => .inr ?_
      simp only [Ahead, hpc, List.mem_cons] at hah
      rcases hah with rfl | hrest
      · exact absurd ⟨hbd, hnone⟩ skip
      · exact hrest
  | tryEnd hpc =>
      refine h.advance rfl rfl rfl (fun _ _ => id) fun i j fs _ _ _ hah => .inr ?_
      simpa [Ahead, hpc] using hah
  | trySkip hpc hfs =>
      refine h.advance rfl rfl rfl (fun _ _ => id) fun i j fs _ _ _ hah => .inr ?_
      simpa [Ahead, hpc, hfs] using hah
  | @offer i₀ j₀ js rest fs₀ hpc hfs =>
      refine h.advance rfl rfl rfl (fun i fs hoff => ?_) fun i j fs _ _ _ hah => ?_
      · simp [offeredSince, hoff]
      · simp only [Ahead, hpc, List.mem_cons] at hah
        rcases hah with hrest | ⟨rfl, j', rfl | hj', hfs'⟩
        · exact .inr (.inl hrest)
        · -- the offer just made
          rw [hfs] at hfs'
          cases hfs'
          exact .inl (by simp [offeredSince])
        · exact .inr (.inr ⟨rfl, j', hj', hfs'⟩)
  | partitionsFull => exact h
  | addPartition hpc free =>
      refine Accounted.connectBd ?_ _
      exact h.advance rfl rfl rfl (fun _ _ => id) fun _ _ _ _ _ _ hah => .inr hah
  | @accept i₀ fs₀ bd gen js rest hpc =>
      intro i j fs hbd hnone hj
      by_cases hi : i = i₀
      · subst hi
        simp [storeFs] at hnone
      · have hsame : (storeFs t.bdm i₀ fs₀).mount i = t.bdm.mount i := storeFs_of_ne t.bdm fs₀ hi
        simp only [hsame] at hbd hnone
        have hevent : (storeFs t.bdm i₀ fs₀).event.mount = t.bdm.event.mount := by
          simp only [storeFs]
          split <;> rfl
        rcases h i j fs hbd hnone hj with hev | hoff | hah
        · exact .inl (hevent.trans hev)
        · exact .inr (.inl hoff)
        · simp only [Ahead, hpc] at hah
          rcases hah with hrest | ⟨rfl, -⟩
          · exact .inr (.inr hrest)
          · exact absurd rfl hi
  | refuse hpc =>
      refine h.advance rfl rfl rfl (fun _ _ => id) fun i j fs _ _ _ hah => .inr ?_
      simpa [Ahead, hpc] using hah

theorem accounted_invariant : threads.Invariant (fun _ _ => True) Accounted where
  init t ht := by
    obtain ⟨block, heap, rfl⟩ := ht
    intro i j fs hbd
    exact absurd rfl hbd
  step t a t' _ h _ step := h.move (Thread.perform_move step)

/-- Whenever the BDM thread waits with `BDM_EVENT_MOUNT` clear, every device that
waits for a filesystem has been offered to every registered one. -/
theorem no_lost_mount {t : Thread} (h : threads.Reachable (fun _ _ => True) t)
    (hpc : t.pc = .waiting) (hclear : t.bdm.event.mount = false) {i j : Fin 20} {fs : FileSystem}
    (hbd : (t.bdm.mount i).bd ≠ none) (hnone : (t.bdm.mount i).fs = none)
    (hfs : t.bdm.fs j = some fs) : offeredSince i fs t.log = true := by
  rcases accounted_invariant.holds h i j fs hbd hnone hfs with hev | hoff | hah
  · rw [hclear] at hev
    cases hev
  · exact hoff
  · simp [Ahead, hpc] at hah

/-- One pass in which FatFs refuses the only device. -/
theorem no_lost_mount_refused :
    ∃ t, threads.Reachable (fun _ _ => True) t ∧ t.pc = .waiting ∧ t.bdm.event.mount = false ∧
      (t.bdm.mount 0).bd = some (.drv 0) ∧ offeredSince 0 .fatfs t.log = true := by
  have hrun : (([Act.connectFs .fatfs, .connect 0, .wake, .visit, .visit, .complete false] ++
      List.replicate 40 Act.visit).foldlM Thread.perform (threadInit (fun _ => usbDisk) [])).map
        (fun t => (t.pc, t.bdm.event.mount, (t.bdm.mount 0).bd, (t.bdm.mount 0).fs, t.bdm.fs 0)) =
          some (.waiting, false, some (.drv 0), none, some .fatfs) := by decide +kernel
  obtain ⟨t, ht, hfacts⟩ := Option.map_eq_some_iff.mp hrun
  simp only [Prod.mk.injEq] at hfacts
  obtain ⟨hpc, hevent, hbd, hnone, hfs⟩ := hfacts
  have hreach := threads_reachable_of_perform (fun _ _ => True) (.init ⟨_, _, rfl⟩)
    (fun _ _ _ => trivial) ht
  exact ⟨t, hreach, hpc, hevent, hbd,
    no_lost_mount hreach hpc hevent (by rw [hbd]; exact nofun) hnone hfs⟩

end BdmAssault.Manager
