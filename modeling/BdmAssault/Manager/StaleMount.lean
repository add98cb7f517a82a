import BdmAssault.Manager.Thread

/-! # Mounted slots and the attempts that mounted them

`bdm_try_mount` stores the filesystem when `connect_bd` has returned, without
looking at the slot again. The store is right as long as nobody takes the device
out of the slot while the attempt is under way.
-/

namespace BdmAssault.Manager

open Lib

/-- The slot whose mount attempt is under way. -/
def Pc.attempt : Pc → Option (Fin 20)
  | .trying i _ _ | .offering i _ _ _ _ _ => some i
  | .waiting | .gate _ | .filtering _ _ | .acknowledge _ | .mounting _ => none

/-- The device recorded in slot `i` was accepted by the filesystem recorded with
it, in an attempt made for the present occupant. -/
def MountedByAttempt (t : Thread) (i : Fin 20) : Prop :=
  ∀ fs, (t.bdm.mount i).fs = some fs → ∃ bd, (t.bdm.mount i).offered = some bd ∧
    .accepted i (generation t.log i) (some bd) fs ∈ t.log

/-- The disconnects that leave the slot of the attempt under way alone. -/
def AttemptUndisturbed (t : Thread) : Act → Prop
  | .disconnect n _ => ∀ i bd, t.pc.attempt = some i → (t.bdm.mount i).bd = some bd →
      ¬ Within t.bdm (.drv n) bd
  | _ => True

structure SlotsConsistent (t : Thread) : Prop where
  vacant : ∀ i, (t.bdm.mount i).bd = none → t.bdm.mount i = Mount.empty
  mounted : ∀ i, MountedByAttempt t i
  present : ∀ i, t.pc.attempt = some i → (t.bdm.mount i).bd ≠ none
  offered : ∀ i fs bd gen js rest, t.pc = .offering i fs bd gen js rest →
    bd = (t.bdm.mount i).offered ∧ gen = generation t.log i

/-! ## Slots that a step leaves alone -/

theorem Shrinks.keeps {R : Dev → Prop} {s t : Bdm} (h : Shrinks R s t) {i : Fin 20} {bd : Dev}
    (hbd : (s.mount i).bd = some bd) (hR : ¬ R bd) : t.mount i = s.mount i := by
  induction h with
  | refl => rfl
  | tail _ step ih =>
      rw [← ih]
      cases step with
      | @mount j allowed childless =>
          have hij : i ≠ j := by
            rintro rfl
            exact hR (allowed bd (by rw [ih, hbd]))
          exact clearMount_of_ne _ hij
      | part unmounted => rfl

theorem generation_cons (e : Event) (log : List Event) (i : Fin 20) :
    generation (e :: log) i = generation log i + if e = .connected i then 1 else 0 := by
  simp [generation, List.count_cons]

/-- Everything the invariant says about a slot that keeps its contents and its
generation stays true when the history grows. -/
theorem MountedByAttempt.of_same {t t' : Thread} {i : Fin 20} (h : MountedByAttempt t i)
    (hmount : t'.bdm.mount i = t.bdm.mount i) (hgen : generation t'.log i = generation t.log i)
    (hlog : ∀ e ∈ t.log, e ∈ t'.log) : MountedByAttempt t' i := by
  intro fs hfs
  rw [hmount] at hfs ⊢
  obtain ⟨bd, hoff, hmem⟩ := h fs hfs
  exact ⟨bd, hoff, hgen ▸ hlog _ hmem⟩

theorem mountedByAttempt_of_unmounted {t : Thread} {i : Fin 20} (h : (t.bdm.mount i).fs = none) :
    MountedByAttempt t i := by
  intro fs hfs
  rw [h] at hfs
  cases hfs

section Moves

variable {t : Thread}

theorem SlotsConsistent.connectBd (h : SlotsConsistent t) (bd : Dev) :
    SlotsConsistent (t.connectBd bd) := by
  rcases t.connectBd_cases bd with hsame | ⟨i, cbd, hp, heq⟩
  · rwa [hsame]
  rw [heq] at hp ⊢
  have hgen : ∀ {j}, j ≠ i → generation (.connected i :: t.log) j = generation t.log j := by
    intro j hj
    rw [generation_cons, if_neg (by simpa using hj.symm), Nat.add_zero]
  -- the slot of an attempt is occupied, so it is not the one filled
  have hattempt : ∀ {j}, t.pc.attempt = some j → j ≠ i := by
    rintro j hj rfl
    exact h.present j hj hp.free
  refine ⟨fun j hj => ?_, fun j => ?_, fun j hj => ?_, fun j fs b gen js rest hpc => ?_⟩
  · by_cases hji : j = i
    · subst hji
      rw [hp.self] at hj
      cases hj
    · rw [hp.other hji] at hj ⊢
      exact h.vacant j hj
  · by_cases hji : j = i
    · subst hji
      refine mountedByAttempt_of_unmounted ?_
      rw [hp.self, h.vacant j hp.free]
      rfl
    · exact (h.mounted j).of_same (hp.other hji) (hgen hji) fun e he => List.mem_cons_of_mem _ he
  · rw [hp.other (hattempt hj)]
    exact h.present j hj
  · have hpc' : t.pc = .offering j fs b gen js rest := hpc
    have hji : j ≠ i := hattempt (by rw [hpc']; rfl)
    rw [hp.other hji, hgen hji]
    exact h.offered j fs b gen js rest hpc

theorem SlotsConsistent.disconnect (h : SlotsConsistent t) {fuel : Nat} {d : Dev} {s : Bdm}
    (hd : bdmDisconnectBd fuel t.bdm d = some s)
    (undisturbed : ∀ i bd, t.pc.attempt = some i → (t.bdm.mount i).bd = some bd →
      ¬ Within t.bdm d bd) : SlotsConsistent { t with bdm := s } := by
  have steps := (bdmDisconnectBd_spec hd).1
  have hst := steps.shrunk
  have hkeep : ∀ {i}, t.pc.attempt = some i → s.mount i = t.bdm.mount i := by
    intro i hi
    obtain ⟨bd, hbd⟩ := Option.ne_none_iff_exists'.mp (h.present i hi)
    exact steps.keeps hbd (undisturbed i bd hi hbd)
  refine ⟨fun i hi => ?_, fun i => ?_, fun i hi => ?_, fun i fs b gen js rest hpc => ?_⟩
  · rcases hst.mount i with e | e
    · rw [e] at hi ⊢
      exact h.vacant i hi
    · exact e
  · rcases hst.mount i with e | e
    · exact (h.mounted i).of_same e rfl fun _ => id
    · exact mountedByAttempt_of_unmounted (by rw [e]; rfl)
  · rw [hkeep hi]
    exact h.present i hi
  · have hpc' : t.pc = .offering i fs b gen js rest := hpc
    rw [hkeep (by rw [hpc']; rfl)]
    exact h.offered i fs b gen js rest hpc

/-- Steps that leave the slots alone and make no new attempt. -/
theorem SlotsConsistent.of_same (h : SlotsConsistent t) {t' : Thread}
    (hmount : t'.bdm.mount = t.bdm.mount) (hgen : ∀ i, generation t'.log i = generation t.log i)
    (hlog : ∀ e ∈ t.log, e ∈ t'.log)
    (hpresent : ∀ i, t'.pc.attempt = some i → (t.bdm.mount i).bd ≠ none)
    (hoffered : ∀ i fs bd gen js rest, t'.pc = .offering i fs bd gen js rest →
      bd = (t.bdm.mount i).offered ∧ gen = generation t.log i) : SlotsConsistent t' where
  vacant i hi := by
    rw [hmount] at hi ⊢
    exact h.vacant i hi
  mounted i := (h.mounted i).of_same (by rw [hmount]) (hgen i) hlog
  present i hi := by
    rw [hmount]
    exact hpresent i hi
  offered i fs bd gen js rest hpc := by
    rw [hmount, hgen]
    exact hoffered i fs bd gen js rest hpc

theorem SlotsConsistent.accept (h : SlotsConsistent t) {i : Fin 20} {fs : FileSystem}
    {bd : Option Dev} {gen : Nat} {js rest : List (Fin 20)}
    (hpc : t.pc = .offering i fs bd gen js rest) :
    SlotsConsistent
      { t with
        bdm := storeFs t.bdm i fs
        pc := .mounting rest
        log := .accepted i gen bd fs :: t.log } := by
  obtain ⟨hbd, hgen⟩ := h.offered i fs bd gen js rest hpc
  have hpresent := h.present i (by rw [hpc]; rfl)
  have hsame : ∀ j, generation (.accepted i gen bd fs :: t.log) j = generation t.log j := fun j => by
    rw [generation_cons, if_neg (by simp), Nat.add_zero]
  refine ⟨fun j hj => ?_, fun j => ?_, fun j hj => ?_, fun j gs b g ks r hr => ?_⟩
  · have hji : j ≠ i := by
      rintro rfl
      exact hpresent (by simpa using hj)
    rw [storeFs_of_ne t.bdm fs hji]
    exact h.vacant j (by simpa using hj)
  · by_cases hji : j = i
    · -- the attempt that ends here was made for the device still in the slot
      subst hji
      intro gs hgs
      rw [storeFs_self] at hgs
      cases hgs
      obtain ⟨d, hd⟩ := Option.ne_none_iff_exists'.mp hpresent
      have hoff := offered_eq_getD hd
      refine ⟨_, by rw [storeFs_offered, hoff], ?_⟩
      rw [hsame, ← hgen, ← hoff, ← hbd]
      exact List.mem_cons_self
    · exact (h.mounted j).of_same (storeFs_of_ne t.bdm fs hji) (hsame j)
        fun e he => List.mem_cons_of_mem _ he
  · cases hj
  · cases hr

theorem SlotsConsistent.move {t' : Thread} {a : Act} (h : SlotsConsistent t)
    (undisturbed : AttemptUndisturbed t a) (step : Move t a t') : SlotsConsistent t' := by
  cases step with
  | connect => exact h.connectBd _
  | disconnect hd => exact h.disconnect hd undisturbed
  | connectFs =>
      refine h.of_same (bdmConnectFs_frame t.bdm _).1 (fun i => ?_)
        (fun e he => List.mem_cons_of_mem _ he) h.present h.offered
      simp [Thread.connectFs, generation_cons]
  | registerCallback => exact h.of_same rfl (fun _ => rfl) (fun _ => id) h.present h.offered
  | setAtaOnly idle => exact h.of_same rfl (fun _ => rfl) (fun _ => id) h.present h.offered
  | signalFilter flagged => exact h.of_same rfl (fun _ => rfl) (fun _ => id) h.present h.offered
  | returnAtaOnly waiting signalled =>
      exact h.of_same rfl (fun _ => rfl) (fun _ => id) h.present h.offered
  | wake hpc =>
      refine h.of_same rfl (fun _ => rfl) (fun _ => id) (fun i hi => ?_)
        fun i fs bd gen js rest hr => ?_
      · cases hf : t.bdm.event.filter <;> cases hm : t.bdm.event.mount <;>
          simp [hf, hm, Pc.attempt] at hi
      · cases hf : t.bdm.event.filter <;> cases hm : t.bdm.event.mount <;> simp [hf, hm] at hr
  | gate hpc =>
      refine h.of_same rfl (fun _ => rfl) (fun _ => id) (fun i hi => ?_)
        fun i fs bd gen js rest hr => ?_
      · cases hata : t.bdm.ataOnly <;> simp [hata, Pc.attempt] at hi
      · cases hata : t.bdm.ataOnly <;> simp [hata] at hr
  | filterEnd hpc =>
      exact h.of_same rfl (fun _ => rfl) (fun _ => id) (fun i hi => by cases hi)
        fun i fs bd gen js rest hr => by cases hr
  | @filterSlot _ m i₀ rest s hpc hf =>
      have hnone : ∀ i, t.pc.attempt ≠ some i := by simp [hpc, Pc.attempt]
      have hbase : SlotsConsistent { t with bdm := s } := by
        rcases filterStep_cases hf with rfl | ⟨bd, -, hd⟩
        · exact h
        · exact h.disconnect hd fun i _ hi => absurd hi (hnone i)
      exact hbase.of_same rfl (fun _ => rfl) (fun _ => id) (fun i hi => by cases hi)
        fun i fs bd gen js rest hr => by cases hr
  | @acknowledge _ m hpc =>
      refine h.of_same rfl (fun _ => rfl) (fun _ => id) (fun i hi => ?_)
        fun i fs bd gen js rest hr => ?_
      · cases m <;> simp [Pc.attempt] at hi
      · cases m <;> simp at hr
  | mountEnd hpc =>
      exact h.of_same rfl (fun _ => rfl) (fun _ => id) (fun i hi => by cases hi)
        fun i fs bd gen js rest hr => by cases hr
  | mountSlot hpc occupied unmounted =>
      refine h.of_same rfl (fun _ => rfl) (fun _ => id) (fun i hi => ?_)
        fun i fs bd gen js rest hr => by cases hr
      cases hi
      exact occupied
  | mountSkip hpc skip =>
      exact h.of_same rfl (fun _ => rfl) (fun _ => id) (fun i hi => by cases hi)
        fun i fs bd gen js rest hr => by cases hr
  | tryEnd hpc =>
      exact h.of_same rfl (fun _ => rfl) (fun _ => id) (fun i hi => by cases hi)
        fun i fs bd gen js rest hr => by cases hr
  | trySkip hpc hfs =>
      exact h.of_same rfl (fun _ => rfl) (fun _ => id) (fun i hi => h.present i (by rw [hpc]; exact hi))
        fun i fs bd gen js rest hr => by cases hr
  | offer hpc hfs =>
      refine h.of_same rfl (fun i => ?_) (fun e he => List.mem_cons_of_mem _ he)
        (fun i hi => h.present i (by rw [hpc]; exact hi)) fun i fs bd gen js rest hr => ?_
      · simp [generation_cons]
      · cases hr
        exact ⟨rfl, rfl⟩
  | partitionsFull => exact h
  | addPartition hpc free =>
      refine SlotsConsistent.connectBd ?_ _
      exact h.of_same rfl (fun _ => rfl) (fun _ => id) h.present h.offered
  | accept hpc => exact h.accept hpc
  | refuse hpc =>
      exact h.of_same rfl (fun _ => rfl) (fun _ => id) (fun i hi => h.present i (by rw [hpc]; exact hi))
        fun i fs bd gen js rest hr => by cases hr

end Moves

theorem slotsConsistent_invariant : threads.Invariant AttemptUndisturbed SlotsConsistent where
  init t ht := by
    obtain ⟨block, heap, rfl⟩ := ht
    refine ⟨fun _ _ => rfl, fun i fs hfs => ?_, fun i hi => ?_, fun i fs bd gen js rest hr => ?_⟩
    · cases hfs
    · cases hi
    · cases hr
  step t a t' _ h ok step := h.move ok (Thread.perform_move step)

/-- In every run in which no disconnect takes a device out of the slot that is
being mounted, slots are consistent. -/
theorem mount_slots_consistent {t : Thread} (h : threads.Reachable AttemptUndisturbed t)
    (i : Fin 20) :
    ((t.bdm.mount i).bd = none → (t.bdm.mount i).fs = none ∧ (t.bdm.mount i).cbd = none) ∧
      MountedByAttempt t i := by
  have hs := slotsConsistent_invariant.holds h
  refine ⟨fun hnone => ?_, hs.mounted i⟩
  rw [hs.vacant i hnone]
  exact ⟨rfl, rfl⟩

/-- FatFs accepts the device of slot 0. -/
theorem mount_slots_consistent_fatfs :
    ∃ t, threads.Reachable AttemptUndisturbed t ∧ (t.bdm.mount 0).fs = some .fatfs ∧
      MountedByAttempt t 0 := by
  have hrun : ([Act.connectFs .fatfs, .connect 0, .wake, .visit, .visit, .complete true].foldlM
      Thread.perform (threadInit (fun _ => usbDisk) [])).map (fun t => (t.bdm.mount 0).fs) =
        some (some .fatfs) := by decide +kernel
  obtain ⟨t, ht, hfs⟩ := Option.map_eq_some_iff.mp hrun
  have hreach : threads.Reachable AttemptUndisturbed t := by
    refine threads_reachable_of_perform _ (.init ⟨_, _, rfl⟩) (fun u a ha => ?_) ht
    simp only [List.mem_cons, List.not_mem_nil, or_false] at ha
    rcases ha with rfl | rfl | rfl | rfl | rfl | rfl <;> trivial
  exact ⟨t, hreach, hfs, (mount_slots_consistent hreach 0).2⟩

/-- The device is removed while FatFs looks at it, another one takes the slot, and
the result of the attempt is recorded for the newcomer. -/
theorem stale_attempt_recorded :
    ∃ t, threads.Reachable (fun _ _ => True) t ∧ ∃ i,
      ¬ (((t.bdm.mount i).bd = none → (t.bdm.mount i).fs = none ∧ (t.bdm.mount i).cbd = none) ∧
        MountedByAttempt t i) := by
  have hrun : ([Act.connectFs .fatfs, .connect 0, .wake, .visit, .visit, .disconnect 0 1,
      .connect 1, .complete true].foldlM Thread.perform (threadInit (fun _ => usbDisk) [])).map
        (fun t => ((t.bdm.mount 0).fs, (t.bdm.mount 0).offered, t.log)) =
          some (some .fatfs, some (.drv 1), [.accepted 0 1 (some (.drv 0)) .fatfs, .connected 0,
            .offered 0 .fatfs, .connected 0, .registered .fatfs]) := by decide +kernel
  obtain ⟨t, ht, hfacts⟩ := Option.map_eq_some_iff.mp hrun
  simp only [Prod.mk.injEq] at hfacts
  obtain ⟨hfs, hoff, hlog⟩ := hfacts
  refine ⟨t, threads_reachable_of_perform _ (.init ⟨_, _, rfl⟩) (fun _ _ _ => trivial) ht, 0, fun h => ?_⟩
  obtain ⟨bd, hbd, hmem⟩ := h.2 .fatfs hfs
  rw [hoff] at hbd
  cases hbd
  simp [hlog] at hmem

end BdmAssault.Manager
