import BdmAssault.Manager.Thread

/-! # ATA-only mode

While `g_ata_only` is set, `bdm_connect_bd` refuses foreign devices, partition
pseudo-devices included. What remains to be shown is that the filter pass leaves
none behind, and that its acknowledgement is not taken for an older one.
-/

namespace BdmAssault.Manager

open Lib

/-- The slot holds no device with a name other than "ata". -/
def SlotNative (s : Bdm) (i : Fin 20) : Prop :=
  ∀ d, (s.mount i).bd = some d → foreignName (s.block d).name = false

/-- Nothing foreign is in the table, and nothing foreign can get in. -/
structure Native (s : Bdm) : Prop where
  ataOnly : s.ataOnly = true
  slots : ∀ i, SlotNative s i

/-! ## Slots -/

section Slots

variable {s t : Bdm} {i : Fin 20}

theorem SlotNative.shrunk (h : SlotNative s i) (hst : Shrunk s t) : SlotNative t i := by
  intro d hd
  have hsame := hst.mount_of_bd hd
  rw [hst.block]
  exact h d (hsame ▸ hd)

theorem SlotNative.of_same (h : SlotNative s i) (hmount : t.mount = s.mount)
    (hblock : t.block = s.block) : SlotNative t i := by
  intro d hd
  rw [hmount] at hd
  rw [hblock]
  exact h d hd

theorem SlotNative.placed (h : SlotNative s i) (tidy : Tidy s) (ataOnly : s.ataOnly = true)
    {d : Dev} {j : Fin 20} {cbd : Option Dev} (real : ∀ n, d ≠ .cache n)
    (hp : Placed s d j cbd t) : SlotNative t i := by
  intro e he
  by_cases hij : i = j
  · subst hij
    rw [hp.self] at he
    cases he
    rw [hp.block_real real]
    exact Bool.eq_false_iff.mpr fun hforeign => hp.allowed ⟨ataOnly, hforeign⟩
  · rw [hp.other hij] at he
    rw [hp.block_real (tidy.real i e he)]
    exact h e he

theorem SlotNative.assign (h : SlotNative s i) (tidy : Tidy s) {k : Fin 10} {b : Dev} {e : Entry}
    (free : s.part k = none) : SlotNative (setPart s k b e) i := by
  intro d hd
  have hdk : d ≠ .part k := by
    rintro rfl
    exact tidy.owned i k hd free
  simpa [setPart, hdk] using h d hd

/-- After its turn in the filter loop a slot holds nothing foreign. -/
theorem filterStep_native {fuel : Nat} (h : filterStep fuel s i = some t) : SlotNative t i := by
  unfold filterStep at h
  split at h
  · rename_i hnone
    cases h
    intro d hd
    rw [hnone] at hd
    cases hd
  · rename_i bd hbd
    split at h
    · obtain ⟨steps, gone⟩ := bdmDisconnectBd_spec h
      intro d hd
      have hsame := steps.shrunk.mount_of_bd hd
      rw [hsame, hbd] at hd
      cases hd
      exact absurd (hsame ▸ hbd) (gone i)
    · rename_i hname
      cases h
      intro d hd
      rw [hbd] at hd
      cases hd
      exact Bool.eq_false_iff.mpr hname

end Slots

/-! ## The handshake -/

/-- The thread is serving a filter request. -/
def Pc.filters : Pc → Bool
  | .gate _ | .filtering _ _ | .acknowledge _ => true
  | .waiting | .mounting _ | .trying _ _ _ | .offering _ _ _ _ _ _ => false

/-- One request is under way while the caller waits, and none otherwise. It is the
event bit, the filter pass, or the acknowledgement. -/
def OneRequest (t : Thread) : Prop :=
  t.bdm.event.filter.toNat + t.pc.filters.toNat + t.filterEvent.toNat =
    if t.caller = .waiting then 1 else 0

theorem OneRequest.idle {t : Thread} (h : OneRequest t) (hcaller : t.caller ≠ .waiting) :
    t.pc.filters = false ∧ t.filterEvent = false := by
  unfold OneRequest at h
  rw [if_neg hcaller] at h
  exact ⟨Bool.toNat_eq_zero.mp (by omega), Bool.toNat_eq_zero.mp (by omega)⟩

/-- What ties the names in the table to the state of the filter request. -/
structure Filtered (t : Thread) : Prop where
  tidy : Tidy t.bdm
  request : OneRequest t
  guarded : t.guarded = true → Native t.bdm
  visited : ∀ m rest, t.pc = .filtering m rest →
    t.bdm.ataOnly = true ∧ ∀ i ∉ rest, SlotNative t.bdm i
  finished : ∀ m, t.pc = .acknowledge m → t.bdm.ataOnly = true → Native t.bdm
  acknowledged : t.filterEvent = true → t.bdm.ataOnly = true → Native t.bdm

/-- A change of the tables that adds no foreign device keeps everything that has
been established about them. -/
theorem Filtered.tables {t t' : Thread} (h : Filtered t) (tidy : Tidy t'.bdm)
    (hslots : t.bdm.ataOnly = true → ∀ i, SlotNative t.bdm i → SlotNative t'.bdm i)
    (hata : t'.bdm.ataOnly = t.bdm.ataOnly) (hpc : t'.pc = t.pc)
    (hfilter : t'.bdm.event.filter = t.bdm.event.filter) (hcaller : t'.caller = t.caller)
    (hevent : t'.filterEvent = t.filterEvent) (hguarded : t'.guarded = t.guarded) :
    Filtered t' := by
  have hnative : Native t.bdm → Native t'.bdm := fun hn =>
    ⟨hata.trans hn.ataOnly, fun i => hslots hn.ataOnly i (hn.slots i)⟩
  refine ⟨tidy, ?_, ?_, ?_, ?_, ?_⟩
  · have hreq := h.request
    unfold OneRequest at hreq ⊢
    rwa [hpc, hfilter, hcaller, hevent]
  · rw [hguarded]
    exact fun hg => hnative (h.guarded hg)
  · rw [hpc, hata]
    intro m rest hm
    obtain ⟨honly, hslot⟩ := h.visited m rest hm
    exact ⟨honly, fun i hi => hslots honly i (hslot i hi)⟩
  · rw [hpc, hata]
    exact fun m hm honly => hnative (h.finished m hm honly)
  · rw [hevent, hata]
    exact fun hev honly => hnative (h.acknowledged hev honly)

theorem Filtered.connectBd {t : Thread} (h : Filtered t) {bd : Dev} (real : ∀ n, bd ≠ .cache n)
    (owned : ∀ k, bd = .part k → t.bdm.part k ≠ none) : Filtered (t.connectBd bd) := by
  rcases t.connectBd_cases bd with hsame | ⟨i, cbd, hp, heq⟩
  · rwa [hsame]
  · have htidy : Tidy (t.connectBd bd).bdm := h.tidy.placed hp real owned
    have hevent := hp.event
    refine h.tables htidy (fun honly j hj => hj.placed h.tidy honly real hp) hp.ataOnly ?_ ?_ ?_ ?_ ?_
    · rw [heq]
    · rw [hevent]
    · rw [heq]
    · rw [heq]
    · rw [heq]

theorem Filtered.shrunk {t : Thread} (h : Filtered t) {s : Bdm} (hst : Shrunk t.bdm s)
    (tidy : Tidy s) : Filtered { t with bdm := s } := by
  obtain ⟨b, hevent⟩ := hst.event
  exact h.tables tidy (fun _ i hi => hi.shrunk hst) hst.ataOnly rfl (by rw [hevent]) rfl rfl rfl

/-- Steps of the mount branch: the tables stay, and no filter request is served
before or after. -/
theorem Filtered.advance {t : Thread} (h : Filtered t) {pc : Pc} {log : List Event}
    (hold : t.pc.filters = false) (hnew : pc.filters = false) :
    Filtered { t with pc := pc, log := log } := by
  refine ⟨h.tidy, ?_, h.guarded, fun m rest hm => ?_, fun m hm => ?_, h.acknowledged⟩
  · have hreq := h.request
    unfold OneRequest at hreq ⊢
    dsimp only
    rwa [hnew, ← hold]
  · have hm' : pc = .filtering m rest := hm
    rw [hm'] at hnew
    cases hnew
  · have hm' : pc = .acknowledge m := hm
    rw [hm'] at hnew
    cases hnew

/-! ## Steps of the handshake -/

section Handshake

variable {t : Thread}

theorem Filtered.setAtaOnly (h : Filtered t) {enable : Bool} (idle : t.caller = .idle) :
    Filtered
      { t with
        bdm := { t.bdm with ataOnly := enable }
        caller := .flagged
        guarded := t.guarded && enable } := by
  have hwait : t.caller ≠ .waiting := by rw [idle]; exact nofun
  obtain ⟨hpc, hevent⟩ := h.request.idle hwait
  refine ⟨h.tidy.of_same rfl rfl rfl, ?_, fun hg => ?_, fun m rest hm => ?_,
    fun m hm => ?_, fun hev => ?_⟩
  · have hreq := h.request
    unfold OneRequest at hreq ⊢
    rw [if_neg hwait] at hreq
    rw [if_neg (by exact nofun)]
    exact hreq
  · obtain ⟨hguard, henable⟩ := Bool.and_eq_true_iff.mp hg
    exact ⟨henable, fun i => ((h.guarded hguard).slots i).of_same rfl rfl⟩
  · have hm' : t.pc = .filtering m rest := hm
    rw [hm'] at hpc
    cases hpc
  · have hm' : t.pc = .acknowledge m := hm
    rw [hm'] at hpc
    cases hpc
  · exact absurd hev (by rw [hevent]; exact nofun)

theorem Filtered.signalFilter (h : Filtered t) (flagged : t.caller = .flagged) :
    Filtered
      { t with
        bdm := { t.bdm with event := { t.bdm.event with filter := true } }
        caller := .waiting } := by
  have hwait : t.caller ≠ .waiting := by rw [flagged]; exact nofun
  obtain ⟨hpc, hevent⟩ := h.request.idle hwait
  have hnative : Native t.bdm →
      Native { t.bdm with event := { t.bdm.event with filter := true } } := fun hn =>
    ⟨hn.ataOnly, fun i => (hn.slots i).of_same rfl rfl⟩
  refine ⟨h.tidy.of_same rfl rfl rfl, ?_, fun hg => hnative (h.guarded hg),
    fun m rest hm => ?_, fun m hm honly => hnative (h.finished m hm honly),
    fun hev honly => hnative (h.acknowledged hev honly)⟩
  · unfold OneRequest
    simp [hpc, hevent]
  · obtain ⟨honly, hslots⟩ := h.visited m rest hm
    exact ⟨honly, fun i hi => (hslots i hi).of_same rfl rfl⟩

theorem Filtered.returnAtaOnly (h : Filtered t) (waiting : t.caller = .waiting)
    (signalled : t.filterEvent = true) :
    Filtered { t with filterEvent := false, caller := .idle, guarded := t.bdm.ataOnly } := by
  refine ⟨h.tidy, ?_, h.acknowledged signalled, h.visited, h.finished, fun hev => by cases hev⟩
  have hreq := h.request
  unfold OneRequest at hreq ⊢
  rw [if_pos waiting, signalled, Bool.toNat_true] at hreq
  dsimp only
  rw [if_neg (by exact nofun), Bool.toNat_false]
  omega

theorem Filtered.wake (h : Filtered t) (hpc : t.pc = .waiting) :
    Filtered
      { t with
        bdm := { t.bdm with event := ⟨false, false, false, false⟩ }
        pc := if t.bdm.event.filter then .gate t.bdm.event.mount
          else if t.bdm.event.mount then .mounting (List.finRange 20) else .waiting } := by
  have hnative : Native t.bdm → Native { t.bdm with event := ⟨false, false, false, false⟩ } :=
    fun hn => ⟨hn.ataOnly, fun i => (hn.slots i).of_same rfl rfl⟩
  refine ⟨h.tidy.of_same rfl rfl rfl, ?_, fun hg => hnative (h.guarded hg),
    fun m rest hm => ?_, fun m hm => ?_, fun hev honly => hnative (h.acknowledged hev honly)⟩
  · have hreq := h.request
    unfold OneRequest at hreq ⊢
    rw [hpc] at hreq
    cases hf : t.bdm.event.filter with
    | true => simpa [hf, Pc.filters] using hreq
    | false =>
        rw [hf] at hreq
        cases hm : t.bdm.event.mount <;> simpa [Pc.filters] using hreq
  · cases hf : t.bdm.event.filter <;> cases hmt : t.bdm.event.mount <;> simp [hf, hmt] at hm
  · cases hf : t.bdm.event.filter <;> cases hmt : t.bdm.event.mount <;> simp [hf, hmt] at hm

/-- Moving on inside the filter branch. -/
theorem Filtered.serve (h : Filtered t) {pc : Pc} (hold : t.pc.filters = true)
    (hnew : pc.filters = true)
    (visited : ∀ m rest, pc = .filtering m rest →
      t.bdm.ataOnly = true ∧ ∀ i ∉ rest, SlotNative t.bdm i)
    (finished : ∀ m, pc = .acknowledge m → t.bdm.ataOnly = true → Native t.bdm) :
    Filtered { t with pc := pc } := by
  refine ⟨h.tidy, ?_, h.guarded, visited, finished, h.acknowledged⟩
  have hreq := h.request
  unfold OneRequest at hreq ⊢
  dsimp only
  rwa [hnew, ← hold]

theorem Filtered.acknowledge (h : Filtered t) {m : Bool} (hpc : t.pc = .acknowledge m) {pc : Pc}
    (hnew : pc.filters = false) : Filtered { t with filterEvent := true, pc := pc } := by
  have hreq := h.request
  unfold OneRequest at hreq
  rw [hpc] at hreq
  refine ⟨h.tidy, ?_, h.guarded, fun m rest hm => ?_, fun m hm => ?_, fun _ => h.finished m hpc⟩
  · unfold OneRequest
    dsimp only
    simp only [Pc.filters, Bool.toNat_true] at hreq
    rw [hnew, Bool.toNat_true, Bool.toNat_false]
    split at hreq <;> rename_i hw
    · rw [if_pos hw]
      omega
    · omega
  · have hm' : pc = .filtering m rest := hm
    rw [hm'] at hnew
    cases hnew
  · have hm' : pc = .acknowledge m := hm
    rw [hm'] at hnew
    cases hnew

end Handshake

theorem Filtered.move {t t' : Thread} {a : Act} (h : Filtered t) (step : Move t a t') :
    Filtered t' := by
  cases step with
  | connect => exact h.connectBd (fun _ => Dev.noConfusion) fun _ => Dev.noConfusion
  | disconnect hd => exact h.shrunk (bdmDisconnectBd_spec hd).1.shrunk (h.tidy.disconnect hd)
  | @connectFs fs =>
      obtain ⟨hmount, hblock, hpart, hata, hfilter⟩ := bdmConnectFs_frame t.bdm fs
      exact h.tables (h.tidy.of_same hmount hblock hpart) (fun _ i hi => hi.of_same hmount hblock) hata
        rfl hfilter rfl rfl rfl
  | registerCallback =>
      refine h.tables (h.tidy.of_same rfl rfl rfl) (fun _ i hi => hi.of_same rfl rfl) rfl rfl ?_ rfl rfl rfl
      simp only [bdmRegisterCallback]
      split <;> rfl
  | setAtaOnly idle => exact h.setAtaOnly idle
  | signalFilter flagged => exact h.signalFilter flagged
  | returnAtaOnly waiting signalled => exact h.returnAtaOnly waiting signalled
  | wake hpc => exact h.wake hpc
  | gate hpc =>
      refine h.serve (by rw [hpc]; rfl) ?_ (fun m rest hm => ?_) fun m hm honly => ?_
      · cases t.bdm.ataOnly <;> rfl
      · cases hata : t.bdm.ataOnly <;> simp [hata] at hm
        exact ⟨rfl, fun i hi => absurd (hm.2 ▸ List.mem_finRange i) hi⟩
      · rw [honly] at hm
        cases hm
  | filterEnd hpc =>
      refine h.serve (by rw [hpc]; rfl) rfl (fun m rest hm => by cases hm) fun m hm honly => ?_
      obtain ⟨-, hslots⟩ := h.visited _ _ hpc
      exact ⟨honly, fun i => hslots i (by simp)⟩
  | @filterSlot _ m i rest s hpc hf =>
      have htidy : Tidy s := by
        rcases filterStep_cases hf with rfl | ⟨bd, -, hd⟩
        · exact h.tidy
        · exact h.tidy.disconnect hd
      have hst := filterStep_shrunk hf
      obtain ⟨honly, hslots⟩ := h.visited _ _ hpc
      refine (h.shrunk hst htidy).serve (by simp [hpc, Pc.filters]) rfl (fun m' rest' hm => ?_)
        fun m hm => by cases hm
      cases hm
      refine ⟨hst.ataOnly.trans honly, fun j hj => ?_⟩
      by_cases hji : j = i
      · subst hji
        exact filterStep_native hf
      · exact (hslots j (by simp [hji, hj])).shrunk hst
  | @acknowledge _ m hpc => exact h.acknowledge hpc (by cases m <;> rfl)
  | mountEnd hpc => exact h.advance (by rw [hpc]; rfl) rfl
  | mountSlot hpc occupied unmounted => exact h.advance (by rw [hpc]; rfl) rfl
  | mountSkip hpc skip => exact h.advance (by rw [hpc]; rfl) rfl
  | tryEnd hpc => exact h.advance (by rw [hpc]; rfl) rfl
  | trySkip hpc hfs => exact h.advance (by rw [hpc]; rfl) rfl
  | offer hpc hfs => exact h.advance (by rw [hpc]; rfl) rfl
  | partitionsFull => exact h
  | @addPartition e i fs bd gen js rest k hpc free =>
      refine Filtered.connectBd ?_ (fun _ => Dev.noConfusion) fun l hl => ?_
      · exact h.tables (h.tidy.assign free) (fun _ i hi => hi.assign h.tidy free) rfl rfl rfl rfl rfl rfl
      · cases hl
        simp [setPart]
  | @accept i fs bd gen js rest hpc =>
      have hstore : Filtered { t with bdm := storeFs t.bdm i fs } := by
        refine h.tables h.tidy.store (fun _ j hj d hd => hj d (by simpa using hd)) rfl rfl ?_ rfl rfl rfl
        simp only [storeFs]
        split <;> rfl
      exact hstore.advance (by simp [hpc, Pc.filters]) rfl
  | refuse hpc => exact h.advance (by rw [hpc]; rfl) rfl

theorem filtered_invariant : threads.Invariant (fun _ _ => True) Filtered where
  init t ht := by
    obtain ⟨block, heap, rfl⟩ := ht
    refine ⟨tidy_init fun _ => rfl, rfl, fun hg => ?_, fun m rest hm => ?_, fun m hm => ?_,
      fun hev => ?_⟩
    · cases hg
    · cases hm
    · cases hm
    · cases hev
  step t a t' _ h _ step := h.move (Thread.perform_move step)

/-- From the return of `bdm_set_ata_only(1)` to the next call with 0, no mount slot
holds a device with a name other than "ata". -/
theorem ata_only_excludes_foreign {t : Thread} (h : threads.Reachable (fun _ _ => True) t)
    (hguarded : t.guarded = true) {i : Fin 20} {d : Dev} (hd : (t.bdm.mount i).bd = some d) :
    ∀ name, (t.bdm.block d).name = some name → name = "ata" := by
  intro name hname
  have hnative := ((filtered_invariant.holds h).guarded hguarded).slots i d hd
  rw [hname] at hnative
  simpa [foreignName] using hnative

/-- A hard disk and a USB disk are connected when ATA-only mode is switched on. -/
theorem ata_only_excludes_usb :
    ∃ t, threads.Reachable (fun _ _ => True) t ∧ t.guarded = true ∧ (t.bdm.mount 1).bd = none ∧
      (t.bdm.mount 0).bd = some (.drv 0) ∧
      ∀ name, (t.bdm.block (.drv 0)).name = some name → name = "ata" := by
  have hrun : (([Act.connect 0, .connect 1, .setAtaOnly true, .signalFilter, .wake] ++
      List.replicate 23 (Act.filter 1) ++ [Act.returnAtaOnly]).foldlM Thread.perform (threadInit
        (fun d => if d = .drv 0 then { usbDisk with name := some "ata" } else usbDisk) [])).map
          (fun t => (t.guarded, (t.bdm.mount 1).bd, (t.bdm.mount 0).bd)) =
            some (true, none, some (.drv 0)) := by decide +kernel
  obtain ⟨t, ht, hfacts⟩ := Option.map_eq_some_iff.mp hrun
  simp only [Prod.mk.injEq] at hfacts
  obtain ⟨hguarded, husb, hata⟩ := hfacts
  have hreach := threads_reachable_of_perform (fun _ _ => True) (.init ⟨_, _, rfl⟩)
    (fun _ _ _ => trivial) ht
  exact ⟨t, hreach, hguarded, husb, hata, ata_only_excludes_foreign hreach hguarded hata⟩

end BdmAssault.Manager
