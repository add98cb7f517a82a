import BdmAssault.Manager.Slots

/-! # Partition slots and the mounts they depend on

`Coherent` relates `g_mount`, `g_part` and the cached devices. It is checked
against the elementary removals of a disconnect, against one connect, against
one partition found by a scan, and against the store that ends a mount attempt.
-/

namespace BdmAssault.Manager

open Lib

/-! ## The invariant -/

/-- `open_` holds of the device whose table is being scanned: its partitions are
connected before a partition driver is recorded for it. -/
structure Coherent (open_ : Dev → Prop) (s : Bdm) : Prop extends Tidy s where
  vacant : ∀ i, (s.mount i).bd = none → s.mount i = Mount.empty
  unshared : ∀ i j c, (s.mount i).cbd = some c → (s.mount j).cbd = some c → i = j
  linked : ∀ k b, s.part k = some b → ∃ i, (s.mount i).offered = some b ∧
    (open_ b ∨ ∃ fs, (s.mount i).fs = some fs ∧ fs.isPartition = true)
  ranked : ∃ rank : Dev → Nat, ∀ i k bd b, (s.mount i).bd = some bd →
    (s.mount i).offered = some b → s.part k = some b → rank (.part k) < rank bd

abbrev Settled := Coherent fun _ => False

theorem coherent_init {s : Bdm} (hmount : ∀ i, s.mount i = Mount.empty)
    (hpart : ∀ k, s.part k = none) : Settled s where
  toTidy := tidy_init hmount
  vacant i _ := hmount i
  unshared i j c h := by rw [hmount i] at h; cases h
  linked k b h := by rw [hpart k] at h; cases h
  ranked := ⟨fun _ => 0, fun i k bd b h => by rw [hmount i] at h; cases h⟩

section Coherent

variable {open_ : Dev → Prop} {s : Bdm}

/-- Two slots that offer the same device hold the same device. -/
theorem Coherent.bd_unique (h : Coherent open_ s) {i j : Fin 20} {b : Dev}
    (hi : (s.mount i).offered = some b) (hj : (s.mount j).offered = some b) :
    (s.mount i).bd = (s.mount j).bd := by
  rcases offered_cases hi with hc | ⟨-, hb⟩
  · obtain ⟨n, rfl⟩ := h.cached i b hc
    rw [h.unshared i j _ hc (h.cbd_of_offered hj)]
  · rw [hb, h.bd_of_offered (h.real i b hb) hj]

theorem Coherent.mono {open' : Dev → Prop} (h : Coherent open_ s) (weaker : ∀ b, open_ b → open' b) :
    Coherent open' s where
  toTidy := h.toTidy
  vacant := h.vacant
  unshared := h.unshared
  linked k b hk := by
    obtain ⟨i, hoff, hex | hfs⟩ := h.linked k b hk
    · exact ⟨i, hoff, .inl (weaker b hex)⟩
    · exact ⟨i, hoff, .inr hfs⟩
  ranked := h.ranked

/-! ## Removals -/

theorem Coherent.shrink {R : Dev → Prop} {t : Bdm} (h : Settled s) (step : Shrink R s t) :
    Settled t := by
  have hshrunk := step.shrunk
  have of_cbd : ∀ {i : Fin 20} {c : Dev}, (t.mount i).cbd = some c → (s.mount i).cbd = some c := by
    intro i c hi
    rcases hshrunk.mount i with e | e
    · rwa [← e]
    · rw [e] at hi
      cases hi
  refine ⟨h.toTidy.shrink step, fun i hi => ?_, fun i j c hi hj => h.unshared i j c (of_cbd hi) (of_cbd hj),
    fun k b hk => ?_, ?_⟩
  · rcases hshrunk.mount i with e | e
    · rw [e] at hi ⊢
      exact h.vacant i hi
    · exact e
  · obtain ⟨j, hoff, hopen⟩ := h.linked k b (hshrunk.part_of_some hk)
    obtain ⟨fs, hfs, hpart⟩ := hopen.resolve_left id
    cases step with
    | @mount i allowed childless =>
        by_cases hj : j = i
        · subst hj
          exact absurd hk (childless fs b hfs hpart hoff k)
        · refine ⟨j, ?_, .inr ⟨fs, ?_, hpart⟩⟩
          · rwa [clearMount_of_ne _ hj]
          · rwa [clearMount_of_ne _ hj]
    | part unmounted => exact ⟨j, hoff, .inr ⟨fs, hfs, hpart⟩⟩
  · obtain ⟨rank, hrank⟩ := h.ranked
    refine ⟨rank, fun i k bd b hbd hoff hk => ?_⟩
    have hsame := hshrunk.mount_of_bd hbd
    rw [hsame] at hbd hoff
    exact hrank i k bd b hbd hoff (hshrunk.part_of_some hk)

theorem Coherent.shrinks {R : Dev → Prop} {t : Bdm} (h : Settled s) (steps : Shrinks R s t) :
    Settled t := by
  induction steps with
  | refl => exact h
  | tail _ step ih => exact ih.shrink step

theorem Coherent.disconnect {fuel : Nat} {d : Dev} {s' : Bdm} (h : Settled s)
    (hd : bdmDisconnectBd fuel s d = some s') : Settled s' :=
  h.shrinks (bdmDisconnectBd_spec hd).1

/-! ## Connects -/

/-- No partition slot depends on a cached device that no slot holds. -/
theorem Coherent.part_ne_fresh (h : Coherent open_ s) {n : Nat}
    (fresh : ∀ j, (s.mount j).cbd ≠ some (.cache n)) (k : Fin 10) : s.part k ≠ some (.cache n) := by
  intro hk
  obtain ⟨i, hoff, -⟩ := h.linked k _ hk
  exact fresh i (h.cbd_of_offered hoff)

theorem Coherent.connect (h : Coherent open_ s) {d : Dev} (real : ∀ n, d ≠ .cache n)
    (owned : ∀ k, d = .part k → s.part k ≠ none) : Coherent open_ (bdmConnectBd s d) := by
  rcases bdmConnectBd_cases s d with hsame | ⟨i, cbd, hp⟩
  · rwa [hsame]
  generalize bdmConnectBd s d = t at hp
  refine ⟨h.toTidy.placed hp real owned, fun j hj => ?_, fun j l c hj hl => ?_, fun k b hk => ?_, ?_⟩
  · by_cases hji : j = i
    · subst hji
      rw [hp.self] at hj
      cases hj
    · rw [hp.other hji] at hj ⊢
      exact h.vacant j hj
  · -- the new slot's cached device is not one of the others'
    by_cases hji : j = i <;> by_cases hli : l = i
    · rw [hji, hli]
    · subst hji
      rw [hp.self] at hj
      rw [hp.other hli] at hl
      obtain ⟨n, rfl, fresh⟩ := hp.cbd_fresh hj
      exact absurd hl (fresh l)
    · subst hli
      rw [hp.self] at hl
      rw [hp.other hji] at hj
      obtain ⟨n, rfl, fresh⟩ := hp.cbd_fresh hl
      exact absurd hj (fresh j)
    · rw [hp.other hji] at hj
      rw [hp.other hli] at hl
      exact h.unshared j l c hj hl
  · rw [hp.part] at hk
    obtain ⟨j, hoff, hfs⟩ := h.linked k b hk
    have hocc : (s.mount j).bd ≠ none := by
      intro hnone
      rw [h.vacant j hnone] at hoff
      cases hoff
    exact ⟨j, by rwa [hp.occupied hocc], by rwa [hp.occupied hocc]⟩
  · obtain ⟨rank, hrank⟩ := h.ranked
    refine ⟨rank, fun j k bd b hbd hoff hk => ?_⟩
    rw [hp.part] at hk
    by_cases hji : j = i
    · subst hji
      rw [hp.self] at hbd hoff
      cases hbd
      rcases offered_cases hoff with hc | ⟨-, hb⟩
      · obtain ⟨n, rfl, fresh⟩ := hp.cbd_fresh hc
        exact absurd hk (h.part_ne_fresh fresh k)
      · -- a device connected once more: its partitions are ranked already
        cases hb
        obtain ⟨l, hoff', -⟩ := h.linked k d hk
        exact hrank l k d d (h.bd_of_offered real hoff') hoff' hk
    · rw [hp.other hji] at hbd hoff
      exact hrank j k bd b hbd hoff hk

/-! ## Scans -/

theorem Coherent.assign (h : Coherent open_ s) {k : Fin 10} {b : Dev} {e : Entry}
    (free : s.part k = none) (hopen : open_ b) {i : Fin 20} (hoff : (s.mount i).offered = some b) :
    Coherent open_ (setPart s k b e) where
  toTidy := h.toTidy.assign free
  vacant := h.vacant
  unshared := h.unshared
  linked l c hl := by
    by_cases hlk : l = k
    · subst hlk
      have hc : b = c := by simpa [setPart] using hl
      subst hc
      exact ⟨i, hoff, .inl hopen⟩
    · exact h.linked l c (by simpa [setPart, hlk] using hl)
  ranked := by
    -- nothing depends on the new pseudo-device yet, so it goes to the bottom
    obtain ⟨rank, hrank⟩ := h.ranked
    refine ⟨fun d => if d = .part k then 0 else rank d + 1, fun j l bd c hbd hc hl => ?_⟩
    have hbdk : bd ≠ .part k := by
      rintro rfl
      exact h.owned j k hbd free
    dsimp only
    rw [if_neg hbdk]
    by_cases hlk : l = k
    · subst hlk
      rw [if_pos rfl]
      omega
    · have hlt := hrank j l bd c hbd hc (by simpa [setPart, hlk] using hl)
      rw [if_neg (by simpa using hlk)]
      omega

theorem Coherent.addPartition {b : Dev} {acc : Bdm × Nat} {e : Entry}
    (h : Coherent open_ acc.1) (hopen : open_ b) {i : Fin 20}
    (hoff : (acc.1.mount i).offered = some b) : Coherent open_ (connectPartition b acc e).1 := by
  rcases connectPartition_cases b acc e with hc | ⟨k, free, hc⟩
  · rwa [hc]
  · rw [hc]
    refine (h.assign free hopen hoff).connect (fun n => Dev.noConfusion) fun l hl => ?_
    cases hl
    simp [setPart]

theorem Coherent.scan {fs : FileSystem} {a : Answer} {b : Dev} {r : Bool} {s' : Bdm}
    (h : Settled s) {i : Fin 20} (hbd : (s.mount i).bd ≠ none) (hoff : (s.mount i).offered = some b)
    (hc : fsConnectBd fs a s b = some (r, s')) : Coherent (· = b) s' := by
  refine (fsConnectBd_keeps (P := fun t => Coherent (· = b) t ∧ t.mount i = s.mount i)
    (fun acc e _ hacc => ?_) ⟨h.mono fun _ => False.elim, rfl⟩ hc).1
  refine ⟨hacc.1.addPartition rfl (i := i) (by rw [hacc.2, hoff]), ?_⟩
  rcases connectPartition_cases b acc e with hcase | ⟨k, -, hcase⟩
  · rw [hcase, hacc.2]
  · rw [hcase]
    have hsame : (setPart acc.1 k b e).mount i = s.mount i := hacc.2
    rw [← hsame] at hbd ⊢
    exact bdmConnectBd_occupied _ _ hbd

/-- Recording the filesystem closes the scan. -/
theorem Coherent.store {fs : FileSystem} (h : Coherent open_ s) {i : Fin 20}
    (hbd : (s.mount i).bd ≠ none) (hfs : (s.mount i).fs = none)
    (closes : ∀ b, open_ b → (s.mount i).offered = some b ∧ fs.isPartition = true) :
    Settled (storeFs s i fs) := by
  refine ⟨h.toTidy.store, fun j hj => ?_,
    fun j l c hj hl => h.unshared j l c (storeFs_cbd s i fs j ▸ hj) (storeFs_cbd s i fs l ▸ hl),
    fun k c hk => ?_, ?_⟩
  · rw [storeFs_bd] at hj
    have hji : j ≠ i := by
      rintro rfl
      exact hbd hj
    rw [storeFs_of_ne s fs hji]
    exact h.vacant j hj
  · obtain ⟨j, hoff, hopen | ⟨gs, hgs, hpart⟩⟩ := h.linked k c hk
    · obtain ⟨hoffi, hpart⟩ := closes c hopen
      exact ⟨i, by rw [storeFs_offered, hoffi], .inr ⟨fs, by rw [storeFs_self], hpart⟩⟩
    · have hji : j ≠ i := by
        rintro rfl
        rw [hfs] at hgs
        cases hgs
      exact ⟨j, by rw [storeFs_offered, hoff], .inr ⟨gs, by rw [storeFs_of_ne s fs hji, hgs], hpart⟩⟩
  · obtain ⟨rank, hrank⟩ := h.ranked
    exact ⟨rank, fun j k bd c hj hoff hk =>
      hrank j k bd c (storeFs_bd s i fs j ▸ hj) (storeFs_offered s i fs j ▸ hoff) hk⟩

theorem Coherent.tryMount {a : Fin 20 → Answer} {s' : Bdm} (h : Settled s) {i : Fin 20}
    (hbd : (s.mount i).bd ≠ none) (hfs : (s.mount i).fs = none) (clean : CleanAttempt s i a)
    (hm : bdmTryMount i a s = some s') : Settled s' := by
  rcases bdmTryMount_cases clean hm with rfl | ⟨j, fs, b, t, -, hoff, hc, rfl⟩
  · exact h
  · have hframe := fsConnectBd_frame hc hbd
    cases hpart : fs.isPartition with
    | true =>
        refine (h.scan hbd hoff hc).store (by rwa [hframe]) (by rw [hframe, hfs]) ?_
        rintro c rfl
        exact ⟨by rw [hframe, hoff], hpart⟩
    | false =>
        -- a filesystem that is no partition driver has no table entries
        have hsame : Settled t := by
          refine fsConnectBd_keeps (P := Settled) (fun acc e he _ => ?_) h hc
          cases fs with
          | mbr => cases hpart
          | gpt => cases hpart
          | fatfs => exact he.elim
          | other n => exact he.elim
        exact hsame.store (by rwa [hframe]) (by rw [hframe, hfs]) fun _ => False.elim

end Coherent

/-! ## Runs -/

/-- A filter step does nothing or disconnects what the slot holds. -/
theorem filterStep_cases {fuel : Nat} {s s' : Bdm} {i : Fin 20} (h : filterStep fuel s i = some s') :
    s' = s ∨ ∃ bd, (s.mount i).bd = some bd ∧ bdmDisconnectBd fuel s bd = some s' := by
  unfold filterStep at h
  split at h
  · cases h
    exact .inl rfl
  · split at h
    · exact .inr ⟨_, ‹_›, h⟩
    · cases h
      exact .inl rfl

theorem filterStep_shrunk {fuel : Nat} {s s' : Bdm} {i : Fin 20}
    (h : filterStep fuel s i = some s') : Shrunk s s' := by
  rcases filterStep_cases h with rfl | ⟨bd, -, hd⟩
  · exact Shrunk.refl _
  · exact (bdmDisconnectBd_spec hd).1.shrunk

/-- The steps that do not cut a GPT scan short after it took a partition slot. -/
def CleanOp (s : Bdm) : Op → Prop
  | .tryMount i a => CleanAttempt s i a
  | .connect _ | .disconnect _ | .setAtaOnly _ | .filter _ => True

theorem settled_invariant : tables.Invariant CleanOp Settled where
  init s hs := coherent_init hs.1 hs.2
  step s op s' _ h clean step := by
    cases step with
    | connect => exact h.connect (fun n => Dev.noConfusion) fun k => Dev.noConfusion
    | disconnect hd => exact h.disconnect hd
    | setAtaOnly =>
        exact ⟨h.toTidy.of_same rfl rfl rfl, h.vacant, h.unshared, h.linked, h.ranked⟩
    | filter hf =>
        rcases filterStep_cases hf with rfl | ⟨bd, -, hd⟩
        · exact h
        · exact h.disconnect hd
    | tryMount hbd hfs hm => exact h.tryMount hbd hfs clean hm

/-! ## Disconnecting a whole device -/

/-- With partitions ranked below their parents, the nesting of a disconnect is
bounded by the rank of the device. -/
theorem bdmDisconnectBd_total {s : Bdm} {rank : Dev → Nat}
    (hrank : ∀ i k bd b, (s.mount i).bd = some bd → (s.mount i).offered = some b →
      s.part k = some b → rank (.part k) < rank bd)
    (fuel : Nat) {t : Bdm} {d : Dev} (ht : Shrunk s t) (hd : rank d < fuel) :
    ∃ t', bdmDisconnectBd fuel t d = some t' := by
  have closed : Closed s fun _ => True := fun _ _ _ _ _ _ _ _ _ _ _ => trivial
  induction fuel generalizing t d with
  | zero => exact absurd hd (Nat.not_lt_zero _)
  | succ fuel ih =>
      have removes := bdmDisconnectBd_removes closed fuel
      -- the partitions of the device have a smaller rank
      have parts : ∀ {u : Bdm} {i : Fin 20}, Shrunk s u → (u.mount i).bd = some d →
          ∃ v, partDisconnect (bdmDisconnectBd fuel) u ((u.mount i).cbd.getD d) = some v := by
        intro u i hu hbd
        have same := hu.mount_of_bd hbd
        have hoff := offered_eq_getD hbd
        have body : ∀ w k, Shrunk s w → ∃ w', partDisconnectStep (bdmDisconnectBd fuel)
            ((u.mount i).cbd.getD d) w k = some w' ∧ Shrunk s w' := by
          intro w k hw
          unfold partDisconnectStep
          split
          · rename_i hk
            have hlt := hrank i k d _ (same ▸ hbd) (same ▸ hoff) (hw.part_of_some hk)
            obtain ⟨w', hw'⟩ := ih hw (d := .part k) (by omega)
            obtain ⟨hs, gone⟩ := removes w _ w' hw trivial hw'
            exact ⟨_, by rw [hw']; rfl, hw.trans (hs.shrunk.trans (Shrink.part (R := fun _ => True) gone).shrunk)⟩
          · exact ⟨w, rfl, hw⟩
        obtain ⟨v, hv, -⟩ := foldlM_total body (List.finRange 10) hu
        exact ⟨v, hv⟩
      have body : ∀ u i, Shrunk s u →
          ∃ v, disconnectStep (bdmDisconnectBd fuel) d u i = some v ∧ Shrunk s v := by
        intro u i hu
        have hstep : ∃ v, disconnectStep (bdmDisconnectBd fuel) d u i = some v := by
          unfold disconnectStep
          split
          · rename_i hbd
            unfold unmountFs fsDisconnectBd
            cases (u.mount i).fs with
            | none => exact ⟨_, rfl⟩
            | some fs =>
                dsimp only
                split
                · obtain ⟨v, hv⟩ := parts hu hbd
                  exact ⟨_, by rw [hv]; rfl⟩
                · exact ⟨_, rfl⟩
          · exact ⟨u, rfl⟩
        obtain ⟨v, hv⟩ := hstep
        exact ⟨v, hv, hu.trans (disconnectStep_spec closed removes hu trivial hv).1.shrunk⟩
      obtain ⟨t', h, -⟩ := foldlM_total body (List.finRange 20) ht
      exact ⟨t', h⟩

/-- The partition slots whose device lies on `d`, directly or through another
pseudo-device. -/
inductive PartitionOf (s : Bdm) (d : Dev) : Fin 10 → Prop where
  | direct {i : Fin 20} {k : Fin 10} {b : Dev} (holds : (s.mount i).bd = some d)
      (device : b = d ∨ (s.mount i).cbd = some b) (part : s.part k = some b) : PartitionOf s d k
  | nested {i : Fin 20} {j k : Fin 10} {b : Dev} (outer : PartitionOf s d j)
      (holds : (s.mount i).bd = some (.part j)) (device : b = .part j ∨ (s.mount i).cbd = some b)
      (part : s.part k = some b) : PartitionOf s d k

/-- When a device is gone from the mount slots, so are its partition slots. -/
theorem Coherent.part_gone {s s' : Bdm} (h : Settled s) (h' : Settled s') (shrunk : Shrunk s s')
    {x b : Dev} (gone : ∀ i, (s'.mount i).bd ≠ some x) {i : Fin 20} {k : Fin 10}
    (holds : (s.mount i).bd = some x) (device : b = x ∨ (s.mount i).cbd = some b)
    (part : s.part k = some b) : s'.part k = none := by
  refine (shrunk.part k).resolve_left fun same => ?_
  obtain ⟨j, hoff, -⟩ := h'.linked k b (same.trans part)
  have hj := shrunk.mount_of_offered hoff
  rw [hj] at hoff
  refine gone j ?_
  rw [hj]
  rcases device with rfl | hc
  · exact h.bd_of_offered (h.real i b holds) hoff
  · obtain ⟨n, rfl⟩ := h.cached i b hc
    rw [← h.unshared i j _ hc (h.cbd_of_offered hoff)]
    exact holds

theorem Coherent.disconnect_partition {s s' : Bdm} (h : Settled s) {fuel : Nat} {d : Dev}
    (hd : bdmDisconnectBd fuel s d = some s') {k : Fin 10} (hk : PartitionOf s d k) :
    s'.part k = none ∧ ∀ i, (s'.mount i).bd ≠ some (.part k) := by
  have h' := h.disconnect hd
  obtain ⟨steps, gone⟩ := bdmDisconnectBd_spec hd
  have unmounted : ∀ {k}, s'.part k = none → ∀ i, (s'.mount i).bd ≠ some (.part k) :=
    fun hnone i hi => h'.owned i _ hi hnone
  induction hk with
  | direct holds device part =>
      have hnone := h.part_gone h' steps.shrunk gone holds device part
      exact ⟨hnone, unmounted hnone⟩
  | nested _ holds device part ih =>
      have hnone := h.part_gone h' steps.shrunk ih.2 holds device part
      exact ⟨hnone, unmounted hnone⟩

/-! ## Partition slots never dangle -/

/-- In every run whose GPT scans are clean, each occupied partition slot belongs
to a device that a partition driver has mounted, and disconnecting a driver's
device returns and takes all its partitions with it. -/
theorem partition_slots_linked {s : Bdm} (h : tables.Reachable CleanOp s) :
    (∀ k b, s.part k = some b → ∃ i fs, ((s.mount i).bd = some b ∨ (s.mount i).cbd = some b) ∧
      (s.mount i).fs = some fs ∧ (fs = .mbr ∨ fs = .gpt)) ∧
    ∀ n, (∃ fuel s', bdmDisconnectBd fuel s (.drv n) = some s') ∧
      ∀ fuel s', bdmDisconnectBd fuel s (.drv n) = some s' → ∀ k, PartitionOf s (.drv n) k →
        s'.part k = none ∧ ∀ i, (s'.mount i).bd ≠ some (.part k) := by
  have hs : Settled s := settled_invariant.holds h
  refine ⟨fun k b hk => ?_, fun n => ⟨?_, fun fuel s' hd k => hs.disconnect_partition hd⟩⟩
  · obtain ⟨i, hoff, hopen⟩ := hs.linked k b hk
    obtain ⟨fs, hfs, hpart⟩ := hopen.resolve_left id
    refine ⟨i, fs, ?_, hfs, ?_⟩
    · rcases offered_cases hoff with hc | ⟨-, hb⟩
      · exact .inr hc
      · exact .inl hb
    · cases fs with
      | mbr => exact .inl rfl
      | gpt => exact .inr rfl
      | fatfs => cases hpart
      | other n => cases hpart
  · obtain ⟨rank, hrank⟩ := hs.ranked
    exact ⟨_, bdmDisconnectBd_total hrank (rank (.drv n) + 1) (Shrunk.refl s) (Nat.lt_succ_self _)⟩

/-- An MBR with one partition of 100 sectors from sector 63 on. -/
def mbrDisk (lba : UInt64) : Option Sector :=
  if lba = 0 then
    some (sectorOf [(0x1C2, 0x0C), (0x1C6, 63), (0x1CA, 100), (0x1FE, 0x55), (0x1FF, 0xAA)])
  else none

-- sector 1 cannot be read, so there is no GPT to scan
theorem gptHeader_mbrDisk (bd : BlockDevice) :
    gptHeader (diskAnswer mbrDisk).medium bd = none := by
  unfold gptHeader
  split
  · rfl
  · rfl

theorem cleanAttempt_mbrDisk (s : Bdm) (i : Fin 20) :
    CleanAttempt s i fun _ => diskAnswer mbrDisk := by
  rintro j bd - - - ⟨header, n, hheader, -⟩
  rw [gptHeader_mbrDisk] at hheader
  cases hheader

theorem partition_slots_linked_mbr :
    ∃ s, tables.Reachable CleanOp s ∧ s.part 0 = some (.cache 0) ∧
      ∃ i fs, ((s.mount i).bd = some (.cache 0) ∨ (s.mount i).cbd = some (.cache 0)) ∧
        (s.mount i).fs = some fs ∧ (fs = .mbr ∨ fs = .gpt) := by
  have hrun : (([Op.connect 0, .tryMount 0 fun _ => diskAnswer mbrDisk].foldlM (perform 3)
      afterPartInit).map fun s => s.part 0) = some (some (.cache 0)) := by decide +kernel
  obtain ⟨s, hs, hpart⟩ := Option.map_eq_some_iff.mp hrun
  have hreach : tables.Reachable CleanOp s := by
    refine reachable_of_perform (.init afterPartInit_init) (fun t op hop => ?_) hs
    rcases List.mem_pair.mp hop with rfl | rfl
    · trivial
    · exact cleanAttempt_mbrDisk t 0
  exact ⟨s, hreach, hpart, (partition_slots_linked hreach).1 0 (.cache 0) hpart⟩

/-- A GPT of 64 entries whose first one is in use. Sector 10 is bad, and the cache, which reads
eight sectors at once, fails from sector 8 on. -/
def damagedGptDisk (lba : UInt64) : Option Sector :=
  if lba = 1 then
    some (sectorOf [(0x00, 0x45), (0x01, 0x46), (0x02, 0x49), (0x03, 0x20), (0x04, 0x50),
      (0x05, 0x41), (0x06, 0x52), (0x07, 0x54), (0x28, 34), (0x30, 200), (0x48, 2), (0x50, 64)])
  else if lba = 2 then some (sectorOf [(0x00, 1), (0x20, 40), (0x28, 50)])
  else if lba < 8 then some (sectorOf [])
  else none

/-- The scan of a damaged table leaves a partition slot whose device nobody mounted. -/
theorem damaged_table_leaves_partition :
    ∃ s, tables.Reachable (fun _ _ => True) s ∧ ∃ k b, s.part k = some b ∧
      ¬ ∃ i fs, ((s.mount i).bd = some b ∨ (s.mount i).cbd = some b) ∧
        (s.mount i).fs = some fs ∧ (fs = .mbr ∨ fs = .gpt) := by
  have hrun : (([Op.connect 0, .tryMount 0 fun _ => diskAnswer damagedGptDisk].foldlM (perform 3)
      afterPartInit).map fun s => (s.part 0, decide (∀ i, (s.mount i).fs = none))) =
        some (some (.cache 0), true) := by decide +kernel
  obtain ⟨s, hs, hpart⟩ := Option.map_eq_some_iff.mp hrun
  obtain ⟨hpart, hfs⟩ := Prod.mk.inj hpart
  refine ⟨s, reachable_of_perform (.init afterPartInit_init) (fun _ _ _ => trivial) hs, 0, _, hpart, ?_⟩
  rintro ⟨i, fs, -, hi, -⟩
  rw [of_decide_eq_true hfs i] at hi
  cases hi

end BdmAssault.Manager
