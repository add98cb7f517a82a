import Mathlib.Data.Finset.Card
import BdmAssault.Manager.Links

/-! # Partition tables are scanned one level deep

A pseudo-device is offered to the partition drivers like any other device; only
the test `sectorOffset != 0` keeps them from scanning it. `Nested` says what that
test relies on: pseudo-devices do not start at sector 0 of their parent.
-/

namespace BdmAssault.Manager

open Lib

/-- The partition slots whose parent is `b`. -/
def children (s : Bdm) (b : Dev) : Finset (Fin 10) :=
  Finset.univ.filter fun k => s.part k = some b

theorem mem_children {s : Bdm} {b : Dev} {k : Fin 10} : k ∈ children s b ↔ s.part k = some b := by
  simp [children]

structure Nested (s : Bdm) : Prop where
  distinct : ∀ i j d, (s.mount i).bd = some d → (s.mount j).bd = some d → i = j
  whole : ∀ i n b, (s.mount i).bd = some (.drv n) → (s.mount i).offered = some b →
    (s.block b).parNr = 0
  below : ∀ i k b, (s.mount i).bd = some (.part k) → (s.mount i).offered = some b →
    (s.block b).sectorOffset ≠ 0
  parent : ∀ i k b, s.part k = some b → (s.mount i).offered = some b →
    ∃ n, (s.mount i).bd = some (.drv n)

/-- No disk mounted as MBR has more than four pseudo-devices. -/
def FewChildren (s : Bdm) : Prop :=
  ∀ i b, (s.mount i).fs = some .mbr → (s.mount i).offered = some b → (children s b).card ≤ 4

/-! ## Removals -/

theorem Nested.shrunk {s t : Bdm} (h : Nested s) (hst : Shrunk s t) : Nested t where
  distinct i j d hi hj :=
    h.distinct i j d (hst.mount_of_bd hi ▸ hi) (hst.mount_of_bd hj ▸ hj)
  whole i n b hi hoff := by
    rw [hst.block]
    exact h.whole i n b (hst.mount_of_bd hi ▸ hi) (hst.mount_of_bd hi ▸ hoff)
  below i k b hi hoff := by
    rw [hst.block]
    exact h.below i k b (hst.mount_of_bd hi ▸ hi) (hst.mount_of_bd hi ▸ hoff)
  parent i k b hk hoff := by
    have hsame := hst.mount_of_offered hoff
    rw [hsame] at hoff ⊢
    exact h.parent i k b (hst.part_of_some hk) hoff

theorem FewChildren.shrunk {s t : Bdm} (h : FewChildren s) (hst : Shrunk s t) : FewChildren t := by
  intro i b hfs hoff
  have hsame := hst.mount_of_offered hoff
  rw [hsame] at hfs hoff
  refine le_trans (Finset.card_le_card fun k hk => ?_) (h i b hfs hoff)
  rw [mem_children] at hk ⊢
  exact hst.part_of_some hk

/-! ## Connects -/

section Connect

variable {open_ : Dev → Prop} {s : Bdm} {d b : Dev} {i : Fin 20}

theorem Nested.connect (h : Nested s) (hc : Coherent open_ s) (real : ∀ n, d ≠ .cache n)
    (new : ∀ i, (s.mount i).bd ≠ some d) (hwhole : ∀ n, d = .drv n → (s.block d).parNr = 0)
    (hbelow : ∀ k, d = .part k → (s.block d).sectorOffset ≠ 0) : Nested (bdmConnectBd s d) := by
  rcases bdmConnectBd_cases s d with hsame | ⟨i, cbd, hp⟩
  · rwa [hsame]
  generalize bdmConnectBd s d = t at hp
  refine ⟨fun j l e hj hl => ?_, fun j n b hj hoff => ?_, fun j k b hj hoff => ?_,
    fun j k b hk hoff => ?_⟩
  · by_cases hji : j = i <;> by_cases hli : l = i
    · rw [hji, hli]
    · subst hji
      rw [hp.self] at hj
      cases hj
      rw [hp.other hli] at hl
      exact absurd hl (new l)
    · subst hli
      rw [hp.self] at hl
      cases hl
      rw [hp.other hji] at hj
      exact absurd hj (new j)
    · rw [hp.other hji] at hj
      rw [hp.other hli] at hl
      exact h.distinct j l e hj hl
  · by_cases hji : j = i
    · subst hji
      rw [hp.block_new hoff]
      rw [hp.self] at hj
      cases hj
      exact hwhole n rfl
    · rw [hp.other hji] at hj hoff
      rw [hp.block_old hc.toTidy hoff]
      exact h.whole j n b hj hoff
  · by_cases hji : j = i
    · subst hji
      rw [hp.block_new hoff]
      rw [hp.self] at hj
      cases hj
      exact hbelow k rfl
    · rw [hp.other hji] at hj hoff
      rw [hp.block_old hc.toTidy hoff]
      exact h.below j k b hj hoff
  · rw [hp.part] at hk
    by_cases hji : j = i
    · -- nothing can be a child of the device that is just connected
      subst hji
      rw [hp.self] at hoff
      rcases hp.fresh with ⟨rfl, -⟩ | ⟨n, rfl, fresh, -⟩
      · cases hoff
        obtain ⟨l, hl, -⟩ := hc.linked k d hk
        exact absurd (hc.bd_of_offered real hl) (new l)
      · cases hoff
        exact absurd hk (hc.part_ne_fresh fresh k)
    · rw [hp.other hji] at hoff ⊢
      exact h.parent j k b hk hoff

theorem Nested.assign (h : Nested s) (hc : Coherent open_ s) {k : Fin 10} {e : Entry} {n : Nat}
    (free : s.part k = none) (hbd : (s.mount i).bd = some (.drv n))
    (hoff : (s.mount i).offered = some b) : Nested (setPart s k b e) := by
  refine ⟨h.distinct, fun j m c hj hjoff => ?_, fun j l c hj hjoff => ?_, fun j l c hl hjoff => ?_⟩
  · rw [hc.toTidy.block_assign free hjoff]
    exact h.whole j m c hj hjoff
  · rw [hc.toTidy.block_assign free hjoff]
    exact h.below j l c hj hjoff
  · by_cases hlk : l = k
    · subst hlk
      have hcb : b = c := by simpa [setPart] using hl
      subst hcb
      exact ⟨n, (hc.bd_unique hjoff hoff).trans hbd⟩
    · exact h.parent j l c (by simpa [setPart, hlk] using hl) hjoff

end Connect

/-! ## Scans -/

/-- The partitions of other devices are not affected by a scan. -/
theorem fsConnectBd_children {fs : FileSystem} {a : Answer} {s s' : Bdm} {b : Dev} {r : Bool}
    (h : fsConnectBd fs a s b = some (r, s')) {c : Dev} (hc : c ≠ b) :
    children s' c = children s c := by
  refine fsConnectBd_keeps (P := fun t => children t c = children s c) (fun acc e _ hacc => ?_) rfl h
  rw [← hacc]
  rcases connectPartition_cases b acc e with hcase | ⟨k, free, hcase⟩
  · rw [hcase]
  · ext l
    rw [hcase, mem_children, mem_children, bdmConnectBd_part]
    by_cases hlk : l = k
    · subst hlk
      simp [setPart, free, hc.symm]
    · simp [setPart, hlk]

theorem card_children_foldl (b : Dev) (es : List Entry) (acc : Bdm × Nat) :
    (children (es.foldl (connectPartition b) acc).1 b).card ≤
      (children acc.1 b).card + es.length := by
  induction es generalizing acc with
  | nil => simp
  | cons e es ih =>
      have hstep : (children (connectPartition b acc e).1 b).card ≤ (children acc.1 b).card + 1 := by
        rcases connectPartition_cases b acc e with hcase | ⟨k, -, hcase⟩
        · rw [hcase]
          omega
        · refine le_trans (Finset.card_le_card fun l hl => ?_) (Finset.card_insert_le k _)
          rw [hcase, mem_children, bdmConnectBd_part] at hl
          rw [Finset.mem_insert, mem_children]
          by_cases hlk : l = k
          · exact .inl hlk
          · exact .inr (by simpa [setPart, hlk] using hl)
      have hrest := ih (connectPartition b acc e)
      rw [List.foldl_cons, List.length_cons]
      omega

/-- An MBR has four entries, so a scan of it adds at most four partitions. -/
theorem partConnectMbr_children {a : Answer} {s s' : Bdm} {b : Dev} {r : Bool}
    (h : fsConnectBd .mbr a s b = some (r, s')) :
    (children s' b).card ≤ (children s b).card + 4 := by
  simp only [fsConnectBd, partConnectMbr] at h
  cases htable : mbrTable a.medium (s.block b) with
  | none =>
      rw [htable] at h
      cases h
      omega
  | some mbr =>
      rw [htable] at h
      cases h
      have hlen : (mbrEntries mbr).length ≤ 4 := by
        unfold mbrEntries
        rw [List.length_map]
        exact (List.length_filter_le _ _).trans (by simp)
      have hcard := card_children_foldl b (mbrEntries mbr) (s, 0)
      exact hcard.trans (Nat.add_le_add_left hlen _)

/-- No entry that the attempt may turn into a pseudo-device starts at sector 0. -/
def NoZeroStart (s : Bdm) (i : Fin 20) (a : Fin 20 → Answer) : Prop :=
  ∀ j fs bd, s.fs j = some fs → (s.mount i).offered = some bd → (∃ k, s.part k = none) →
    ∀ e, EntryOf fs (a j).medium (s.block bd) e → e.firstLba ≠ 0

theorem Nested.scan {fs : FileSystem} {a : Answer} {s s' : Bdm} {b : Dev} {r : Bool}
    (h : Nested s) (hset : Settled s) {i : Fin 20} (hoff : (s.mount i).offered = some b)
    (hstart : (∃ k, s.part k = none) → ∀ e, EntryOf fs a.medium (s.block b) e → e.firstLba ≠ 0)
    (hconn : fsConnectBd fs a s b = some (r, s')) : Nested s' := by
  have hbd : (s.mount i).bd ≠ none := by
    intro hnone
    rw [hset.vacant i hnone] at hoff
    cases hoff
  refine (fsConnectBd_keeps (P := fun t => Coherent (· = b) t ∧ Nested t ∧ t.mount i = s.mount i ∧
    t.block b = s.block b ∧ ∀ k, t.part k = none → s.part k = none)
    (fun acc e he hacc => ?_) ⟨hset.mono fun _ => False.elim, h, rfl, rfl, fun _ => id⟩ hconn).2.1
  obtain ⟨hcoh, hnest, hmount, hblock, hfree⟩ := hacc
  rcases connectPartition_cases b acc e with hcase | ⟨k, free, hcase⟩
  · rw [hcase]
    exact ⟨hcoh, hnest, hmount, hblock, hfree⟩
  have hoffacc : (acc.1.mount i).offered = some b := by rw [hmount, hoff]
  have hzero : (acc.1.block b).sectorOffset = 0 := by rw [hblock, he.sectorOffset]
  -- the scanned device starts at sector 0, so it is a driver's device
  have hdrv : ∃ n, (acc.1.mount i).bd = some (.drv n) := by
    cases hd : (acc.1.mount i).bd with
    | none => exact absurd (hmount ▸ hd) hbd
    | some d =>
        cases d with
        | drv n => exact ⟨n, rfl⟩
        | cache n => exact absurd rfl (hcoh.real i _ hd n)
        | part l => exact absurd hzero (hnest.below i l b hd hoffacc)
  obtain ⟨n, hn⟩ := hdrv
  have hcoh' : Coherent (· = b) (setPart acc.1 k b e) := hcoh.assign free rfl hoffacc
  have hnest' : Nested (setPart acc.1 k b e) := hnest.assign hcoh free hn hoffacc
  have hocc : ((setPart acc.1 k b e).mount i).bd ≠ none := by
    intro hnone
    exact hbd (hmount ▸ hnone)
  rw [hcase]
  refine ⟨hcase ▸ hcoh.addPartition rfl hoffacc, hnest'.connect hcoh' (fun n => Dev.noConfusion)
    (fun j hj => hcoh.owned j k hj free) (fun m => Dev.noConfusion) (fun l hl => ?_), ?_, ?_, ?_⟩
  · cases hl
    have hoffset : ((setPart acc.1 k b e).block (.part k)).sectorOffset = e.firstLba := by
      simp [setPart, pseudoDevice, hzero]
    rw [hoffset]
    exact hstart ⟨k, hfree k free⟩ e he
  · rw [bdmConnectBd_occupied _ _ hocc, ← hmount]
    rfl
  · rw [hcoh'.toTidy.block_connect (j := i) hoffacc, hcoh.toTidy.block_assign free hoffacc, hblock]
  · intro l hl
    rw [bdmConnectBd_part] at hl
    refine hfree l ?_
    by_cases hlk : l = k
    · rw [hlk, free]
    · simpa [setPart, hlk] using hl

theorem Nested.store {s : Bdm} {i : Fin 20} {fs : FileSystem} (h : Nested s) :
    Nested (storeFs s i fs) where
  distinct j l d hj hl := h.distinct j l d (by simpa using hj) (by simpa using hl)
  whole j n b hj hoff := h.whole j n b (by simpa using hj) (by simpa using hoff)
  below j k b hj hoff := h.below j k b (by simpa using hj) (by simpa using hoff)
  parent j k b hk hoff := by
    obtain ⟨n, hn⟩ := h.parent j k b hk (by simpa using hoff)
    exact ⟨n, by simpa using hn⟩

/-- A device that waits to be mounted has no partitions yet. -/
theorem children_unmounted {s : Bdm} (hset : Settled s) (h : Nested s) {i : Fin 20} {b : Dev}
    (hfs : (s.mount i).fs = none) (hoff : (s.mount i).offered = some b) : children s b = ∅ := by
  refine Finset.eq_empty_of_forall_notMem fun k hk => ?_
  rw [mem_children] at hk
  obtain ⟨j, hj, hopen⟩ := hset.linked k b hk
  obtain ⟨gs, hgs, -⟩ := hopen.resolve_left id
  obtain ⟨n, hn⟩ := h.parent j k b hk hj
  have hij : i = j := h.distinct i j (.drv n) ((hset.bd_unique hoff hj).trans hn) hn
  rw [hij, hgs] at hfs
  cases hfs

/-! ## Runs -/

/-- The steps that keep scanning one level deep: drivers connect whole devices,
each once; GPT scans are clean; and no table entry starts at sector 0. -/
def OneLevelOp (s : Bdm) : Op → Prop
  | .connect n => (s.block (.drv n)).parNr = 0 ∧ ∀ i, (s.mount i).bd ≠ some (.drv n)
  | .tryMount i a => CleanAttempt s i a ∧ NoZeroStart s i a
  | .disconnect _ | .setAtaOnly _ | .filter _ => True

/-- What a run of such steps keeps. -/
structure OneLevel (s : Bdm) : Prop where
  settled : Settled s
  nested : Nested s
  few : FewChildren s

theorem OneLevel.disconnect {s s' : Bdm} {fuel : Nat} {d : Dev} (h : OneLevel s)
    (hd : bdmDisconnectBd fuel s d = some s') : OneLevel s' := by
  have hshrunk := (bdmDisconnectBd_spec hd).1.shrunk
  exact ⟨h.settled.disconnect hd, h.nested.shrunk hshrunk, h.few.shrunk hshrunk⟩

theorem OneLevel.connect {s : Bdm} {n : Nat} (h : OneLevel s)
    (whole : (s.block (.drv n)).parNr = 0) (new : ∀ i, (s.mount i).bd ≠ some (.drv n)) :
    OneLevel (bdmConnectBd s (.drv n)) := by
  have hsettled := h.settled.connect (d := .drv n) (fun m => Dev.noConfusion) fun k => Dev.noConfusion
  refine ⟨hsettled, h.nested.connect h.settled (fun m => Dev.noConfusion) new (fun _ _ => whole)
    (fun k => Dev.noConfusion), fun i b hfs hoff => ?_⟩
  rcases bdmConnectBd_cases s (.drv n) with hsame | ⟨j, cbd, hp⟩
  · rw [hsame] at hfs hoff ⊢
    exact h.few i b hfs hoff
  · have hij : i ≠ j := by
      rintro rfl
      rw [hp.self, h.settled.vacant i hp.free] at hfs
      cases hfs
    rw [hp.other hij] at hfs hoff
    simpa [children] using h.few i b hfs hoff

theorem OneLevel.tryMount {s s' : Bdm} {i : Fin 20} {a : Fin 20 → Answer} (h : OneLevel s)
    (hbd : (s.mount i).bd ≠ none) (hfs : (s.mount i).fs = none) (clean : CleanAttempt s i a)
    (start : NoZeroStart s i a) (hm : bdmTryMount i a s = some s') : OneLevel s' := by
  have hsettled := h.settled.tryMount hbd hfs clean hm
  rcases bdmTryMount_cases clean hm with rfl | ⟨j, fs, b, t, hj, hoff, hc, rfl⟩
  · exact h
  have hnest := h.nested.scan h.settled hoff (start j fs b hj hoff) hc
  refine ⟨hsettled, hnest.store, fun l c hl hlc => ?_⟩
  rw [storeFs_offered] at hlc
  have hchildren : children (storeFs t i fs) c = children t c := rfl
  rw [hchildren]
  by_cases hli : l = i
  · -- the device just mounted had no partitions before its table was scanned
    subst hli
    rw [storeFs_self] at hl
    cases hl
    rw [fsConnectBd_frame hc hbd, hoff] at hlc
    cases hlc
    have hempty := children_unmounted h.settled h.nested hfs hoff
    have hcard := partConnectMbr_children hc
    rw [hempty, Finset.card_empty] at hcard
    omega
  · rw [storeFs_of_ne t fs hli, fsConnectBd_fs hc] at hl
    have hocc : (s.mount l).bd ≠ none := by
      intro hnone
      rw [h.settled.vacant l hnone] at hl
      cases hl
    rw [fsConnectBd_frame hc hocc] at hlc
    have hcb : c ≠ b := by
      rintro rfl
      obtain ⟨d, hd⟩ := Option.ne_none_iff_exists'.mp hbd
      exact hli (h.nested.distinct l i d ((h.settled.bd_unique hlc hoff).trans hd) hd)
    rw [fsConnectBd_children hc hcb]
    exact h.few l c hl hlc

theorem oneLevel_invariant : tables.Invariant OneLevelOp OneLevel where
  init s hs := by
    refine ⟨coherent_init hs.1 hs.2, ⟨?_, ?_, ?_, ?_⟩, ?_⟩
    all_goals
      intro i
      simp [hs.1 i, hs.2, Mount.empty, Mount.offered]
  step s op s' _ h ok step := by
    cases step with
    | connect => exact h.connect ok.1 ok.2
    | disconnect hd => exact h.disconnect hd
    | setAtaOnly =>
        have hs := h.settled
        have hn := h.nested
        exact ⟨⟨hs.toTidy.of_same rfl rfl rfl, hs.vacant, hs.unshared, hs.linked, hs.ranked⟩,
          ⟨hn.distinct, hn.whole, hn.below, hn.parent⟩, h.few⟩
    | filter hf =>
        rcases filterStep_cases hf with rfl | ⟨bd, -, hd⟩
        · exact h
        · exact h.disconnect hd
    | tryMount hbd hfs hm => exact h.tryMount hbd hfs ok.1 ok.2 hm

/-- Every parent of a partition slot is a whole device, and a disk mounted as MBR
has at most four partition slots. -/
theorem partition_parents_whole {s : Bdm} (h : tables.Reachable OneLevelOp s) :
    (∀ k b, s.part k = some b → (s.block b).parNr = 0 ∧ ∀ l, b ≠ .part l) ∧
    ∀ i b, (s.mount i).fs = some .mbr → (s.mount i).offered = some b → (children s b).card ≤ 4 := by
  obtain ⟨hset, hnest, hfew⟩ := oneLevel_invariant.holds h
  refine ⟨fun k b hk => ?_, hfew⟩
  obtain ⟨i, hoff, -⟩ := hset.linked k b hk
  obtain ⟨n, hn⟩ := hnest.parent i k b hk hoff
  refine ⟨hnest.whole i n b hn hoff, ?_⟩
  rintro l rfl
  have hbd := hset.bd_of_offered (fun n => Dev.noConfusion) hoff
  rw [hn] at hbd
  cases hbd

theorem noZeroStart_mbrDisk (s : Bdm) (i : Fin 20) :
    NoZeroStart s i fun _ => diskAnswer mbrDisk := by
  intro j fs bd _ _ _ e he
  cases fs with
  | mbr =>
      obtain ⟨mbr, htable, he⟩ := he
      have hmbr : some (masterBootRecord ((mbrDisk 0).getD default)) = some mbr := by
        unfold mbrTable at htable
        split at htable
        · cases htable
        · exact htable
      cases hmbr
      revert e
      decide +kernel
  | gpt =>
      obtain ⟨header, hheader, -⟩ := he
      rw [gptHeader_mbrDisk] at hheader
      cases hheader
  | fatfs => exact he.elim
  | other n => exact he.elim

/-- Two attempts: the disk is mounted as MBR, and its partition is refused. -/
theorem partition_parents_whole_mbr :
    ∃ s, tables.Reachable OneLevelOp s ∧ s.part 0 = some (.cache 0) ∧
      (s.block (.cache 0)).parNr = 0 ∧ (s.mount 0).fs = some .mbr ∧
      (s.mount 0).offered = some (.cache 0) ∧ (children s (.cache 0)).card ≤ 4 := by
  have hrun : (([Op.tryMount 0 fun _ => diskAnswer mbrDisk, .tryMount 1 fun _ => diskAnswer mbrDisk
      ].foldlM (perform 3) (bdmConnectBd afterPartInit (.drv 0))).map fun s =>
        (s.part 0, (s.mount 0).fs, (s.mount 0).offered)) =
          some (some (.cache 0), some .mbr, some (.cache 0)) := by decide +kernel
  obtain ⟨s, hs, hfacts⟩ := Option.map_eq_some_iff.mp hrun
  obtain ⟨hpart, hfacts⟩ := Prod.mk.inj hfacts
  obtain ⟨hfs, hoff⟩ := Prod.mk.inj hfacts
  have hconnect : tables.Reachable OneLevelOp (bdmConnectBd afterPartInit (.drv 0)) :=
    Lib.System.Reachable.next (a := .connect 0) (.init afterPartInit_init)
      ⟨rfl, fun i => nofun⟩ Step.connect
  have hreach : tables.Reachable OneLevelOp s := by
    refine reachable_of_perform hconnect (fun t op hop => ?_) hs
    rcases List.mem_pair.mp hop with rfl | rfl
    · exact ⟨cleanAttempt_mbrDisk t 0, noZeroStart_mbrDisk t 0⟩
    · exact ⟨cleanAttempt_mbrDisk t 1, noZeroStart_mbrDisk t 1⟩
  have hmain := partition_parents_whole hreach
  exact ⟨s, hreach, hpart, (hmain.1 0 _ hpart).1, hfs, hoff, hmain.2 0 _ hfs hoff⟩

/-- An MBR with one partition that starts at sector 0. -/
def hybridDisk (lba : UInt64) : Option Sector :=
  if lba = 0 then some (sectorOf [(0x1C2, 0x0C), (0x1CA, 100), (0x1FE, 0x55), (0x1FF, 0xAA)])
  else none

/-- The pseudo-device of such a partition is scanned as a disk of its own. -/
theorem hybrid_partition_scanned_again :
    ∃ s, tables.Reachable (fun _ _ => True) s ∧ ∃ k b, s.part k = some b ∧
      ¬ ((s.block b).parNr = 0 ∧ ∀ l, b ≠ .part l) := by
  have hrun : (([Op.connect 0, .tryMount 0 fun _ => diskAnswer hybridDisk,
      .tryMount 1 fun _ => diskAnswer hybridDisk].foldlM (perform 3) afterPartInit).map fun s =>
        s.part 1) = some (some (.part 0)) := by decide +kernel
  obtain ⟨s, hs, hpart⟩ := Option.map_eq_some_iff.mp hrun
  refine ⟨s, reachable_of_perform (.init afterPartInit_init) (fun _ _ _ => trivial) hs, 1, _, hpart, ?_⟩
  exact fun hwhole => hwhole.2 0 rfl

end BdmAssault.Manager
