import BdmAssault.Manager.Links

/-! # Requests through a partition pseudo-device

`part_read` and `part_write` add the partition's offset and pass the request on.
The pseudo-device's parameters come from an on-disk table entry.
-/

namespace BdmAssault.Manager

open Lib

/-! ## The requests -/

inductive Access where
  | read
  | write

/-- A request that reaches a device: `bd->read(bd, sector, buffer, count)` or the
same with `write`. -/
structure Request where
  access : Access
  bd : Dev
  sector : UInt64
  count : UInt16

/-- The common body of `part_read` and `part_write` for `g_part_bd[k]`: either the
value returned at once, or the request whose result is returned. -/
def partRequest (access : Access) (s : Bdm) (k : Fin 10) (sector : UInt64) (count : UInt16) :
    Except Int Request :=
  match s.part k with
  | none => .error (-1)
  | some bd => .ok ⟨access, bd, sector + (s.block (.part k)).sectorOffset, count⟩

def partRead (s : Bdm) (k : Fin 10) (sector : UInt64) (count : UInt16) : Except Int Request :=
  partRequest .read s k sector count

def partWrite (s : Bdm) (k : Fin 10) (sector : UInt64) (count : UInt16) : Except Int Request :=
  partRequest .write s k sector count

/-- The request stays inside the partition, the partition inside its parent, and a
request that does not fit the partition is refused. -/
structure Confined (request : Except Int Request) (part parent : BlockDevice) (sector : UInt64)
    (count : UInt16) : Prop where
  range : part.sectorOffset.toNat + part.sectorCount.toNat ≤ parent.sectorCount.toNat
  touched : ∀ r, request = .ok r → ∀ n < r.count.toNat,
    part.sectorOffset.toNat ≤ r.sector.toNat + n ∧
    r.sector.toNat + n < part.sectorOffset.toNat + part.sectorCount.toNat
  refused : ¬ sector.toNat + count.toNat ≤ part.sectorCount.toNat → ∃ e, request = .error e

theorem partRequest_confined_iff {s : Bdm} {k : Fin 10} {b : Dev} (hk : s.part k = some b)
    (access : Access) (sector : UInt64) (count : UInt16) :
    Confined (partRequest access s k sector count) (s.block (.part k)) (s.block b) sector count ↔
      (s.block (.part k)).sectorOffset.toNat + (s.block (.part k)).sectorCount.toNat ≤
        (s.block b).sectorCount.toNat ∧
      sector.toNat + count.toNat ≤ (s.block (.part k)).sectorCount.toNat := by
  have hreq : partRequest access s k sector count =
      .ok ⟨access, b, sector + (s.block (.part k)).sectorOffset, count⟩ := by
    simp [partRequest, hk]
  rw [hreq]
  constructor
  · intro h
    refine ⟨h.range, ?_⟩
    by_contra outside
    obtain ⟨e, he⟩ := h.refused outside
    cases he
  · rintro ⟨hrange, hfits⟩
    refine ⟨hrange, ?_, fun outside => absurd hfits outside⟩
    rintro r hr n hn
    cases hr
    -- the sum does not wrap, because it lies inside the parent
    have hparent := (s.block b).sectorCount.toNat_lt
    have hsum : (sector + (s.block (.part k)).sectorOffset).toNat =
        sector.toNat + (s.block (.part k)).sectorOffset.toNat := by
      rw [UInt64.toNat_add, Nat.mod_eq_of_lt (by omega)]
    rw [hsum]
    have hn' : n < count.toNat := hn
    omega

/-! ## Where the parameters come from -/

/-- Every occupied partition slot was filled from a table entry. -/
structure Made (s : Bdm) : Prop extends Tidy s where
  entry : ∀ k, s.part k ≠ none → ∃ fs m bd e, EntryOf fs m bd e ∧
    s.block (.part k) = pseudoDevice bd e

theorem Made.disconnect {s s' : Bdm} {fuel : Nat} {d : Dev} (h : Made s)
    (hd : bdmDisconnectBd fuel s d = some s') : Made s' where
  toTidy := h.toTidy.disconnect hd
  entry k hk := by
    have hshrunk := (bdmDisconnectBd_spec hd).1.shrunk
    rw [hshrunk.block]
    refine h.entry k fun hnone => hk ?_
    rcases hshrunk.part k with e | e
    · rw [e, hnone]
    · exact e

theorem Made.connect {s : Bdm} (h : Made s) {d : Dev} (real : ∀ n, d ≠ .cache n)
    (owned : ∀ k, d = .part k → s.part k ≠ none) : Made (bdmConnectBd s d) where
  toTidy := h.toTidy.connect real owned
  entry k hk := by
    rw [bdmConnectBd_part] at hk
    have hblock : (bdmConnectBd s d).block (.part k) = s.block (.part k) := by
      rcases bdmConnectBd_cases s d with hsame | ⟨i, cbd, hp⟩
      · rw [hsame]
      · exact hp.block_real fun _ => Dev.noConfusion
    rw [hblock]
    exact h.entry k hk

theorem Made.assign {s : Bdm} (h : Made s) {fs : FileSystem} {m : Medium} {k : Fin 10} {b : Dev}
    {e : Entry} (free : s.part k = none) (he : EntryOf fs m (s.block b) e) :
    Made (setPart s k b e) where
  toTidy := h.toTidy.assign free
  entry l hl := by
    by_cases hlk : l = k
    · subst hlk
      exact ⟨fs, m, s.block b, e, he, by simp [setPart]⟩
    · simpa [setPart, hlk] using h.entry l (by simpa [setPart, hlk] using hl)

theorem Made.scan {fs : FileSystem} {a : Answer} {s s' : Bdm} {b : Dev} {r : Bool}
    (h : Made s) {i : Fin 20} (hbd : (s.mount i).bd ≠ none) (hoff : (s.mount i).offered = some b)
    (hconn : fsConnectBd fs a s b = some (r, s')) : Made s' := by
  refine (fsConnectBd_keeps (P := fun t => Made t ∧ t.mount i = s.mount i ∧ t.block b = s.block b)
    (fun acc e he hacc => ?_) ⟨h, rfl, rfl⟩ hconn).1
  obtain ⟨hmade, hmount, hblock⟩ := hacc
  rcases connectPartition_cases b acc e with hcase | ⟨k, free, hcase⟩
  · rw [hcase]
    exact ⟨hmade, hmount, hblock⟩
  have hassign : Made (setPart acc.1 k b e) := hmade.assign (m := a.medium) free (by rwa [hblock])
  have hslot : (setPart acc.1 k b e).mount i = s.mount i := hmount
  have hoffacc : (acc.1.mount i).offered = some b := by rw [hmount, hoff]
  rw [hcase]
  refine ⟨hassign.connect (fun n => Dev.noConfusion) fun l hl => ?_, ?_, ?_⟩
  · cases hl
    simp [setPart]
  · rw [← hslot] at hbd ⊢
    exact bdmConnectBd_occupied _ _ hbd
  · rw [hassign.toTidy.block_connect (j := i) hoffacc, hmade.toTidy.block_assign free hoffacc, hblock]

theorem made_invariant : tables.Invariant (fun _ _ => True) Made where
  init s hs := ⟨tidy_init hs.1, fun k hk => absurd (hs.2 k) hk⟩
  step s op s' _ h _ step := by
    cases step with
    | connect => exact h.connect (fun n => Dev.noConfusion) fun k => Dev.noConfusion
    | disconnect hd => exact h.disconnect hd
    | setAtaOnly =>
        exact ⟨h.toTidy.of_same rfl rfl rfl, h.entry⟩
    | filter hf =>
        rcases filterStep_cases hf with rfl | ⟨bd, -, hd⟩
        · exact h
        · exact h.disconnect hd
    | tryMount hbd hfs hm =>
        exact bdmTryMount_keeps (fun fs ans t r t' b ht htbd htoff => ht.scan htbd htoff)
          (fun t fs ht => ⟨ht.toTidy.store, ht.entry⟩) h hbd hm

/-! ## Exactly when a request is confined -/

/-- In every reachable state, a pseudo-device carries the range of a table entry,
and a request through it is confined if and only if that range lies inside the
parent and the request inside that range. -/
theorem partition_request_confined_iff {s : Bdm} (h : tables.Reachable (fun _ _ => True) s)
    {k : Fin 10} {b : Dev} (hk : s.part k = some b) :
    ∃ fs m bd e, EntryOf fs m bd e ∧ s.block (.part k) = pseudoDevice bd e ∧
      ∀ request sector count,
        request = partRead s k sector count ∨ request = partWrite s k sector count →
        (Confined request (s.block (.part k)) (s.block b) sector count ↔
          e.firstLba.toNat + e.sectorCount.toNat ≤ (s.block b).sectorCount.toNat ∧
          sector.toNat + count.toNat ≤ e.sectorCount.toNat) := by
  obtain ⟨fs, m, bd, e, he, hblock⟩ := (made_invariant.holds h).entry k (by rw [hk]; exact nofun)
  refine ⟨fs, m, bd, e, he, hblock, fun request sector count hreq => ?_⟩
  have hoffset : (s.block (.part k)).sectorOffset = e.firstLba := by
    simp [hblock, pseudoDevice, he.sectorOffset]
  have hcount : (s.block (.part k)).sectorCount = e.sectorCount := by rw [hblock]; rfl
  rw [← hoffset, ← hcount]
  rcases hreq with rfl | rfl
  · exact partRequest_confined_iff hk .read sector count
  · exact partRequest_confined_iff hk .write sector count

/-- The partition of `mbrDisk` once the disk is mounted: sectors 63 to 162. -/
theorem mbrDisk_mounted :
    ∃ s, tables.Reachable (fun _ _ => True) s ∧ s.part 0 = some (.cache 0) ∧
      s.block (.part 0) = ⟨some "usb", 0, 1, 0x0C, 512, 63, 100⟩ ∧ s.block (.cache 0) = usbDisk := by
  have hrun : (([Op.connect 0, .tryMount 0 fun _ => diskAnswer mbrDisk].foldlM (perform 3)
      afterPartInit).map fun s => (s.part 0, s.block (.part 0), s.block (.cache 0))) =
        some (some (.cache 0), ⟨some "usb", 0, 1, 0x0C, 512, 63, 100⟩, usbDisk) := by decide +kernel
  obtain ⟨s, hs, hfacts⟩ := Option.map_eq_some_iff.mp hrun
  obtain ⟨hpart, hfacts⟩ := Prod.mk.inj hfacts
  obtain ⟨hblock, hparent⟩ := Prod.mk.inj hfacts
  exact ⟨s, reachable_of_perform (.init afterPartInit_init) (fun _ _ _ => trivial) hs, hpart, hblock,
    hparent⟩

theorem last_sector_confined :
    ∃ s, tables.Reachable (fun _ _ => True) s ∧ s.part 0 = some (.cache 0) ∧
      Confined (partWrite s 0 99 1) (s.block (.part 0)) (s.block (.cache 0)) 99 1 := by
  obtain ⟨s, hreach, hpart, hblock, hparent⟩ := mbrDisk_mounted
  obtain ⟨fs, m, bd, e, he, hentry, hiff⟩ := partition_request_confined_iff hreach hpart
  have hfirst : e.firstLba = 63 := by
    have hoffset := congrArg BlockDevice.sectorOffset (hentry.symm.trans hblock)
    simpa [pseudoDevice, he.sectorOffset] using hoffset
  have hcount : e.sectorCount = 100 := congrArg BlockDevice.sectorCount (hentry.symm.trans hblock)
  refine ⟨s, hreach, hpart, (hiff _ 99 1 (.inr rfl)).mpr ?_⟩
  rw [hfirst, hcount, hparent]
  decide

/-- A write just behind the partition is passed on to the parent. -/
theorem write_behind_partition_forwarded :
    ∃ s, tables.Reachable (fun _ _ => True) s ∧ s.part 0 = some (.cache 0) ∧
      ¬ Confined (partWrite s 0 100 1) (s.block (.part 0)) (s.block (.cache 0)) 100 1 := by
  obtain ⟨s, hreach, hpart, hblock, -⟩ := mbrDisk_mounted
  refine ⟨s, hreach, hpart, fun hconf => ?_⟩
  have hfits := ((partRequest_confined_iff hpart .write 100 1).mp hconf).2
  rw [hblock] at hfits
  exact absurd hfits (by decide)

end BdmAssault.Manager
