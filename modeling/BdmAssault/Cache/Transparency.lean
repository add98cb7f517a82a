import Mathlib.Algebra.Group.Nat.Defs
import BdmAssault.Lib.Transition
import BdmAssault.Cache.Model

/-! # Transparency of the cached device

Runs of `_read` and `_write` over a device whose answers may fail or be short.
The invariant speaks only about blocks whose eight sectors do not run past
`2 ^ 64`: the empty marker and every block at the very end of the address space
fall outside it, and `_contains` never accepts them for a request inside the
device.
-/

namespace BdmAssault.Cache

open Lib

variable {α : Type*}

/-! ## Device behaviour and runs -/

/-- A read that reports success delivered the device's sectors. -/
def LegalRead (dev : DeviceRead α) (contents : Nat → α) : Prop :=
  ∀ (sector : UInt64) (count : UInt16), (dev sector count).result = count.toNat →
    ∀ i < count.toNat, (dev sector count).data i = contents (sector.toNat + i)

/-- A write changes sectors of its own range only, and stores the whole buffer
when it reports success. -/
structure LegalWrite (dev : DeviceWrite α) (contents : Nat → α) : Prop where
  frame : ∀ (sector : UInt64) (buffer : Nat → α) (count : UInt16) (k : Nat),
    ¬ (sector.toNat ≤ k ∧ k < sector.toNat + count.toNat) →
      (dev sector buffer count).contents k = contents k
  stored : ∀ (sector : UInt64) (buffer : Nat → α) (count : UInt16),
    (dev sector buffer count).result = count.toNat →
      ∀ i < count.toNat, (dev sector buffer count).contents (sector.toNat + i) = buffer i

/-- What the history of a run remembers: fills with their outcome, and writes. -/
inductive Event where
  | fill (b : Fin 32) (sector : UInt64) (count : UInt16) (result : Int)
  | write (sector : UInt64) (count : UInt16)
  deriving DecidableEq

structure State (α : Type*) where
  cache : BdCache α
  contents : Nat → α
  log : List Event

inductive Call (α : Type*) where
  | read (dev : DeviceRead α) (sector : UInt64) (buffer : Nat → α) (count : UInt16)
  | write (dev : DeviceWrite α) (sector : UInt64) (buffer : Nat → α) (count : UInt16)

def fillEvents (bd : BlockDevice) (c : BdCache α) (dev : DeviceRead α) (sector : UInt64)
    (count : UInt16) : List Event :=
  match route bd c sector count with
  | .miss =>
      let n := sectorsToCache bd sector
      [.fill (age c.weight).best sector n (dev sector n).result]
  | _ => []

/-- The state after a call. -/
def State.after (bd : BlockDevice) (s : State α) : Call α → State α
  | .read dev sector buffer count =>
      { cache := (read bd s.cache dev sector buffer count).cache
        contents := s.contents
        log := fillEvents bd s.cache dev sector count ++ s.log }
  | .write dev sector buffer count =>
      let r := write s.cache dev sector buffer count
      ⟨r.cache, r.contents, .write sector count :: s.log⟩

def Call.Legal (contents : Nat → α) : Call α → Prop
  | .read dev _ _ _ => LegalRead dev contents
  | .write dev _ _ _ => LegalWrite dev contents

/-- All sequences of calls on a device made by `bd_cache_create`. -/
def system (α : Type*) (bd : BlockDevice) : System (State α) (Call α) where
  init s := (∃ junk, bdCacheCreate (some bd) true true junk = some (bd, s.cache)) ∧ s.log = []
  step s call s' := call.Legal s.contents ∧ s' = s.after bd call

/-- A write that starts inside the device does not run past the last address. -/
def WriteFits (bd : BlockDevice) : Call α → Prop
  | .read _ _ _ _ => True
  | .write _ sector _ count => sector < bd.sectorCount → sector.toNat + count.toNat < 2 ^ 64

/-! ## Which fills may be served -/

/-- The cached sectors of a block at `csector` meet the range of a write. -/
def Touches (sectorCount : Nat) (csector sector : UInt64) (count : UInt16) : Prop :=
  ∃ k, csector.toNat ≤ k ∧ k < csector.toNat + 8 ∧ k < sectorCount ∧
    sector.toNat ≤ k ∧ k < sector.toNat + count.toNat

/-- `Live log b cs`: the last fill of block `b` was complete, was at `cs`, and no
later write met the sectors it brought in. -/
inductive Live (sectorCount : Nat) : List Event → Fin 32 → UInt64 → Prop where
  | fill {log b cs n} : Live sectorCount (.fill b cs n n.toNat :: log) b cs
  | otherFill {log b b' cs s n r} (ne : b' ≠ b) (h : Live sectorCount log b cs) :
      Live sectorCount (.fill b' s n r :: log) b cs
  | write {log b cs s n} (apart : ¬ Touches sectorCount cs s n)
      (h : Live sectorCount log b cs) : Live sectorCount (.write s n :: log) b cs

/-! ## Position arithmetic -/

/-- For a request that does not wrap, `_contains` accepts exactly the blocks that
do not wrap either and hold the whole request. -/
theorem contains_iff {cs s : UInt64} {n : UInt16} (fits : s.toNat + n.toNat < 2 ^ 64) :
    contains cs s n = true ↔
      cs.toNat + 8 < 2 ^ 64 ∧ cs.toNat ≤ s.toNat ∧ s.toNat + n.toNat ≤ cs.toNat + 8 := by
  have hcs := cs.toNat_lt
  simp only [contains, Bool.and_eq_true, decide_eq_true_eq, ge_iff_le, UInt64.le_iff_toNat_le,
    UInt64.toNat_add, UInt16.toNat_toUInt64, UInt64.reduceToNat]
  omega

theorem overlaps_iff {cs s : UInt64} {n : UInt16} (block : cs.toNat + 8 < 2 ^ 64)
    (fits : s.toNat + n.toNat < 2 ^ 64) :
    overlaps cs s n = true ↔ s.toNat < cs.toNat + 8 ∧ cs.toNat < s.toNat + n.toNat := by
  simp only [overlaps, Bool.and_eq_true, decide_eq_true_eq, gt_iff_lt, UInt64.lt_iff_toNat_lt,
    UInt64.toNat_add, UInt16.toNat_toUInt64, UInt64.reduceToNat]
  omega

/-- A request past the range check of `_read` lies inside the device. -/
theorem inRange_of_check {bd : BlockDevice} {s : UInt64} {n : UInt16}
    (h : ¬ (s ≥ bd.sectorCount ∨ n.toUInt64 > bd.sectorCount - s)) :
    s.toNat + n.toNat ≤ bd.sectorCount.toNat ∧ s.toNat < bd.sectorCount.toNat := by
  simp only [not_or, ge_iff_le, gt_iff_lt, UInt64.not_le, UInt64.not_lt] at h
  obtain ⟨hs, hn⟩ := h
  have hsub := UInt64.toNat_sub_of_le _ _ (UInt64.le_of_lt hs)
  rw [UInt64.lt_iff_toNat_lt] at hs
  rw [UInt64.le_iff_toNat_le, hsub, UInt16.toNat_toUInt64] at hn
  omega

/-- What the range check and the search established for a cached read. -/
structure Served (bd : BlockDevice) (c : BdCache α) (b : Fin 32) (s : UInt64) (n : UInt16) :
    Prop where
  block : (c.sector b).toNat + 8 < 2 ^ 64
  first : (c.sector b).toNat ≤ s.toNat
  last : s.toNat + n.toNat ≤ (c.sector b).toNat + 8
  inside : s.toNat + n.toNat ≤ bd.sectorCount.toNat

theorem route_hit {bd : BlockDevice} {c : BdCache α} {s : UInt64} {n : UInt16} {b : Fin 32}
    (h : route bd c s n = .hit b) : Served bd c b s n := by
  have hcount := bd.sectorCount.toNat_lt
  unfold route at h
  split at h
  · cases h
  split at h
  · cases h
  rename_i inRange
  split at h
  · cases h
  split at h
  · rename_i b' found
    cases h
    obtain ⟨inside, -⟩ := inRange_of_check inRange
    have found := List.find?_some found
    obtain ⟨block, first, last⟩ := (contains_iff (by omega)).mp found
    exact ⟨block, first, last, inside⟩
  · cases h

theorem route_miss {bd : BlockDevice} {c : BdCache α} {s : UInt64} {n : UInt16}
    (h : route bd c s n = .miss) :
    s.toNat + n.toNat ≤ bd.sectorCount.toNat ∧ s.toNat < bd.sectorCount.toNat ∧ n.toNat < 8 := by
  unfold route at h
  split at h
  · cases h
  split at h
  · cases h
  rename_i inRange
  split at h
  · cases h
  rename_i small
  obtain ⟨inside, first⟩ := inRange_of_check inRange
  simp only [not_or, ge_iff_le, UInt16.not_le, UInt16.lt_iff_toNat_lt] at small
  exact ⟨inside, first, small.2⟩

theorem sectorsToCache_toNat {bd : BlockDevice} {s : UInt64}
    (inside : s.toNat < bd.sectorCount.toNat) :
    (sectorsToCache bd s).toNat = min 8 (bd.sectorCount.toNat - s.toNat) := by
  have hle : s ≤ bd.sectorCount := UInt64.le_iff_toNat_le.mpr (Nat.le_of_lt inside)
  have hsub := UInt64.toNat_sub_of_le _ _ hle
  unfold sectorsToCache
  simp only [gt_iff_lt, UInt64.lt_iff_toNat_lt, hsub, UInt64.reduceToNat]
  split
  · rw [UInt64.toNat_toUInt16, hsub]
    omega
  · simp only [UInt16.reduceToNat]
    omega

/-! ## The invariant -/

/-- Every block that can be hit mirrors the device and comes from a live fill. -/
structure Mirrors (bd : BlockDevice) (s : State α) : Prop where
  data : ∀ b k, (s.cache.sector b).toNat + 8 < 2 ^ 64 → k < 8 →
    (s.cache.sector b).toNat + k < bd.sectorCount.toNat →
      s.cache.cache b k = s.contents ((s.cache.sector b).toNat + k)
  live : ∀ b, (s.cache.sector b).toNat + 8 < 2 ^ 64 →
    Live bd.sectorCount.toNat s.log b (s.cache.sector b)

theorem emptySector_wraps : ¬ emptySector.toNat + 8 < 2 ^ 64 := by decide

theorem mirrors_create {bd : BlockDevice} {s : State α} {junk : Fin 32 → Nat → α}
    (h : bdCacheCreate (some bd) true true junk = some (bd, s.cache)) : Mirrors bd s := by
  have hc : s.cache = ⟨fun _ => 0, fun _ => emptySector, junk⟩ := by
    simpa [bdCacheCreate] using h.symm
  constructor
  · intro b k block
    rw [hc] at block
    exact absurd block emptySector_wraps
  · intro b block
    rw [hc] at block
    exact absurd block emptySector_wraps

theorem mirrors_hit {bd : BlockDevice} {s : State α} (h : Mirrors bd s) (b : Fin 32)
    (sector : UInt64) (buffer : Nat → α) (count : UInt16) :
    Mirrors bd { s with cache := (readHit s.cache b sector buffer count).cache } :=
  ⟨h.data, h.live⟩

/-- A block written by a fill that was complete holds the device's sectors as far
as the device goes. -/
theorem fill_data {bd : BlockDevice} {s : State α} {dev : DeviceRead α} {sector : UInt64}
    (legal : LegalRead dev s.contents) (inside : sector.toNat < bd.sectorCount.toNat)
    (done : (dev sector (sectorsToCache bd sector)).result = (sectorsToCache bd sector).toNat)
    (old : Nat → α) {k : Nat} (hk : k < 8) (hin : sector.toNat + k < bd.sectorCount.toNat) :
    copySectors old (dev sector (sectorsToCache bd sector)).data
      (sectorsToCache bd sector).toNat k = s.contents (sector.toNat + k) := by
  have hn : k < (sectorsToCache bd sector).toNat := by
    rw [sectorsToCache_toNat inside]
    omega
  rw [copySectors_of_lt hn, legal _ _ done k hn]

theorem mirrors_miss {bd : BlockDevice} {s : State α} (h : Mirrors bd s) {dev : DeviceRead α}
    (legal : LegalRead dev s.contents) {sector : UInt64} (buffer : Nat → α) (count : UInt16)
    (inside : sector.toNat < bd.sectorCount.toNat) :
    Mirrors bd
      { cache := (readMiss bd s.cache dev sector buffer count).cache
        contents := s.contents
        log := .fill (age s.cache.weight).best sector (sectorsToCache bd sector)
          (dev sector (sectorsToCache bd sector)).result :: s.log } := by
  unfold readMiss
  dsimp only
  generalize age s.cache.weight = a
  split
  · constructor
    · intro b k block
      by_cases hb : b = a.best
      · subst hb
        simp only [Function.update_self] at block
        exact absurd block emptySector_wraps
      · simp only [Function.update_of_ne hb] at block ⊢
        exact h.data b k block
    · intro b block
      by_cases hb : b = a.best
      · subst hb
        simp only [Function.update_self] at block
        exact absurd block emptySector_wraps
      · simp only [Function.update_of_ne hb] at block ⊢
        exact .otherFill (Ne.symm hb) (h.live b block)
  · rename_i done
    rw [ne_eq, not_not] at done
    constructor
    · intro b k block hk hin
      by_cases hb : b = a.best
      · subst hb
        simp only [Function.update_self] at hin ⊢
        exact fill_data legal inside done _ hk hin
      · simp only [Function.update_of_ne hb] at block hin ⊢
        exact h.data b k block hk hin
    · intro b block
      by_cases hb : b = a.best
      · subst hb
        simp only [Function.update_self, done]
        exact .fill
      · simp only [Function.update_of_ne hb] at block ⊢
        exact .otherFill (Ne.symm hb) (h.live b block)

/-- A block that survives `_invalidate` shares no device sector with the write. -/
theorem not_touches_of_survives {bd : BlockDevice} {cs sector : UInt64} {count : UInt16}
    (fits : sector < bd.sectorCount → sector.toNat + count.toNat < 2 ^ 64)
    (block : cs.toNat + 8 < 2 ^ 64) (survives : overlaps cs sector count ≠ true) :
    ¬ Touches bd.sectorCount.toNat cs sector count := by
  rintro ⟨k, first, last, inside, wfirst, wlast⟩
  have hs : sector < bd.sectorCount := UInt64.lt_iff_toNat_lt.mpr (by omega)
  exact survives ((overlaps_iff block (fits hs)).mpr (by omega))

theorem mirrors_write {bd : BlockDevice} {s : State α} (h : Mirrors bd s) {dev : DeviceWrite α}
    (legal : LegalWrite dev s.contents) {sector : UInt64} (buffer : Nat → α) {count : UInt16}
    (fits : sector < bd.sectorCount → sector.toNat + count.toNat < 2 ^ 64) :
    Mirrors bd (s.after bd (.write dev sector buffer count)) := by
  have kept : ∀ b, ((invalidate s.cache sector count).sector b).toNat + 8 < 2 ^ 64 →
      (invalidate s.cache sector count).sector b = s.cache.sector b ∧
        ¬ Touches bd.sectorCount.toNat (s.cache.sector b) sector count := by
    intro b block
    simp only [invalidate] at block ⊢
    split at block
    · exact absurd block emptySector_wraps
    · rename_i survives
      rw [if_neg survives]
      exact ⟨rfl, not_touches_of_survives fits block survives⟩
  constructor
  · intro b k block hk hin
    obtain ⟨same, apart⟩ := kept b block
    simp only [State.after, write] at block hin ⊢
    rw [same] at block hin ⊢
    have hframe := legal.frame sector buffer count ((s.cache.sector b).toNat + k)
      (fun hr => apart ⟨_, by omega, by omega, hin, hr.1, hr.2⟩)
    rw [hframe]
    exact h.data b k block hk hin
  · intro b block
    obtain ⟨same, apart⟩ := kept b block
    simp only [State.after, write] at block ⊢
    rw [same] at block ⊢
    exact .write apart (h.live b block)

theorem mirrors_read {bd : BlockDevice} {s : State α} (h : Mirrors bd s) {dev : DeviceRead α}
    (legal : LegalRead dev s.contents) (sector : UInt64) (buffer : Nat → α) (count : UInt16) :
    Mirrors bd (s.after bd (.read dev sector buffer count)) := by
  simp only [State.after, read, fillEvents]
  cases hr : route bd s.cache sector count with
  | empty => exact h
  | outOfRange => exact h
  | direct => exact h
  | hit b => exact mirrors_hit h b sector buffer count
  | miss => exact mirrors_miss h legal buffer count (route_miss hr).2.1

theorem mirrors_invariant (bd : BlockDevice) :
    (system α bd).Invariant (fun _ call => WriteFits bd call) (Mirrors bd) where
  init := by
    rintro s ⟨⟨junk, created⟩, -⟩
    exact mirrors_create created
  step := by
    rintro s call s' - h fits ⟨legal, rfl⟩
    cases call with
    | read dev sector buffer count => exact mirrors_read h legal sector buffer count
    | write dev sector buffer count => exact mirrors_write h legal buffer fits

/-! ## Transparency -/

theorem read_of_mirrors {bd : BlockDevice} {s : State α} (h : Mirrors bd s) {dev : DeviceRead α}
    (legal : LegalRead dev s.contents) (sector : UInt64) (buffer : Nat → α) (count : UInt16)
    (done : (read bd s.cache dev sector buffer count).ret = count.toNat) {i : Nat}
    (hi : i < count.toNat) :
    (read bd s.cache dev sector buffer count).buffer i = s.contents (sector.toNat + i) := by
  unfold read at done ⊢
  cases hr : route bd s.cache sector count with
  | empty =>
      simp only [hr] at done
      omega
  | outOfRange =>
      simp only [hr, eio] at done
      omega
  | direct =>
      simp only [hr] at done ⊢
      rw [copySectors_of_lt hi, legal _ _ done i hi]
  | hit b =>
      have served := route_hit hr
      have hoffset : (sector - s.cache.sector b).toNat = sector.toNat - (s.cache.sector b).toNat :=
        UInt64.toNat_sub_of_le _ _ (UInt64.le_iff_toNat_le.mpr served.first)
      have hfirst := served.first
      have hlast := served.last
      have hinside := served.inside
      simp only [readHit]
      rw [copySectors_of_lt hi, hoffset, h.data b _ served.block (by omega) (by omega)]
      congr 1
      omega
  | miss =>
      obtain ⟨inside, first, small⟩ := route_miss hr
      simp only [hr, readMiss] at done ⊢
      generalize age s.cache.weight = a at done ⊢
      split at done
      · dsimp only at done
        split at done
        · omega
        · simp only [eio] at done
          omega
      · rename_i full
        rw [if_neg full]
        rw [ne_eq, not_not] at full
        simp only [Function.update_self]
        rw [copySectors_of_lt hi]
        exact fill_data legal first full _ (by omega) (by omega)

/-- In every run whose writes fit, a cached read that reports success delivers
what the device holds, and a hit is served only from a live fill. -/
theorem read_transparent {bd : BlockDevice} {s : State α}
    (h : (system α bd).Reachable (fun _ call => WriteFits bd call) s) {dev : DeviceRead α}
    (legal : LegalRead dev s.contents) (sector : UInt64) (buffer : Nat → α) (count : UInt16) :
    ((read bd s.cache dev sector buffer count).ret = count.toNat → ∀ i < count.toNat,
      (read bd s.cache dev sector buffer count).buffer i = s.contents (sector.toNat + i)) ∧
    ∀ b, route bd s.cache sector count = .hit b →
      Live bd.sectorCount.toNat s.log b (s.cache.sector b) := by
  have hm := (mirrors_invariant bd).holds h
  refine ⟨fun done i hi => read_of_mirrors hm legal sector buffer count done hi, ?_⟩
  intro b hit
  exact hm.live b (route_hit hit).block

/-! ## Concrete devices -/

/-- The device that answers every read in full. -/
def honestRead (contents : Nat → α) : DeviceRead α :=
  fun sector count => ⟨count.toNat, fun i => contents (sector.toNat + i)⟩

/-- The device that stores the first sector of every request and reports it. -/
def oneSectorWrite (contents : Nat → α) : DeviceWrite α :=
  fun sector buffer count =>
    if count = 0 then ⟨0, contents⟩
    else ⟨1, Function.update contents sector.toNat (buffer 0)⟩

theorem honestRead_legal (contents : Nat → α) : LegalRead (honestRead contents) contents :=
  fun _ _ _ _ _ => rfl

theorem oneSectorWrite_legal (contents : Nat → α) :
    LegalWrite (oneSectorWrite contents) contents where
  frame := by
    intro sector buffer count k outside
    unfold oneSectorWrite
    split
    · rfl
    · rename_i nonzero
      have hpos : 0 < count.toNat := by
        have := mt UInt16.toNat_inj.mp nonzero
        simp only [UInt16.reduceToNat] at this
        omega
      exact Function.update_of_ne (by omega) _ _
  stored := by
    intro sector buffer count done i hi
    unfold oneSectorWrite at done ⊢
    split at done
    · simp only at done
      omega
    · rename_i nonzero
      simp only at done
      have hzero : i = 0 := by omega
      subst hzero
      simp [nonzero]

def freshState (contents : Nat → α) : State α :=
  ⟨⟨fun _ => 0, fun _ => emptySector, fun _ => contents⟩, contents, []⟩

theorem freshState_init (bd : BlockDevice) (contents : Nat → α) :
    (system α bd).init (freshState contents) := ⟨⟨fun _ => contents, rfl⟩, rfl⟩

/-- A block is filled at `fill`, and a write of five sectors from `store` puts its
first sector on the device only. -/
def fillThenWrite (bd : BlockDevice) (fill store : UInt64) : State Nat :=
  ((freshState fun _ => 0).after bd (.read (honestRead fun _ => 0) fill (fun _ => 0) 1)).after bd
    (.write (oneSectorWrite fun _ => 0) store (fun _ => 1) 5)

theorem fillThenWrite_reachable (bd : BlockDevice) (fill store : UInt64)
    {ok : State Nat → Call Nat → Prop}
    (okRead : ∀ s dev sector buffer count, ok s (.read dev sector buffer count))
    (okWrite : ∀ s dev buffer, ok s (.write dev store buffer 5)) :
    (system Nat bd).Reachable ok (fillThenWrite bd fill store) :=
  ((System.Reachable.init (freshState_init bd _)).next (okRead _ _ _ _ _)
    ⟨honestRead_legal _, rfl⟩).next (okWrite _ _ _) ⟨oneSectorWrite_legal _, rfl⟩

def smallDevice : BlockDevice := ⟨some "usb", 0, 0, 0, 512, 0, 100⟩

/-- The largest device the 64-bit sector count can describe. -/
def lastDevice : BlockDevice := ⟨some "usb", 0, 0, 0, 512, 0, 0xffffffffffffffff⟩

theorem read_transparent_hit :
    route smallDevice (fillThenWrite smallDevice 0 20).cache 3 2 = .hit 0 ∧
    (∀ i < 2, (read smallDevice (fillThenWrite smallDevice 0 20).cache
        (honestRead (fillThenWrite smallDevice 0 20).contents) 3 (fun _ => 7) 2).buffer i =
      (fillThenWrite smallDevice 0 20).contents (3 + i)) ∧
    Live smallDevice.sectorCount.toNat (fillThenWrite smallDevice 0 20).log 0
      ((fillThenWrite smallDevice 0 20).cache.sector 0) := by
  have hit : route smallDevice (fillThenWrite smallDevice 0 20).cache 3 2 = .hit 0 := by
    decide +kernel
  have spec := read_transparent
    (fillThenWrite_reachable smallDevice 0 20 (fun _ _ _ _ _ => trivial)
      (fun _ _ _ _ => by decide))
    (honestRead_legal _) 3 (fun _ => 7) 2
  exact ⟨hit, spec.1 (by decide +kernel), spec.2 0 hit⟩

/-- `_overlaps` misses the write because its end wraps to sector 3: the block at
`2 ^ 64 - 9` keeps serving the old contents of sector `2 ^ 64 - 2`. -/
theorem read_stale_after_wrapping_write :
    ∃ (bd : BlockDevice) (s : State Nat) (dev : DeviceRead Nat) (sector : UInt64)
      (buffer : Nat → Nat) (count : UInt16),
      bd.sectorSize = 512 ∧ (system Nat bd).Reachable (fun _ _ => True) s ∧
      LegalRead dev s.contents ∧ 0 < count ∧
      (read bd s.cache dev sector buffer count).ret = count.toNat ∧
      ∃ i < count.toNat,
        (read bd s.cache dev sector buffer count).buffer i ≠ s.contents (sector.toNat + i) :=
  ⟨lastDevice, fillThenWrite lastDevice 0xfffffffffffffff7 0xfffffffffffffffe,
    honestRead (fillThenWrite lastDevice 0xfffffffffffffff7 0xfffffffffffffffe).contents,
    0xfffffffffffffffe, fun _ => 7, 1, rfl,
    fillThenWrite_reachable _ _ _ (fun _ _ _ _ _ => trivial) (fun _ _ _ => trivial),
    honestRead_legal _, by decide, by decide +kernel, 0, by decide, by decide +kernel⟩

end BdmAssault.Cache
