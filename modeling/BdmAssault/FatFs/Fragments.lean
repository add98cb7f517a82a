import Mathlib.Algebra.Order.BigOperators.Group.List
import Mathlib.Data.List.SplitBy
import BdmAssault.Lib.Iterate
import BdmAssault.FatFs.Volume

/-! # Fragment lists

`get_frag_list` of `bdmfs_fs_driver.c` walks the cluster chain of a file and writes one
`bd_fragment_t` for each run of consecutive clusters.
-/

namespace BdmAssault.FatFs

open Lib

/-- `bd_fragment_t` -/
structure BdFragment where
  sector : UInt64
  count : UInt32
  deriving DecidableEq

/-- The return buffer of a request: `sizeof` is the size of a `bd_fragment_t`, `memory` the
elements from `rdata` on. -/
structure Rdata where
  sizeof : Nat
  isNull : Bool
  rdatalen : UInt32
  memory : Nat → BdFragment

def Rdata.maxFragments (r : Rdata) : Nat := if r.isNull then 0 else r.rdatalen.toNat / r.sizeof

/-- The fragment of the clusters `start` to `current`. -/
def fragmentAt (vol : Volume) (start current : UInt32) : BdFragment where
  sector := clst2sect vol.fs start + vol.bd.sectorOffset
  count := (clst2sect vol.fs current - clst2sect vol.fs start + vol.fs.csize.toUInt64).toUInt32

/-- `if (fragment_count < max_fragments) fragments[fragment_count] = ...` -/
def putFragment (max : Nat) (memory : Nat → BdFragment) (i : Nat) (f : BdFragment) : Nat → BdFragment :=
  if i < max then Function.update memory i f else memory

/-- The loop of `get_frag_list` and what comes after it; `next` is `get_fat` on the file. -/
def fragLoop (vol : Volume) (next : UInt32 → UInt32) (max : Nat) :
    Nat → UInt32 → UInt32 → Nat → (Nat → BdFragment) → Int × (Nat → BdFragment)
  | clustersRemaining + 2, start, current, count, memory =>
      let clusterNext := next current
      if clusterNext = 0xFFFFFFFF ∨ clusterNext < 2 ∨ vol.fs.nFatent ≤ clusterNext then (-eio, memory)
      else if clusterNext ≠ current + 1 then
        fragLoop vol next max (clustersRemaining + 1) clusterNext clusterNext (count + 1)
          (putFragment max memory count (fragmentAt vol start current))
      else fragLoop vol next max (clustersRemaining + 1) start clusterNext count memory
  | _, start, current, count, memory =>
      let clusterNext := next current
      if clusterNext = 0xFFFFFFFF ∨ clusterNext < vol.fs.nFatent then (-eio, memory)
      else (count + 1, putFragment max memory count (fragmentAt vol start current))

def enxio : Int := 6

/-- `bd` is what `fatfs_fs_driver_get_mounted_bd_from_index` finds for the volume. -/
def getFragList (vol : Option Volume) (window : FatSectors) (obj : ObjId) (rdata : Rdata) :
    Int × (Nat → BdFragment) :=
  match vol with
  | none => (-enxio, rdata.memory)
  | some vol =>
      if obj.objsize = 0 then (0, rdata.memory)
      else
        let clusterSize := vol.fs.csize.toUInt64 * vol.bd.sectorSize.toUInt64
        let clusterCount := (obj.objsize - 1) / clusterSize + 1
        if vol.fs.nFatent < 3 ∨ clusterCount = 0 ∨ (vol.fs.nFatent - 2).toUInt64 < clusterCount ∨
            obj.sclust < 2 ∨ vol.fs.nFatent ≤ obj.sclust then (-eio, rdata.memory)
        else
          fragLoop vol (getFat vol.fs window obj) rdata.maxFragments clusterCount.toUInt32.toNat
            obj.sclust obj.sclust 0 rdata.memory

/-! ## The clusters of a file -/

/-- The number of clusters that the size of a file asks for. -/
def clusterCount (vol : Volume) (obj : ObjId) : Nat :=
  (obj.objsize.toNat + (vol.fs.csize.toNat * vol.bd.sectorSize.toNat - 1)) /
    (vol.fs.csize.toNat * vol.bd.sectorSize.toNat)

/-- From `start` on, `n` clusters are linked and then the chain ends. -/
structure Linked (fs : Fatfs) (next : UInt32 → UInt32) (start : UInt32) (n : Nat) : Prop where
  inRange : ∀ i < n, fs.InRange (next^[i] start)
  ends : fs.EndMark (next^[n] start)

/-- The runs of consecutive clusters. -/
def runs (clusters : List UInt32) : List (List UInt32) := clusters.splitBy fun a b => b = a + 1

/-- The fragment of a run. -/
def runFragment (vol : Volume) (run : List UInt32) : BdFragment :=
  fragmentAt vol (run.head?.getD 0) (run.getLast?.getD 0)

/-- The sectors of a fragment on the disk. -/
def BdFragment.sectors (f : BdFragment) : List UInt64 :=
  (List.range f.count.toNat).map fun i => f.sector + .ofNat i

/-- The sectors of a cluster on the disk. -/
def clusterSectors (vol : Volume) (clst : UInt32) : List UInt64 :=
  (List.range vol.fs.csize.toNat).map fun i =>
    clst2sect vol.fs clst + vol.bd.sectorOffset + .ofNat i

/-! ## The loop -/

/-- Fragments from index `i` on, as far as the buffer reaches. -/
def putFragments (max : Nat) : (Nat → BdFragment) → Nat → List BdFragment → Nat → BdFragment
  | memory, _, [] => memory
  | memory, i, f :: fs => putFragments max (putFragment max memory i f) (i + 1) fs

theorem putFragment_eq {max i j : Nat} {memory : Nat → BdFragment} {f : BdFragment} :
    putFragment max memory i f j = if j = i ∧ j < max then f else memory j := by
  unfold putFragment
  by_cases hi : i < max
  · rw [if_pos hi]
    by_cases hj : j = i
    · subst hj
      rw [Function.update_self, if_pos ⟨rfl, hi⟩]
    · rw [Function.update_of_ne hj, if_neg fun h => hj h.1]
  · rw [if_neg hi, if_neg]
    rintro ⟨rfl, hlt⟩
    exact hi hlt

theorem putFragments_eq {max i : Nat} {memory : Nat → BdFragment} {fs : List BdFragment} (j : Nat) :
    putFragments max memory i fs j =
      if h : i ≤ j ∧ j - i < fs.length ∧ j < max then fs[j - i] else memory j := by
  induction fs generalizing i memory with
  | nil => rw [dif_neg fun h => Nat.not_lt_zero _ h.2.1]; rfl
  | cons f fs ih =>
      unfold putFragments
      rw [ih, putFragment_eq]
      by_cases hi : i + 1 ≤ j
      · have hindex : j - i = j - (i + 1) + 1 := by omega
        by_cases hlt : j - (i + 1) < fs.length ∧ j < max
        · rw [dif_pos ⟨hi, hlt⟩, dif_pos ⟨by omega, by rw [List.length_cons]; omega, hlt.2⟩]
          simp only [hindex, List.getElem_cons_succ]
        · rw [dif_neg (fun h => hlt h.2), if_neg (by omega), dif_neg]
          rintro ⟨-, hlength, hmax⟩
          rw [List.length_cons] at hlength
          exact hlt ⟨by omega, hmax⟩
      · rw [dif_neg fun h => hi h.1]
        by_cases hj : j = i ∧ j < max
        · obtain ⟨rfl, hmax⟩ := hj
          rw [if_pos ⟨rfl, hmax⟩, dif_pos ⟨Nat.le_refl _, by simp, hmax⟩]
          simp
        · rw [if_neg hj, dif_neg]
          rintro ⟨hle, -, hmax⟩
          exact hj ⟨by omega, hmax⟩

theorem linked_succ {fs : Fatfs} {next : UInt32 → UInt32} {start : UInt32} {n : Nat} :
    Linked fs next start (n + 1) ↔ fs.InRange start ∧ Linked fs next (next start) n := by
  constructor
  · intro h
    refine ⟨h.inRange 0 (Nat.zero_lt_succ n), fun i hi => ?_, h.ends⟩
    exact h.inRange (i + 1) (Nat.succ_lt_succ hi)
  · rintro ⟨hstart, h⟩
    refine ⟨fun i hi => ?_, h.ends⟩
    cases i with
    | zero => exact hstart
    | succ i => exact h.inRange i (Nat.lt_of_succ_lt_succ hi)

theorem linked_zero {fs : Fatfs} {next : UInt32 → UInt32} {start : UInt32} :
    Linked fs next start 0 ↔ fs.EndMark start :=
  ⟨fun h => h.ends, fun h => ⟨fun i hi => absurd hi (Nat.not_lt_zero i), h⟩⟩

/-- The run that the loop has begun, from `start` to `current`. -/
structure Run (run : List UInt32) (start current : UInt32) : Prop where
  head : run.head? = some start
  last : run.getLast? = some current
  consecutive : run.IsChain fun a b => b = a + 1

theorem Run.single (start : UInt32) : Run [start] start start := ⟨rfl, rfl, List.isChain_singleton start⟩

section Run

variable {run : List UInt32} {start current : UInt32}

theorem Run.ne_nil (h : Run run start current) : run ≠ [] := by
  rintro rfl
  cases h.head

theorem Run.extend (h : Run run start current) : Run (run ++ [current + 1]) start (current + 1) where
  head := by
    rw [List.head?_append, h.head]
    rfl
  last := List.getLast?_concat
  consecutive := by
    refine List.IsChain.append h.consecutive (List.isChain_singleton _) ?_
    intro a ha b hb
    rw [h.last] at ha
    cases ha
    cases hb
    rfl

theorem Run.runFragment (h : Run run start current) (vol : Volume) :
    runFragment vol run = fragmentAt vol start current := by
  unfold FatFs.runFragment
  rw [h.head, h.last]
  rfl

theorem Run.runs (h : Run run start current) : FatFs.runs run = [run] := by
  refine List.splitBy_of_isChain h.ne_nil (h.consecutive.imp ?_)
  intro a b hab
  exact decide_eq_true hab

/-- A cluster that does not follow begins the next run. -/
theorem Run.runs_append (h : Run run start current) {b : UInt32} (hb : b ≠ current + 1) (l : List UInt32) :
    FatFs.runs (run ++ b :: l) = run :: FatFs.runs (b :: l) := by
  have hsplit : FatFs.runs (run ++ b :: l) = FatFs.runs run ++ FatFs.runs (b :: l) := by
    apply List.splitBy_append_cons
    intro a ha
    rw [h.last] at ha
    cases ha
    exact decide_eq_false hb
  rw [hsplit, h.runs]
  rfl

end Run

section Loop

variable {vol : Volume} {next : UInt32 → UInt32} {max : Nat}

theorem fragLoop_last (start current : UInt32) (count : Nat) (memory : Nat → BdFragment) :
    fragLoop vol next max 1 start current count memory =
      if next current = 0xFFFFFFFF ∨ next current < vol.fs.nFatent then (-eio, memory)
      else (count + 1, putFragment max memory count (fragmentAt vol start current)) := rfl

theorem fragLoop_step (n : Nat) (start current : UInt32) (count : Nat) (memory : Nat → BdFragment) :
    fragLoop vol next max (n + 1 + 1) start current count memory =
      if next current = 0xFFFFFFFF ∨ next current < 2 ∨ vol.fs.nFatent ≤ next current then (-eio, memory)
      else if next current ≠ current + 1 then
        fragLoop vol next max (n + 1) (next current) (next current) (count + 1)
          (putFragment max memory count (fragmentAt vol start current))
      else fragLoop vol next max (n + 1) start (next current) count memory := rfl

/-- The loop goes through a whole chain, with `run` behind it. -/
theorem fragLoop_linked {n : Nat} {run : List UInt32} {start current : UInt32} (hrun : Run run start current)
    (h : Linked vol.fs next (next current) n) (count : Nat) (memory : Nat → BdFragment) :
    fragLoop vol next max (n + 1) start current count memory =
      (((count + (runs (run ++ List.iterate next (next current) n)).length : Nat) : Int),
        putFragments max memory count
          ((runs (run ++ List.iterate next (next current) n)).map (runFragment vol))) := by
  induction n generalizing run start current count memory with
  | zero =>
      have hend := linked_zero.mp h
      rw [Nat.zero_add, fragLoop_last, if_neg fun hbad => Fatfs.not_endMark_iff.mp hbad hend, List.iterate,
        List.append_nil, hrun.runs]
      show _ = (((count + 1 : Nat) : Int), putFragment max memory count (runFragment vol run))
      rw [hrun.runFragment]
      rfl
  | succ n ih =>
      obtain ⟨hrange, hrest⟩ := linked_succ.mp h
      rw [fragLoop_step, if_neg fun hbad => Fatfs.not_inRange_iff.mp hbad hrange, List.iterate]
      by_cases hnext : next current = current + 1
      · -- the run goes on
        rw [if_neg (not_not_intro hnext), ih (hnext ▸ hrun.extend) hrest]
        rw [hnext, List.append_assoc, List.singleton_append]
      · -- the run is complete and a new one begins
        rw [if_pos hnext, ih (Run.single _) hrest, hrun.runs_append hnext]
        rw [List.length_cons, List.map_cons, hrun.runFragment, List.singleton_append]
        rw [Nat.add_assoc, Nat.add_comm 1]
        rfl

/-- The loop finds out about everything that is no chain of the right length. -/
theorem fragLoop_refused {n : Nat} {current : UInt32} (h : ¬ Linked vol.fs next (next current) n)
    (start : UInt32) (count : Nat) (memory : Nat → BdFragment) :
    (fragLoop vol next max (n + 1) start current count memory).1 = -eio := by
  induction n generalizing current start count memory with
  | zero =>
      rw [linked_zero] at h
      rw [Nat.zero_add, fragLoop_last, if_pos (Fatfs.not_endMark_iff.mpr h)]
  | succ n ih =>
      rw [fragLoop_step]
      by_cases hrange : vol.fs.InRange (next current)
      · have hrest : ¬ Linked vol.fs next (next (next current)) n :=
          fun hrest => h (linked_succ.mpr ⟨hrange, hrest⟩)
        rw [if_neg fun hbad => Fatfs.not_inRange_iff.mp hbad hrange]
        split
        · exact ih hrest _ _ _
        · exact ih hrest _ _ _
      · rw [if_pos (Fatfs.not_inRange_iff.mpr hrange)]

end Loop

/-! ## The whole function -/

section Volume

variable {vol : Volume} {window : FatSectors} {obj : ObjId}

theorem Linked.nodup {fs : Fatfs} {next : UInt32 → UInt32} {start : UInt32} {n : Nat}
    (h : Linked fs next start n) : (List.iterate next start n).Nodup :=
  nodup_iterate_of_leaves h.inRange h.ends.not_inRange

/-- No chain is longer than the volume. -/
theorem Linked.length_le {fs : Fatfs} {next : UInt32 → UInt32} {start : UInt32} {n : Nat}
    (h : Linked fs next start n) : n ≤ fs.nFatent.toNat - 2 := by
  have hmem : ∀ clst ∈ List.iterate next start n, 2 ≤ clst.toNat ∧ clst.toNat < fs.nFatent.toNat := by
    intro clst hclst
    obtain ⟨i, hi, rfl⟩ := List.mem_iterate.mp hclst
    exact Fatfs.inRange_iff.mp (h.inRange i hi)
  have hle := length_le_of_nodup UInt32.toNat (fun _ _ => UInt32.toNat_inj.mp) h.nodup hmem
  rwa [List.length_iterate] at hle

/-- The size of a cluster in bytes. -/
theorem clusterSize_toNat (vol : Volume) :
    (vol.fs.csize.toUInt64 * vol.bd.sectorSize.toUInt64).toNat =
      vol.fs.csize.toNat * vol.bd.sectorSize.toNat := by
  have hc := vol.fs.csize.toNat_lt
  have hs := vol.bd.sectorSize.toNat_lt
  rw [UInt64.toNat_mul, UInt16.toNat_toUInt64, UInt32.toNat_toUInt64, Nat.mod_eq_of_lt]
  have hle : vol.fs.csize.toNat * vol.bd.sectorSize.toNat ≤ 65536 * 4294967296 :=
    Nat.mul_le_mul (Nat.le_of_lt hc) (Nat.le_of_lt hs)
  omega

theorem sectorSize_pos (vol : Volume) : 0 < vol.bd.sectorSize.toNat := by
  have hle := vol.fs.ssize_le
  rw [← vol.ssize_eq, UInt32.toNat_toUInt16] at hle
  omega

theorem clusterCount_toNat (vol : Volume) (hsize : obj.objsize ≠ 0) :
    ((obj.objsize - 1) / (vol.fs.csize.toUInt64 * vol.bd.sectorSize.toUInt64) + 1).toNat =
      clusterCount vol obj ∧ 0 < clusterCount vol obj := by
  have hpos : 0 < obj.objsize.toNat := by
    apply Nat.pos_of_ne_zero
    intro hzero
    exact hsize (UInt64.toNat_inj.mp hzero)
  have hlt := obj.objsize.toNat_lt
  have hcluster : 0 < vol.fs.csize.toNat * vol.bd.sectorSize.toNat :=
    Nat.mul_pos vol.fs.csize_pos (sectorSize_pos vol)
  have hcount : clusterCount vol obj =
      (obj.objsize.toNat - 1) / (vol.fs.csize.toNat * vol.bd.sectorSize.toNat) + 1 := by
    unfold clusterCount
    rw [← Nat.add_div_right _ hcluster]
    congr 1
    omega
  have hdiv := Nat.div_le_self (obj.objsize.toNat - 1) (vol.fs.csize.toNat * vol.bd.sectorSize.toNat)
  constructor
  · rw [UInt64.toNat_add, UInt64.toNat_div, clusterSize_toNat, UInt64.toNat_sub_of_le, hcount]
    · apply Nat.mod_eq_of_lt
      show (obj.objsize.toNat - 1) / _ + 1 < 18446744073709551616
      omega
    · rw [UInt64.le_iff_toNat_le]
      exact hpos
  · rw [hcount]
    exact Nat.zero_lt_succ _

/-- The chain of a file is as long as its size asks for. -/
def WellFormed (vol : Volume) (window : FatSectors) (obj : ObjId) : Prop :=
  Linked vol.fs (getFat vol.fs window obj) obj.sclust (clusterCount vol obj)

/-- The clusters of a file, in order. -/
def clusters (vol : Volume) (window : FatSectors) (obj : ObjId) : List UInt32 :=
  List.iterate (getFat vol.fs window obj) obj.sclust (clusterCount vol obj)

theorem getFragList_wellFormed (hsize : obj.objsize ≠ 0) (h : WellFormed vol window obj) (rdata : Rdata) :
    getFragList (some vol) window obj rdata =
      (((runs (clusters vol window obj)).length : Int),
        putFragments rdata.maxFragments rdata.memory 0
          ((runs (clusters vol window obj)).map (runFragment vol))) := by
  obtain ⟨hcount, hpos⟩ := clusterCount_toNat vol hsize
  have hlimit := vol.fs.nFatent_lt
  have hle := Linked.length_le h
  unfold WellFormed at h
  unfold getFragList clusters
  dsimp only
  rw [if_neg hsize]
  generalize (obj.objsize - 1) / (vol.fs.csize.toUInt64 * vol.bd.sectorSize.toUInt64) + 1 = count at hcount
  obtain ⟨n, hn⟩ : ∃ n, clusterCount vol obj = n + 1 := ⟨clusterCount vol obj - 1, by omega⟩
  rw [hn] at h hcount hle ⊢
  obtain ⟨hstart, hrest⟩ := linked_succ.mp h
  have hremaining : count.toUInt32.toNat = n + 1 := by
    rw [UInt64.toNat_toUInt32, hcount]
    exact Nat.mod_eq_of_lt (by omega)
  rw [if_neg, hremaining, fragLoop_linked (Run.single _) hrest, List.singleton_append, ← List.iterate,
    Nat.zero_add]
  -- none of the tests at the start fails for a chain
  obtain ⟨hlow, hhigh⟩ := Fatfs.inRange_iff.mp hstart
  rintro (hfew | hzero | hmany | hlow' | hhigh')
  · rw [UInt32.lt_iff_toNat_lt] at hfew
    replace hfew : vol.fs.nFatent.toNat < 3 := hfew
    omega
  · rw [hzero] at hcount
    cases hcount
  · rw [UInt64.lt_iff_toNat_lt, hcount, UInt32.toNat_toUInt64, UInt32.toNat_sub_of_le] at hmany
    · replace hmany : vol.fs.nFatent.toNat - 2 < n + 1 := hmany
      omega
    · rw [UInt32.le_iff_toNat_le]
      show 2 ≤ _
      omega
  · exact absurd hstart.1 (UInt32.not_le.mpr hlow')
  · exact absurd hstart.2 (UInt32.not_lt.mpr hhigh')

theorem getFragList_refused (hsize : obj.objsize ≠ 0) (h : ¬ WellFormed vol window obj) (rdata : Rdata) :
    (getFragList (some vol) window obj rdata).1 = -eio := by
  obtain ⟨hcount, hpos⟩ := clusterCount_toNat vol hsize
  unfold WellFormed at h
  unfold getFragList
  dsimp only
  rw [if_neg hsize]
  generalize (obj.objsize - 1) / (vol.fs.csize.toUInt64 * vol.bd.sectorSize.toUInt64) + 1 = count at hcount
  split
  · rfl
  · rename_i htests
    simp only [not_or, UInt32.not_lt, UInt32.not_le, UInt64.not_lt] at htests
    obtain ⟨hfew, -, hmany, hlow, hhigh⟩ := htests
    have hlt := (vol.fs.nFatent - 2).toNat_lt
    rw [UInt64.le_iff_toNat_le, UInt32.toNat_toUInt64] at hmany
    obtain ⟨n, hn⟩ : ∃ n, clusterCount vol obj = n + 1 := ⟨clusterCount vol obj - 1, by omega⟩
    rw [hn] at h hcount
    have hremaining : count.toUInt32.toNat = n + 1 := by
      rw [UInt64.toNat_toUInt32, hcount]
      exact Nat.mod_eq_of_lt (by omega)
    rw [hremaining]
    exact fragLoop_refused (fun hrest => h (linked_succ.mpr ⟨⟨hlow, hhigh⟩, hrest⟩)) _ _ _

/-! ## Sectors -/

/-- `n` sectors from `sector` on. -/
def sectorsFrom (sector : UInt64) (n : Nat) : List UInt64 := (List.range n).map fun i => sector + .ofNat i

theorem sectorsFrom_add (sector : UInt64) (m n : Nat) :
    sectorsFrom sector (m + n) = sectorsFrom sector m ++ sectorsFrom (sector + .ofNat m) n := by
  unfold sectorsFrom
  rw [List.range_add, List.map_append, List.map_map]
  congr 1
  apply List.map_congr_left
  intro i _
  show sector + .ofNat (m + i) = sector + .ofNat m + .ofNat i
  rw [UInt64.ofNat_add, UInt64.add_assoc]

theorem clst2sect_succ {fs : Fatfs} {clst : UInt32} (h : fs.InRange clst) (h' : fs.InRange (clst + 1)) :
    clst2sect fs (clst + 1) = clst2sect fs clst + .ofNat fs.csize.toNat := by
  have hlimit := fs.nFatent_lt
  obtain ⟨hlow, hhigh⟩ := Fatfs.inRange_iff.mp h
  have hnext : (clst + 1 - 2).toUInt64 = (clst - 2).toUInt64 + 1 := by
    apply UInt64.toNat_inj.mp
    rw [UInt32.toNat_toUInt64, UInt64.toNat_add, UInt32.toNat_toUInt64,
      UInt32.toNat_sub_of_le _ _ h.1, UInt32.toNat_sub_of_le _ _ h'.1, UInt32.toNat_add]
    show (clst.toNat + 1) % 4294967296 - 2 = (clst.toNat - 2 + 1) % 18446744073709551616
    omega
  rw [clst2sect_of_inRange h, clst2sect_of_inRange h', hnext, UInt64.mul_add, UInt64.mul_one,
    UInt64.ofNat_uInt16ToNat, UInt64.add_assoc]

/-- Consecutive clusters of the volume. -/
structure Consecutive (fs : Fatfs) (run : List UInt32) : Prop where
  inRange : ∀ clst ∈ run, fs.InRange clst
  next : run.IsChain fun a b => b = a + 1

theorem Consecutive.tail {fs : Fatfs} {a : UInt32} {run : List UInt32} (h : Consecutive fs (a :: run)) :
    Consecutive fs run := ⟨fun c hc => h.inRange c (List.mem_cons_of_mem a hc), h.next.tail⟩

/-- The second cluster of a run starts where the first one ends. -/
theorem Consecutive.second {fs : Fatfs} {a b : UInt32} {run : List UInt32}
    (h : Consecutive fs (a :: b :: run)) : clst2sect fs b = clst2sect fs a + .ofNat fs.csize.toNat := by
  have hb : b = a + 1 := (List.isChain_cons_cons.mp h.next).1
  have hinside := h.inRange b (List.mem_cons_of_mem a List.mem_cons_self)
  rw [hb] at hinside ⊢
  exact clst2sect_succ (h.inRange a List.mem_cons_self) hinside

theorem Consecutive.sectors {a : UInt32} {run : List UInt32} (h : Consecutive vol.fs (a :: run)) :
    (a :: run).flatMap (clusterSectors vol) =
      sectorsFrom (clst2sect vol.fs a + vol.bd.sectorOffset) ((a :: run).length * vol.fs.csize.toNat) := by
  have hfirst : ∀ c, clusterSectors vol c =
    sectorsFrom (clst2sect vol.fs c + vol.bd.sectorOffset) vol.fs.csize.toNat := fun _ => rfl
  induction run generalizing a with
  | nil => rw [List.flatMap_singleton, hfirst, List.length_singleton, Nat.one_mul]
  | cons b run ih =>
      have hb := h.second
      have hsum : clst2sect vol.fs b + vol.bd.sectorOffset =
          clst2sect vol.fs a + vol.bd.sectorOffset + .ofNat vol.fs.csize.toNat := by
        rw [hb, UInt64.add_assoc, UInt64.add_assoc, UInt64.add_comm (.ofNat _)]
      rw [List.flatMap_cons, ih h.tail, hsum, hfirst, ← sectorsFrom_add, List.length_cons (a := a)]
      congr 1
      rw [Nat.succ_mul, Nat.add_comm]

theorem Consecutive.clst2sect_last {fs : Fatfs} {a last : UInt32} {run : List UInt32}
    (h : Consecutive fs (a :: run)) (hlast : (a :: run).getLast? = some last) :
    clst2sect fs last = clst2sect fs a + .ofNat (run.length * fs.csize.toNat) := by
  induction run generalizing a with
  | nil =>
      cases hlast
      rw [List.length_nil, Nat.zero_mul]
      exact (UInt64.add_zero _).symm
  | cons b run ih =>
      have hb := h.second
      rw [List.getLast?_cons_cons] at hlast
      rw [ih h.tail hlast, hb, UInt64.add_assoc, ← UInt64.ofNat_add, List.length_cons, Nat.succ_mul,
        Nat.add_comm]

/-- The count of a fragment has 32 bits. -/
theorem Consecutive.runFragment {a : UInt32} {run : List UInt32} (h : Consecutive vol.fs (a :: run)) :
    (runFragment vol (a :: run)).sector = clst2sect vol.fs a + vol.bd.sectorOffset ∧
      (runFragment vol (a :: run)).count.toNat =
        (a :: run).length * vol.fs.csize.toNat % 4294967296 := by
  refine ⟨rfl, ?_⟩
  obtain ⟨last, hlast⟩ : ∃ last, (a :: run).getLast? = some last :=
    ⟨_, List.getLast?_eq_some_getLast (List.cons_ne_nil a run)⟩
  have hsect := h.clst2sect_last hlast
  unfold FatFs.runFragment fragmentAt
  dsimp only
  rw [hlast]
  show (clst2sect vol.fs last - clst2sect vol.fs a + vol.fs.csize.toUInt64).toUInt32.toNat = _
  rw [hsect, UInt64.add_comm (clst2sect vol.fs a), UInt64.add_sub_cancel, ← UInt64.ofNat_uInt16ToNat, ← UInt64.ofNat_add,
    ← Nat.add_one_mul, UInt64.toNat_toUInt32, UInt64.toNat_ofNat', List.length_cons]
  omega

/-! ## Correctness -/

/-- Every run of the file has fewer than 2^32 sectors. -/
def ShortRuns (vol : Volume) (window : FatSectors) (obj : ObjId) : Prop :=
  ∀ run ∈ runs (clusters vol window obj), run.length * vol.fs.csize.toNat < 4294967296

theorem WellFormed.inRange (h : WellFormed vol window obj) {clst : UInt32}
    (hclst : clst ∈ clusters vol window obj) : vol.fs.InRange clst := by
  obtain ⟨i, hi, rfl⟩ := List.mem_iterate.mp hclst
  exact Linked.inRange h i hi

theorem WellFormed.consecutive (h : WellFormed vol window obj) {run : List UInt32}
    (hrun : run ∈ runs (clusters vol window obj)) : Consecutive vol.fs run where
  inRange clst hclst := by
    apply h.inRange
    rw [← List.flatten_splitBy (fun a b => decide (b = a + 1)) (clusters vol window obj)]
    exact List.mem_flatten.mpr ⟨run, hrun, hclst⟩
  next := (List.isChain_of_mem_splitBy hrun).imp fun _ _ hab => of_decide_eq_true hab

theorem WellFormed.sectors_run (h : WellFormed vol window obj) {run : List UInt32}
    (hrun : run ∈ runs (clusters vol window obj)) (hshort : run.length * vol.fs.csize.toNat < 4294967296) :
    (runFragment vol run).sectors = run.flatMap (clusterSectors vol) := by
  have hconsecutive := h.consecutive hrun
  cases run with
  | nil => exact absurd hrun (List.nil_notMem_splitBy _ _)
  | cons a run =>
      obtain ⟨hsector, hcount⟩ := hconsecutive.runFragment
      rw [hconsecutive.sectors]
      show sectorsFrom (runFragment vol (a :: run)).sector (runFragment vol (a :: run)).count.toNat = _
      rw [hsector, hcount, Nat.mod_eq_of_lt hshort]

theorem WellFormed.length_run (h : WellFormed vol window obj) {run : List UInt32}
    (hrun : run ∈ runs (clusters vol window obj)) :
    (runFragment vol run).sectors.length = run.length * vol.fs.csize.toNat % 4294967296 ∧
      (run.flatMap (clusterSectors vol)).length = run.length * vol.fs.csize.toNat := by
  have hconsecutive := h.consecutive hrun
  cases run with
  | nil => exact absurd hrun (List.nil_notMem_splitBy _ _)
  | cons a run =>
      rw [hconsecutive.sectors, ← hconsecutive.runFragment.2]
      unfold BdFragment.sectors sectorsFrom
      rw [List.length_map, List.length_range, List.length_map, List.length_range]
      exact ⟨rfl, rfl⟩

theorem flatMap_runs (l : List UInt32) {β : Type} (f : UInt32 → List β) :
    (runs l).flatMap (fun run => run.flatMap f) = l.flatMap f := by
  have hflatten : (runs l).flatten = l := List.flatten_splitBy _ l
  calc (runs l).flatMap (fun run => run.flatMap f) = ((runs l).flatMap id).flatMap f :=
        List.flatMap_assoc.symm
    _ = l.flatMap f := by rw [List.flatMap_id, hflatten]

/-- The fragments cover the file, provided that no count is cut off. -/
theorem WellFormed.sectors_iff (h : WellFormed vol window obj) :
    ((runs (clusters vol window obj)).map (runFragment vol)).flatMap BdFragment.sectors =
      (clusters vol window obj).flatMap (clusterSectors vol) ↔ ShortRuns vol window obj := by
  rw [← flatMap_runs (clusters vol window obj), List.flatMap_map]
  constructor
  · intro heq run hrun
    by_contra hlong
    have hlength := congrArg List.length heq
    rw [List.length_flatMap, List.length_flatMap] at hlength
    refine absurd hlength (Nat.ne_of_lt (List.sum_lt_sum _ _ ?_ ⟨run, hrun, ?_⟩))
    · intro r hr
      rw [(h.length_run hr).1, (h.length_run hr).2]
      exact Nat.mod_le _ _
    · rw [(h.length_run hrun).1, (h.length_run hrun).2]
      exact Nat.lt_of_lt_of_le (Nat.mod_lt _ (by decide)) (Nat.not_lt.mp hlong)
  · intro hshort
    apply List.flatMap_congr
    intro run hrun
    exact h.sectors_run hrun (hshort run hrun)

/-- `frags` are the fragments of the file, whatever buffer they are asked for with. -/
structure Fragmented (vol : Volume) (window : FatSectors) (obj : ObjId) (frags : List BdFragment) : Prop where
  count : ∀ rdata, (getFragList (some vol) window obj rdata).1 = frags.length
  written : ∀ rdata i, (getFragList (some vol) window obj rdata).2 i =
    if h : i < frags.length ∧ i < rdata.maxFragments then frags[i] else rdata.memory i
  sectors : frags.flatMap BdFragment.sectors =
    (clusters vol window obj).flatMap (clusterSectors vol)
  /-- Each fragment is a run, and no run goes on in the next one. -/
  maximal : ∃ rs : List (List UInt32), frags = rs.map (runFragment vol) ∧
    rs.flatten = clusters vol window obj ∧ (∀ r ∈ rs, r ≠ [] ∧ Consecutive vol.fs r) ∧
    rs.IsChain fun r r' => ∃ (hr : r ≠ []) (hr' : r' ≠ []), r'.head hr' ≠ r.getLast hr + 1
  distinct : (clusters vol window obj).Nodup

structure FragListCorrect (vol : Volume) (window : FatSectors) (obj : ObjId) : Prop where
  accepts : ∀ rdata, 0 < (getFragList (some vol) window obj rdata).1 ↔ WellFormed vol window obj
  refuses : ¬ WellFormed vol window obj → ∀ rdata, (getFragList (some vol) window obj rdata).1 = -eio
  fragments : WellFormed vol window obj → ∃ frags, Fragmented vol window obj frags

theorem runs_pos (hsize : obj.objsize ≠ 0) :
    0 < (runs (clusters vol window obj)).length := by
  have hpos := (clusterCount_toNat vol hsize).2
  rw [List.length_pos_iff]
  unfold runs
  rw [List.splitBy_ne_nil]
  unfold clusters
  rw [Ne, List.iterate_eq_nil]
  omega

theorem WellFormed.fragmented (h : WellFormed vol window obj) (hsize : obj.objsize ≠ 0)
    (hshort : ShortRuns vol window obj) :
    Fragmented vol window obj ((runs (clusters vol window obj)).map (runFragment vol)) where
  count rdata := by
    rw [getFragList_wellFormed hsize h, List.length_map]
  written rdata i := by
    rw [getFragList_wellFormed hsize h]
    dsimp only
    rw [putFragments_eq]
    simp only [Nat.zero_le, true_and, Nat.sub_zero]
  sectors := h.sectors_iff.mpr hshort
  maximal := by
    refine ⟨_, rfl, List.flatten_splitBy _ _, fun r hr => ⟨List.ne_nil_of_mem_splitBy hr, h.consecutive hr⟩, ?_⟩
    refine (List.isChain_getLast_head_splitBy _ _).imp ?_
    rintro r r' ⟨hr, hr', hends⟩
    exact ⟨hr, hr', of_decide_eq_false hends⟩
  distinct := Linked.nodup h

theorem fragListCorrect_of_short (hsize : obj.objsize ≠ 0)
    (hshort : WellFormed vol window obj → ShortRuns vol window obj) : FragListCorrect vol window obj where
  accepts rdata := by
    constructor
    · intro hpos
      by_contra h
      rw [getFragList_refused hsize h] at hpos
      exact absurd hpos (by decide)
    · intro h
      rw [getFragList_wellFormed hsize h]
      exact Int.natCast_pos.mpr (runs_pos hsize)
  refuses h rdata := getFragList_refused hsize h rdata
  fragments h := ⟨_, h.fragmented hsize (hshort h)⟩

/-- There is only one way to cut the clusters into maximal runs. -/
theorem Fragmented.eq_runs {frags : List BdFragment} (h : Fragmented vol window obj frags) :
    frags = (runs (clusters vol window obj)).map (runFragment vol) := by
  obtain ⟨rs, hrs, hflatten, hconsecutive, hmaximal⟩ := h.maximal
  have hruns : runs (clusters vol window obj) = rs := by
    unfold runs
    rw [List.splitBy_eq_iff]
    refine ⟨hflatten.symm, fun hnil => (hconsecutive [] hnil).1 rfl, fun r hr => ?_, hmaximal.imp ?_⟩
    · exact (hconsecutive r hr).2.next.imp fun _ _ hab => decide_eq_true hab
    · rintro r r' ⟨hr, hr', hends⟩
      exact ⟨hr, hr', decide_eq_false hends⟩
  rw [hrs, hruns]

theorem short_of_fragListCorrect (h : FragListCorrect vol window obj) (hwell : WellFormed vol window obj) :
    ShortRuns vol window obj := by
  obtain ⟨frags, hfrags⟩ := h.fragments hwell
  rw [← hwell.sectors_iff, ← hfrags.eq_runs]
  exact hfrags.sectors

end Volume

/-! ## Contiguous files -/

/-- An exFAT volume whose clusters have 32768 sectors of 512 bytes. -/
def wideVolume (nFatent : UInt32) (h : nFatent.toNat ≤ 0x7FFFFFFF) : Volume where
  fs := ⟨.exfat, 32768, 512, nFatent, 2048, 4096, by decide, sectorSize_le, h⟩
  bd := ⟨some "usb", 0, 1, 7, 512, 63, 0x200000000⟩
  ssize_eq := rfl

/-- A file of `n` clusters that needs no allocation chain. -/
def contiguousFile (n : UInt64) : ObjId := ⟨2, 2, n * 0x1000000, 0, 0⟩

/-- None of its sectors can be read. -/
def unreadable : FatSectors := fun _ => none

section Contiguous

variable {n : Nat} {nFatent : UInt32} {h : nFatent.toNat ≤ 0x7FFFFFFF}

theorem contiguousFile_objsize (hn : n < 0x7FFFFFFF) :
    (contiguousFile (.ofNat n)).objsize.toNat = n * 16777216 := by
  show (UInt64.ofNat n * 0x1000000).toNat = _
  rw [UInt64.toNat_mul, UInt64.toNat_ofNat']
  show n % 18446744073709551616 * 16777216 % 18446744073709551616 = _
  omega

theorem clusterCount_contiguousFile (hn : n < 0x7FFFFFFF) :
    clusterCount (wideVolume nFatent h) (contiguousFile (.ofNat n)) = n := by
  unfold clusterCount
  rw [contiguousFile_objsize hn]
  show (n * 16777216 + (32768 * 512 - 1)) / (32768 * 512) = n
  omega

/-- `get_fat` counts up to the last cluster. -/
theorem getFat_contiguousFile (hpos : 0 < n) (hn : n + 2 ≤ nFatent.toNat) {clst : UInt32} {i : Nat} (hi : i < n)
    (hclst : clst.toNat = 2 + i) :
    getFat (wideVolume nFatent h).fs unreadable (contiguousFile (.ofNat n)) clst =
      if i + 1 = n then 0x7FFFFFFF else clst + 1 := by
  have hsize := contiguousFile_objsize (n := n) (by omega)
  have hinside : (wideVolume nFatent h).fs.InRange clst := by
    rw [Fatfs.inRange_iff]
    show 2 ≤ clst.toNat ∧ clst.toNat < nFatent.toNat
    omega
  have hobject : (contiguousFile (.ofNat n)).objsize ≠ 0 := by
    rw [← UInt64.toNat_inj.ne, hsize]
    show n * 16777216 ≠ 0
    omega
  obtain ⟨clen, hclen⟩ : ∃ clen, (((contiguousFile (.ofNat n)).objsize - 1) /
      (wideVolume nFatent h).fs.ssize.toUInt64 / (wideVolume nFatent h).fs.csize.toUInt64).toUInt32 = clen :=
    ⟨_, rfl⟩
  have hlen : clen.toNat = n - 1 := by
    rw [← hclen, UInt64.toNat_toUInt32, UInt64.toNat_div, UInt64.toNat_div, UInt64.toNat_sub_of_le, hsize]
    · show (n * 16777216 - 1) / 512 / 32768 % 4294967296 = n - 1
      omega
    · rw [UInt64.le_iff_toNat_le, hsize]
      show 1 ≤ _
      omega
  have hofs : (clst - 2).toNat = i := by
    rw [UInt32.toNat_sub_of_le _ _ hinside.1]
    show clst.toNat - 2 = i
    omega
  have hle : clst - 2 ≤ clen := by
    rw [UInt32.le_iff_toNat_le]
    omega
  have hlast : clst - 2 = clen ↔ i + 1 = n := by
    rw [← UInt32.toNat_inj]
    omega
  rw [getFat_exfat rfl hinside,
    exfatEntry_contiguous rfl hobject (show (2 : UInt32) ≠ 0 by decide) hclen hle]
  exact if_congr hlast rfl rfl

theorem iterate_contiguousFile (hn : n + 2 ≤ nFatent.toNat) {i : Nat} (hi : i < n) :
    ((getFat (wideVolume nFatent h).fs unreadable (contiguousFile (.ofNat n)))^[i] 2).toNat = 2 + i := by
  induction i with
  | zero => rfl
  | succ i ih =>
      have hlast := ih (by omega)
      rw [Function.iterate_succ_apply', getFat_contiguousFile (by omega) hn (by omega) hlast, if_neg (by omega),
        UInt32.toNat_add, hlast]
      show (2 + i + 1) % 4294967296 = _
      omega

theorem wellFormed_contiguousFile (hpos : 0 < n) (hn : n + 2 ≤ nFatent.toNat) :
    WellFormed (wideVolume nFatent h) unreadable (contiguousFile (.ofNat n)) := by
  unfold WellFormed
  rw [clusterCount_contiguousFile (by omega), show (contiguousFile (.ofNat n)).sclust = 2 from rfl]
  refine ⟨fun i hi => ?_, ?_⟩
  · rw [Fatfs.inRange_iff, iterate_contiguousFile hn hi]
    show 2 ≤ 2 + i ∧ 2 + i < nFatent.toNat
    omega
  · obtain ⟨m, rfl⟩ : ∃ m, n = m + 1 := ⟨n - 1, by omega⟩
    have hlast := iterate_contiguousFile (h := h) hn (Nat.lt_succ_self m)
    rw [Function.iterate_succ_apply', getFat_contiguousFile hpos hn (Nat.lt_succ_self m) hlast, if_pos rfl]
    refine ⟨?_, by decide⟩
    rw [UInt32.le_iff_toNat_le]
    exact h

/-- The whole file is one run. -/
theorem runs_contiguousFile (hpos : 0 < n) (hn : n + 2 ≤ nFatent.toNat) :
    runs (clusters (wideVolume nFatent h) unreadable (contiguousFile (.ofNat n))) =
      [clusters (wideVolume nFatent h) unreadable (contiguousFile (.ofNat n))] := by
  unfold runs clusters
  rw [clusterCount_contiguousFile (by omega)]
  apply List.splitBy_of_isChain
  · rw [Ne, List.iterate_eq_nil]
    omega
  · rw [List.isChain_iff_getElem]
    intro i hi
    rw [List.length_iterate] at hi
    have hthis := iterate_contiguousFile (h := h) hn (show i < n by omega)
    rw [List.getElem_iterate, List.getElem_iterate, Function.iterate_succ_apply']
    rw [show (contiguousFile (.ofNat n)).sclust = 2 from rfl,
      getFat_contiguousFile hpos hn (by omega) hthis, if_neg (by omega)]
    exact decide_eq_true rfl

theorem shortRuns_contiguousFile (hpos : 0 < n) (hn : n + 2 ≤ nFatent.toNat) :
    ShortRuns (wideVolume nFatent h) unreadable (contiguousFile (.ofNat n)) ↔ n * 32768 < 4294967296 := by
  unfold ShortRuns
  rw [runs_contiguousFile hpos hn, List.forall_mem_singleton]
  unfold clusters
  rw [List.length_iterate, clusterCount_contiguousFile (by omega)]
  rfl

end Contiguous

/-! ## Which files get a correct list -/

theorem fragment_list_correct_iff {vol : Volume} {window : FatSectors} {obj : ObjId}
    (hsize : obj.objsize ≠ 0) :
    FragListCorrect vol window obj ↔ (WellFormed vol window obj → ShortRuns vol window obj) :=
  ⟨short_of_fragListCorrect, fragListCorrect_of_short hsize⟩

theorem fragment_list_correct_one :
    FragListCorrect (wideVolume 3 (by decide)) unreadable (contiguousFile (.ofNat 1)) :=
  (fragment_list_correct_iff (by decide)).mpr fun _ =>
    (shortRuns_contiguousFile (by decide) (by decide)).mpr (by decide)

/-- A contiguous file of two terabytes: the count of its only fragment is 2^32. -/
theorem long_run_loses_count :
    (contiguousFile (.ofNat 131072)).objsize ≠ 0 ∧
      WellFormed (wideVolume 131074 (by decide)) unreadable (contiguousFile (.ofNat 131072)) ∧
      (runs (clusters (wideVolume 131074 (by decide)) unreadable (contiguousFile (.ofNat 131072)))).map
        (fun run => (runFragment (wideVolume 131074 (by decide)) run).sectors.length) = [0] ∧
      ¬ FragListCorrect (wideVolume 131074 (by decide)) unreadable (contiguousFile (.ofNat 131072)) := by
  have hle : 131072 + 2 ≤ (131074 : UInt32).toNat := by decide
  have hwell := wellFormed_contiguousFile (h := by decide) (by decide) hle
  have hruns := runs_contiguousFile (h := by decide) (by decide) hle
  refine ⟨by decide, hwell, ?_, fun hcorrect => ?_⟩
  · have hlength := (hwell.length_run (hruns ▸ List.mem_singleton_self _)).1
    unfold clusters at hlength
    rw [List.length_iterate, clusterCount_contiguousFile (by decide)] at hlength
    rw [hruns, List.map_singleton]
    exact congrArg (fun k => [k]) hlength
  · have hshort := (shortRuns_contiguousFile (by decide) hle).mp (short_of_fragListCorrect hcorrect hwell)
    exact absurd hshort (by decide)

end BdmAssault.FatFs
