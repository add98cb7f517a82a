import BdmAssault.FatFs.Fragments

/-! # The original fragment list

`get_frag_list` of `fs_driver.c` in `bdmfs_fatfs`, which `bdmfs_fs_driver.c` rewrites. It
follows the chain to its end mark, whatever the size of the file, and writes a fragment
wherever a cluster does not follow the one before.
-/

namespace BdmAssault.FatFs

/-- The `do` loop; `none` if it is still going when the fuel is spent. -/
def Original.fragLoop (vol : Volume) (next : UInt32 → UInt32) (max : Nat) :
    Nat → UInt32 → UInt32 → Nat → (Nat → BdFragment) → Option (Int × (Nat → BdFragment))
  | 0, _, _, _, _ => none
  | fuel + 1, start, current, count, memory =>
      let clusterNext := next current
      let (start, count, memory) :=
        if clusterNext ≠ current + 1 then
          (clusterNext, count + 1, putFragment max memory count (fragmentAt vol start current))
        else (start, count, memory)
      if clusterNext < vol.fs.nFatent then fragLoop vol next max fuel start clusterNext count memory
      else some (count, memory)

/-- `rdata` is not compared with `NULL`, nor is the device of the volume. -/
def Original.getFragList (fuel : Nat) (vol : Volume) (window : FatSectors) (obj : ObjId) (rdata : Rdata) :
    Option (Int × (Nat → BdFragment)) :=
  Original.fragLoop vol (getFat vol.fs window obj) (rdata.rdatalen.toNat / rdata.sizeof) fuel
    obj.sclust obj.sclust 0 rdata.memory

/-! ## End marks -/

/-- What the four formats put behind the last cluster of a file. -/
def Fatfs.EndOfChain (fs : Fatfs) (val : UInt32) : Prop :=
  match fs.fsType with
  | .fat12 => 0xFF8 ≤ val ∧ val ≤ 0xFFF
  | .fat16 => 0xFFF8 ≤ val ∧ val ≤ 0xFFFF
  | .fat32 => 0x0FFFFFF8 ≤ val ∧ val ≤ 0x0FFFFFFF
  | .exfat => val = 0x7FFFFFFF

/-- The chain of a file is as long as its size asks for and ends as the format says. -/
structure GenuineChain (vol : Volume) (window : FatSectors) (obj : ObjId) : Prop where
  inRange : ∀ i < clusterCount vol obj, vol.fs.InRange ((getFat vol.fs window obj)^[i] obj.sclust)
  ends : vol.fs.EndOfChain ((getFat vol.fs window obj)^[clusterCount vol obj] obj.sclust)

section EndOfChain

variable {fs : Fatfs} {val last : UInt32}

/-- Only exFAT has room for a cluster right before its end mark. -/
theorem Fatfs.EndOfChain.gap (h : fs.EndOfChain val) :
    (fs.fsType = .exfat ∧ val.toNat = 0x7FFFFFFF) ∨
      (fs.nFatent.toNat < val.toNat ∧ val.toNat ≤ 0x0FFFFFFF ∧ fs.nFatent.toNat < 0x0FFFFFFF) := by
  have hle := fs.nFatent_le
  unfold EndOfChain at h
  cases hfs : fs.fsType with
  | fat12 =>
      rw [hfs] at h hle
      replace h : 0xFF8 ≤ val.toNat ∧ val.toNat ≤ 0xFFF := h
      replace hle : fs.nFatent.toNat ≤ 0xFF7 := hle
      omega
  | fat16 =>
      rw [hfs] at h hle
      replace h : 0xFFF8 ≤ val.toNat ∧ val.toNat ≤ 0xFFFF := h
      replace hle : fs.nFatent.toNat ≤ 0xFFF7 := hle
      omega
  | fat32 =>
      rw [hfs] at h hle
      replace h : 0x0FFFFFF8 ≤ val.toNat ∧ val.toNat ≤ 0x0FFFFFFF := h
      replace hle : fs.nFatent.toNat ≤ 0x0FFFFFF7 := hle
      omega
  | exfat =>
      rw [hfs] at h
      exact Or.inl ⟨rfl, congrArg UInt32.toNat h⟩

theorem Fatfs.EndOfChain.endMark (h : fs.EndOfChain val) : fs.EndMark val := by
  have hlimit := fs.nFatent_lt
  have hgap := h.gap
  unfold EndMark
  rw [UInt32.le_iff_toNat_le, ← UInt32.toNat_inj.ne]
  show _ ∧ val.toNat ≠ 4294967295
  omega

/-- The end mark looks like the next cluster behind the largest cluster number of exFAT. -/
theorem Fatfs.EndOfChain.eq_succ_iff (h : fs.EndOfChain val) (hlast : fs.InRange last) :
    val = last + 1 ↔ last = 0x7FFFFFFE := by
  have hlimit := fs.nFatent_lt
  have hgap := h.gap
  rw [inRange_iff] at hlast
  rw [← UInt32.toNat_inj, ← UInt32.toNat_inj, UInt32.toNat_add]
  show val.toNat = (last.toNat + 1) % 4294967296 ↔ last.toNat = 0x7FFFFFFE
  omega

end EndOfChain

/-! ## The two loops side by side -/

section Loops

variable {vol : Volume} {next : UInt32 → UInt32} {max : Nat}

/-- One round of the original when it goes on. -/
theorem Original.fragLoop_inRange {current : UInt32} (h : vol.fs.InRange (next current)) (fuel : Nat)
    (start : UInt32) (count : Nat) (memory : Nat → BdFragment) :
    Original.fragLoop vol next max (fuel + 1) start current count memory =
      if next current ≠ current + 1 then
        Original.fragLoop vol next max fuel (next current) (next current) (count + 1)
          (putFragment max memory count (fragmentAt vol start current))
      else Original.fragLoop vol next max fuel start (next current) count memory := by
  rw [Original.fragLoop]
  by_cases hnext : next current = current + 1
  · simp only [if_neg (not_not_intro hnext), if_pos h.2]
  · simp only [if_pos hnext, if_pos h.2]

/-- The last round. -/
theorem Original.fragLoop_endMark {current : UInt32} (h : vol.fs.EndMark (next current)) (fuel : Nat)
    (start : UInt32) (count : Nat) (memory : Nat → BdFragment) :
    Original.fragLoop vol next max (fuel + 1) start current count memory =
      if next current ≠ current + 1 then
        some ((count : Int) + 1, putFragment max memory count (fragmentAt vol start current))
      else some ((count : Int), memory) := by
  have hstop := UInt32.not_lt.mpr h.1
  rw [Original.fragLoop]
  by_cases hnext : next current = current + 1
  · simp only [if_neg (not_not_intro hnext), if_neg hstop]
  · simp only [if_pos hnext, if_neg hstop]
    rfl

/-- Both loops take the same branch at every cluster but the last one, where the original
compares the end mark with the next cluster number. -/
theorem Original.fragLoop_eq {n : Nat} {current : UInt32} (h : Linked vol.fs next (next current) n)
    (hends : next (next^[n] current) ≠ next^[n] current + 1) (start : UInt32) (count : Nat)
    (memory : Nat → BdFragment) :
    Original.fragLoop vol next max (n + 1) start current count memory =
      some (FatFs.fragLoop vol next max (n + 1) start current count memory) := by
  induction n generalizing start current count memory with
  | zero =>
      have hend := linked_zero.mp h
      replace hends : next current ≠ current + 1 := hends
      rw [Original.fragLoop_endMark hend, if_pos hends, Nat.zero_add, fragLoop_last,
        if_neg fun hbad => Fatfs.not_endMark_iff.mp hbad hend]
  | succ n ih =>
      obtain ⟨hrange, hrest⟩ := linked_succ.mp h
      rw [Original.fragLoop_inRange hrange, fragLoop_step,
        if_neg fun hbad => Fatfs.not_inRange_iff.mp hbad hrange]
      split
      · exact ih hrest hends _ _ _
      · exact ih hrest hends _ _ _

/-- An end mark that looks like the next cluster hides the last run from the original. -/
theorem Original.fragLoop_misses {n : Nat} {current : UInt32} (h : Linked vol.fs next (next current) n)
    (hends : next (next^[n] current) = next^[n] current + 1) {fuel : Nat} {start : UInt32} {count : Nat}
    {memory : Nat → BdFragment} {r : Int × (Nat → BdFragment)}
    (hr : Original.fragLoop vol next max fuel start current count memory = some r) :
    (FatFs.fragLoop vol next max (n + 1) start current count memory).1 = r.1 + 1 := by
  induction n generalizing start current count memory fuel with
  | zero =>
      have hend := linked_zero.mp h
      replace hends : next current = current + 1 := hends
      cases fuel with
      | zero => cases hr
      | succ fuel =>
          rw [Original.fragLoop_endMark hend, if_neg (not_not_intro hends)] at hr
          rw [Nat.zero_add, fragLoop_last, if_neg fun hbad => Fatfs.not_endMark_iff.mp hbad hend]
          cases hr
          rfl
  | succ n ih =>
      obtain ⟨hrange, hrest⟩ := linked_succ.mp h
      cases fuel with
      | zero => cases hr
      | succ fuel =>
          rw [Original.fragLoop_inRange hrange] at hr
          rw [fragLoop_step, if_neg fun hbad => Fatfs.not_inRange_iff.mp hbad hrange]
          by_cases hnext : next current = current + 1
          · rw [if_neg (not_not_intro hnext)] at hr ⊢
            exact ih hrest hends hr
          · rw [if_pos hnext] at hr ⊢
            exact ih hrest hends hr

end Loops

/-! ## Agreement -/

section Agreement

variable {vol : Volume} {window : FatSectors} {obj : ObjId}

theorem GenuineChain.wellFormed (h : GenuineChain vol window obj) : WellFormed vol window obj :=
  ⟨h.inRange, h.ends.endMark⟩

/-- `NULL` comes with length 0. -/
theorem Rdata.maxFragments_eq {rdata : Rdata} (h : rdata.isNull → rdata.rdatalen = 0) :
    rdata.maxFragments = rdata.rdatalen.toNat / rdata.sizeof := by
  unfold maxFragments
  split
  · rename_i hnull
    rw [h hnull]
    exact (Nat.zero_div _).symm
  · rfl

/-- Past its tests, the new function is its loop. -/
theorem GenuineChain.getFragList_eq (h : GenuineChain vol window obj) (hsize : obj.objsize ≠ 0) (rdata : Rdata) :
    getFragList (some vol) window obj rdata =
      fragLoop vol (getFat vol.fs window obj) rdata.maxFragments (clusterCount vol obj)
        obj.sclust obj.sclust 0 rdata.memory := by
  have hwell := h.wellFormed
  have hpos := (clusterCount_toNat vol hsize).2
  rw [getFragList_wellFormed hsize hwell]
  unfold WellFormed at hwell
  unfold clusters
  obtain ⟨n, hn⟩ : ∃ n, clusterCount vol obj = n + 1 := ⟨clusterCount vol obj - 1, by omega⟩
  rw [hn] at hwell ⊢
  rw [fragLoop_linked (Run.single _) (linked_succ.mp hwell).2, List.singleton_append, ← List.iterate,
    Nat.zero_add]

/-- The last cluster of a file. -/
theorem getLast?_clusters {n : Nat} (hn : clusterCount vol obj = n + 1) :
    (clusters vol window obj).getLast? = some ((getFat vol.fs window obj)^[n] obj.sclust) := by
  unfold clusters
  rw [hn, List.getLast?_eq_getElem?, List.length_iterate, Nat.add_sub_cancel,
    List.getElem?_iterate _ _ _ _ (Nat.lt_succ_self n)]

theorem GenuineChain.ends_succ_iff (h : GenuineChain vol window obj) {n : Nat}
    (hn : clusterCount vol obj = n + 1) :
    getFat vol.fs window obj ((getFat vol.fs window obj)^[n] obj.sclust) =
        (getFat vol.fs window obj)^[n] obj.sclust + 1 ↔
      (clusters vol window obj).getLast? = some 0x7FFFFFFE := by
  have hends := h.ends
  rw [hn, Function.iterate_succ_apply'] at hends
  rw [hends.eq_succ_iff (h.inRange n (hn ▸ Nat.lt_succ_self n)), getLast?_clusters hn, Option.some_inj]

theorem GenuineChain.agrees (h : GenuineChain vol window obj) (hsize : obj.objsize ≠ 0)
    (hlast : (clusters vol window obj).getLast? ≠ some 0x7FFFFFFE) {rdata : Rdata}
    (hrdata : rdata.isNull → rdata.rdatalen = 0) :
    Original.getFragList (clusterCount vol obj) vol window obj rdata =
      some (getFragList (some vol) window obj rdata) := by
  have hwell := h.wellFormed
  have hpos := (clusterCount_toNat vol hsize).2
  obtain ⟨n, hn⟩ : ∃ n, clusterCount vol obj = n + 1 := ⟨clusterCount vol obj - 1, by omega⟩
  have hends := mt (h.ends_succ_iff hn).mp hlast
  unfold WellFormed at hwell
  rw [h.getFragList_eq hsize, rdata.maxFragments_eq hrdata]
  rw [hn] at hwell ⊢
  exact Original.fragLoop_eq (linked_succ.mp hwell).2 hends _ _ _

/-- The count of the original, at the largest cluster number. -/
theorem GenuineChain.misses (h : GenuineChain vol window obj) (hsize : obj.objsize ≠ 0)
    (hlast : (clusters vol window obj).getLast? = some 0x7FFFFFFE) {rdata : Rdata}
    (hrdata : rdata.isNull → rdata.rdatalen = 0) {fuel : Nat} {r : Int × (Nat → BdFragment)}
    (hr : Original.getFragList fuel vol window obj rdata = some r) :
    (getFragList (some vol) window obj rdata).1 = r.1 + 1 := by
  have hwell := h.wellFormed
  have hpos := (clusterCount_toNat vol hsize).2
  obtain ⟨n, hn⟩ : ∃ n, clusterCount vol obj = n + 1 := ⟨clusterCount vol obj - 1, by omega⟩
  have hends := (h.ends_succ_iff hn).mpr hlast
  unfold WellFormed at hwell
  rw [h.getFragList_eq hsize, rdata.maxFragments_eq hrdata]
  rw [hn] at hwell ⊢
  exact Original.fragLoop_misses (linked_succ.mp hwell).2 hends hr

end Agreement

/-- Both functions give the same answer to every buffer. -/
def Agree (vol : Volume) (window : FatSectors) (obj : ObjId) : Prop :=
  ∀ rdata : Rdata, (rdata.isNull → rdata.rdatalen = 0) →
    ∃ fuel, Original.getFragList fuel vol window obj rdata = some (getFragList (some vol) window obj rdata)

theorem frag_lists_agree_iff {vol : Volume} {window : FatSectors} {obj : ObjId} (hsize : obj.objsize ≠ 0)
    (h : GenuineChain vol window obj) :
    Agree vol window obj ↔ (clusters vol window obj).getLast? ≠ some 0x7FFFFFFE := by
  constructor
  · intro hagree hlast
    have hnull : (⟨16, true, 0, fun _ => ⟨0, 0⟩⟩ : Rdata).isNull →
        (⟨16, true, 0, fun _ => ⟨0, 0⟩⟩ : Rdata).rdatalen = 0 := fun _ => rfl
    obtain ⟨fuel, hfuel⟩ := hagree _ hnull
    have hcount := h.misses hsize hlast hnull hfuel
    omega
  · intro hlast rdata hrdata
    exact ⟨_, h.agrees hsize hlast hrdata⟩

theorem frag_lists_agree_one : Agree (wideVolume 3 (by decide)) unreadable (contiguousFile (.ofNat 1)) := by
  have hcount : clusterCount (wideVolume 3 (by decide)) (contiguousFile (.ofNat 1)) = 1 := by decide
  have hwell : WellFormed (wideVolume 3 (by decide)) unreadable (contiguousFile (.ofNat 1)) :=
    wellFormed_contiguousFile (by decide) (by decide)
  refine (frag_lists_agree_iff (by decide) ⟨Linked.inRange hwell, ?_⟩).mpr ?_
  · rw [hcount]
    show getFat (wideVolume 3 (by decide)).fs unreadable (contiguousFile (.ofNat 1)) 2 = 0x7FFFFFFF
    decide
  · rw [getLast?_clusters hcount]
    decide

/-- An exFAT volume of a terabyte, with as many clusters as FatFs can number. -/
def fullVolume : Volume where
  fs := ⟨.exfat, 1, 512, 0x7FFFFFFF, 2048, 0x1000800, by decide, sectorSize_le, Nat.le_of_ble_eq_true rfl⟩
  bd := ⟨some "usb", 0, 1, 7, 512, 63, 0x82000000⟩
  ssize_eq := rfl

/-- A contiguous file of one byte in the last cluster. -/
def lastFile : ObjId := ⟨2, 0x7FFFFFFE, 1, 0, 0⟩

theorem last_cluster_missed :
    lastFile.objsize ≠ 0 ∧ GenuineChain fullVolume unreadable lastFile ∧
      ¬ Agree fullVolume unreadable lastFile := by
  have hcount : clusterCount fullVolume lastFile = 1 := by decide
  have hchain : GenuineChain fullVolume unreadable lastFile := by
    refine ⟨fun i hi => ?_, ?_⟩
    · rw [hcount, Nat.lt_one_iff] at hi
      subst hi
      exact ⟨by decide, by decide⟩
    · rw [hcount]
      show getFat fullVolume.fs unreadable lastFile 0x7FFFFFFE = 0x7FFFFFFF
      decide
  refine ⟨by decide, hchain, fun hagree => ?_⟩
  have hlast : (clusters fullVolume unreadable lastFile).getLast? =
      some 0x7FFFFFFE := getLast?_clusters hcount
  obtain ⟨fuel, hfuel⟩ := hagree ⟨16, true, 0, fun _ => ⟨0, 0⟩⟩ fun _ => rfl
  have hmissed := hchain.misses (by decide) hlast (fun _ => rfl) hfuel
  omega

end BdmAssault.FatFs
