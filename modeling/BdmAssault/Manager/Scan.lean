import BdmAssault.Manager.Mount

/-! # What a connect, a scan and a mount attempt can do

`bdm_connect_bd` either leaves everything alone or fills one free slot. A scan of
a partition table is a sequence of such connects, and a mount attempt that fails
has changed nothing, except when a GPT scan was cut short half way.
-/

namespace BdmAssault.Manager

/-! ## Connecting -/

/-- `t` is `s` with `bd` placed in the free slot `i`. -/
structure Placed (s : Bdm) (bd : Dev) (i : Fin 20) (cbd : Option Dev) (t : Bdm) : Prop where
  allowed : ¬ (s.ataOnly = true ∧ foreignName (s.block bd).name = true)
  free : (s.mount i).bd = none
  mount : t.mount = Function.update s.mount i { s.mount i with bd := some bd, cbd := cbd }
  fresh : (cbd = none ∧ t.block = s.block) ∨ ∃ n, cbd = some (.cache n) ∧
    (∀ j, (s.mount j).cbd ≠ some (.cache n)) ∧
    t.block = Function.update s.block (.cache n) (s.block bd)
  part : t.part = s.part
  fs : t.fs = s.fs
  callback : t.callback = s.callback
  ataOnly : t.ataOnly = s.ataOnly
  event : t.event = { s.event with mount := true }

theorem createCache_cases (s : Bdm) (bd : Dev) :
    ∃ rest, ((createCache s bd).1 = none ∧ (createCache s bd).2 = { s with heap := rest }) ∨
      ∃ n, (createCache s bd).1 = some (.cache n) ∧ (∀ j, (s.mount j).cbd ≠ some (.cache n)) ∧
        (createCache s bd).2 =
          { s with heap := rest, block := Function.update s.block (.cache n) (s.block bd) } := by
  unfold createCache
  cases hheap : s.heap with
  | nil =>
      refine ⟨[], .inl ⟨rfl, ?_⟩⟩
      dsimp only
      rw [← hheap]
  | cons a rest =>
      refine ⟨rest, ?_⟩
      cases a with
      | none => exact .inl ⟨rfl, rfl⟩
      | some n =>
          dsimp only
          split
          · exact .inl ⟨rfl, rfl⟩
          · rename_i fresh
            exact .inr ⟨n, rfl, fun j hj => fresh ⟨j, hj⟩, rfl⟩

/-- The slot that `bdm_connect_bd` fills, if any. -/
def connectSlot (s : Bdm) (bd : Dev) : Option (Fin 20) :=
  if s.ataOnly && foreignName (s.block bd).name then none else freeMount s

theorem bdmConnectBd_slot (s : Bdm) (bd : Dev) :
    (connectSlot s bd = none ∧ bdmConnectBd s bd = s) ∨
      ∃ i cbd, connectSlot s bd = some i ∧ Placed s bd i cbd (bdmConnectBd s bd) := by
  unfold bdmConnectBd connectSlot
  split
  · exact .inl ⟨rfl, rfl⟩
  · rename_i allowed
    rw [Bool.and_eq_true] at allowed
    cases hfree : freeMount s with
    | none => exact .inl ⟨rfl, rfl⟩
    | some i =>
        have free : (s.mount i).bd = none := by
          simpa using List.find?_some hfree
        right
        dsimp only
        split
        · obtain ⟨rest, ⟨hc, hs⟩ | ⟨n, hc, fresh, hs⟩⟩ := createCache_cases s bd
          · refine ⟨i, none, rfl, ?_⟩
            rw [hc, hs]
            exact ⟨allowed, free, rfl, .inl ⟨rfl, rfl⟩, rfl, rfl, rfl, rfl, rfl⟩
          · refine ⟨i, some (.cache n), rfl, ?_⟩
            rw [hc, hs]
            exact ⟨allowed, free, rfl, .inr ⟨n, rfl, fresh, rfl⟩, rfl, rfl, rfl, rfl, rfl⟩
        · exact ⟨i, none, rfl, allowed, free, rfl, .inl ⟨rfl, rfl⟩, rfl, rfl, rfl, rfl, rfl⟩

theorem bdmConnectBd_cases (s : Bdm) (bd : Dev) :
    bdmConnectBd s bd = s ∨ ∃ i cbd, Placed s bd i cbd (bdmConnectBd s bd) := by
  rcases bdmConnectBd_slot s bd with ⟨-, h⟩ | ⟨i, cbd, -, h⟩
  · exact .inl h
  · exact .inr ⟨i, cbd, h⟩

section Placed

variable {s t : Bdm} {bd : Dev} {i : Fin 20} {cbd : Option Dev}

theorem Placed.self (h : Placed s bd i cbd t) :
    t.mount i = { s.mount i with bd := some bd, cbd := cbd } := by
  rw [h.mount, Function.update_self]

theorem Placed.other (h : Placed s bd i cbd t) {j : Fin 20} (hj : j ≠ i) :
    t.mount j = s.mount j := by
  rw [h.mount, Function.update_of_ne hj]

/-- A slot that holds a device is left alone. -/
theorem Placed.occupied (h : Placed s bd i cbd t) {j : Fin 20} (hj : (s.mount j).bd ≠ none) :
    t.mount j = s.mount j := by
  refine h.other fun e => hj ?_
  rw [e, h.free]

end Placed

theorem bdmConnectBd_occupied (s : Bdm) (bd : Dev) {j : Fin 20} (hj : (s.mount j).bd ≠ none) :
    (bdmConnectBd s bd).mount j = s.mount j := by
  rcases bdmConnectBd_cases s bd with h | ⟨i, cbd, h⟩
  · rw [h]
  · exact h.occupied hj

@[simp] theorem bdmConnectBd_part (s : Bdm) (bd : Dev) : (bdmConnectBd s bd).part = s.part := by
  rcases bdmConnectBd_cases s bd with hsame | ⟨i, cbd, hp⟩
  · rw [hsame]
  · exact hp.part

/-- The filesystem of a slot is not touched, not even that of the slot filled. -/
@[simp] theorem bdmConnectBd_fs (s : Bdm) (bd : Dev) (j : Fin 20) :
    ((bdmConnectBd s bd).mount j).fs = (s.mount j).fs := by
  rcases bdmConnectBd_cases s bd with hsame | ⟨i, cbd, hp⟩
  · rw [hsame]
  · by_cases hj : j = i
    · subst hj
      rw [hp.self]
    · rw [hp.other hj]

/-! ## Scanning -/

theorem connectPartition_cases (bd : Dev) (acc : Bdm × Nat) (e : Entry) :
    connectPartition bd acc e = acc ∨ ∃ k, acc.1.part k = none ∧
      connectPartition bd acc e = (bdmConnectBd (setPart acc.1 k bd e) (.part k), acc.2 + 1) := by
  unfold connectPartition
  cases hk : getNextFreePartitionIndex acc.1 with
  | none => exact .inl rfl
  | some k => exact .inr ⟨k, by simpa using List.find?_some hk, rfl⟩

theorem connectPartition_full (bd : Dev) (acc : Bdm × Nat) (e : Entry)
    (full : ∀ k, acc.1.part k ≠ none) : connectPartition bd acc e = acc := by
  rcases connectPartition_cases bd acc e with h | ⟨k, hk, -⟩
  · exact h
  · exact absurd hk (full k)

/-- As long as nothing is counted, nothing has changed. -/
theorem foldl_connectPartition_count (bd : Dev) (es : List Entry) (acc : Bdm × Nat) :
    acc.2 ≤ (es.foldl (connectPartition bd) acc).2 ∧
      ((es.foldl (connectPartition bd) acc).2 = acc.2 → es.foldl (connectPartition bd) acc = acc) := by
  induction es generalizing acc with
  | nil => exact ⟨Nat.le_refl _, fun _ => rfl⟩
  | cons e es ih =>
      rw [List.foldl_cons]
      obtain ⟨hle, heq⟩ := ih (connectPartition bd acc e)
      rcases connectPartition_cases bd acc e with h | ⟨k, -, h⟩
      · rw [h] at hle heq ⊢
        exact ⟨hle, heq⟩
      · have hcount : (connectPartition bd acc e).2 = acc.2 + 1 := by rw [h]
        refine ⟨by omega, fun hsame => ?_⟩
        omega

theorem foldl_connectPartition_full (bd : Dev) (es : List Entry) (acc : Bdm × Nat)
    (full : ∀ k, acc.1.part k ≠ none) : es.foldl (connectPartition bd) acc = acc := by
  induction es with
  | nil => rfl
  | cons e es ih => rw [List.foldl_cons, connectPartition_full bd acc e full, ih]

/-- The `n`-th table sector, as the scan reads it. -/
def gptTableSector (m : Medium) (header : GptPartitionTableHeader) (eps n : Nat) : Option Sector :=
  m.read (n + 1) (gptTableLba header eps (.ofNat (eps * n)))

/-- The table loop has gone past the first `n` table sectors. -/
structure Passed (m : Medium) (header : GptPartitionTableHeader) (eps n : Nat) : Prop where
  inside : ∀ p < n, (Int32.ofNat (eps * p)).toUInt32 < header.partitionCount
  read : ∀ p < n, (gptTableSector m header eps p).isSome

theorem Passed.zero {m : Medium} {header : GptPartitionTableHeader} {eps : Nat} :
    Passed m header eps 0 :=
  ⟨fun p hp => absurd hp (Nat.not_lt_zero p), fun p hp => absurd hp (Nat.not_lt_zero p)⟩

theorem Passed.next {m : Medium} {header : GptPartitionTableHeader} {eps n : Nat} {sector : Sector}
    (h : Passed m header eps n) (inside : (Int32.ofNat (eps * n)).toUInt32 < header.partitionCount)
    (read : gptTableSector m header eps n = some sector) : Passed m header eps (n + 1) where
  inside p hp := by
    rcases Nat.lt_succ_iff_lt_or_eq.mp hp with hp | rfl
    · exact h.inside p hp
    · exact inside
  read p hp := by
    rcases Nat.lt_succ_iff_lt_or_eq.mp hp with hp | rfl
    · exact h.read p hp
    · rw [read]; rfl

/-- The table entries a filesystem may turn into pseudo-devices. -/
def EntryOf (fs : FileSystem) (m : Medium) (bd : BlockDevice) (e : Entry) : Prop :=
  match fs with
  | .mbr => ∃ mbr, mbrTable m bd = some mbr ∧ e ∈ mbrEntries mbr
  | .gpt => ∃ header, gptHeader m bd = some header ∧ ∃ n sector,
      Passed m header (entriesPerSector bd) (n + 1) ∧
      gptTableSector m header (entriesPerSector bd) n = some sector ∧
      e ∈ gptEntries header (entriesPerSector bd) (.ofNat (entriesPerSector bd * n)) sector
  | .fatfs | .other _ => False

/-- Only devices that start at sector 0 have their tables read. -/
theorem EntryOf.sectorOffset {fs : FileSystem} {m : Medium} {bd : BlockDevice} {e : Entry}
    (h : EntryOf fs m bd e) : bd.sectorOffset = 0 := by
  by_contra hne
  cases fs with
  | mbr =>
      obtain ⟨mbr, htable, -⟩ := h
      simp [mbrTable, hne] at htable
  | gpt =>
      obtain ⟨header, hheader, -⟩ := h
      simp [gptHeader, hne] at hheader
  | fatfs => exact h
  | other n => exact h

section Keeps

variable {P : Bdm → Prop} {bd : Dev}

theorem foldl_connectPartition_keeps {es : List Entry}
    (body : ∀ acc, ∀ e ∈ es, P acc.1 → P (connectPartition bd acc e).1)
    (acc : Bdm × Nat) (h : P acc.1) : P (es.foldl (connectPartition bd) acc).1 :=
  List.foldlRecOn es (connectPartition bd) h fun acc hacc e he => body acc e he hacc

theorem gptLoop_keeps {m : Medium} {header : GptPartitionTableHeader} {eps : Nat}
    (body : ∀ acc n sector, Passed m header eps (n + 1) →
      gptTableSector m header eps n = some sector →
      ∀ e ∈ gptEntries header eps (.ofNat (eps * n)) sector, P acc.1 → P (connectPartition bd acc e).1)
    {fuel n : Nat} {acc : Bdm × Nat} {r : Bool} {s' : Bdm} (passed : Passed m header eps n)
    (hacc : P acc.1) (h : gptLoop m bd header eps fuel n (.ofNat (eps * n)) acc = some (r, s')) :
    P s' := by
  induction fuel generalizing n acc with
  | zero => cases h
  | succ fuel ih =>
      unfold gptLoop at h
      rw [← gptTableSector] at h
      split at h
      · rename_i inside
        split at h
        · cases hread : gptTableSector m header eps n with
          | none =>
              rw [hread] at h
              cases h
              exact hacc
          | some sector =>
              rw [hread] at h
              dsimp only at h
              rw [← Int32.ofNat_add, ← Nat.mul_succ] at h
              have hnext := passed.next inside hread
              refine ih hnext (foldl_connectPartition_keeps (fun acc e he => ?_) _ hacc) h
              exact body acc n sector hnext hread e he
        · exact ih passed hacc h
      · cases h
        exact hacc

/-- What every connected partition keeps, `connect_bd` keeps. -/
theorem fsConnectBd_keeps {fs : FileSystem} {a : Answer} {s s' : Bdm} {r : Bool}
    (body : ∀ acc e, EntryOf fs a.medium (s.block bd) e → P acc.1 →
      P (connectPartition bd acc e).1)
    (hs : P s) (h : fsConnectBd fs a s bd = some (r, s')) : P s' := by
  cases fs with
  | mbr =>
      simp only [fsConnectBd, partConnectMbr] at h
      cases htable : mbrTable a.medium (s.block bd) with
      | none =>
          rw [htable] at h
          cases h
          exact hs
      | some mbr =>
          rw [htable] at h
          cases h
          exact foldl_connectPartition_keeps (fun acc e he => body acc e ⟨mbr, htable, he⟩)
            (s, 0) hs
  | gpt =>
      simp only [fsConnectBd, partConnectGpt] at h
      cases hheader : gptHeader a.medium (s.block bd) with
      | none =>
          rw [hheader] at h
          cases h
          exact hs
      | some header =>
          rw [hheader] at h
          refine gptLoop_keeps (n := 0) (fun acc n sector passed hread e he => ?_) Passed.zero hs
            (by simpa using h)
          exact body acc e ⟨header, hheader, n, sector, passed, hread, he⟩
  | fatfs =>
      cases h
      exact hs
  | other n =>
      cases h
      exact hs

end Keeps

/-- A scan touches neither the registered filesystems nor an occupied slot. -/
theorem fsConnectBd_frame {fs : FileSystem} {a : Answer} {s s' : Bdm} {bd : Dev} {r : Bool}
    (h : fsConnectBd fs a s bd = some (r, s')) {j : Fin 20} (hj : (s.mount j).bd ≠ none) :
    s'.mount j = s.mount j := by
  refine fsConnectBd_keeps (P := fun t => t.mount j = s.mount j) (fun acc e _ hacc => ?_) rfl h
  rcases connectPartition_cases bd acc e with hc | ⟨k, -, hc⟩
  · rwa [hc]
  · rw [hc]
    have hsame : (setPart acc.1 k bd e).mount j = s.mount j := hacc
    rw [← hsame] at hj ⊢
    exact bdmConnectBd_occupied _ _ hj

theorem fsConnectBd_fs {fs : FileSystem} {a : Answer} {s s' : Bdm} {bd : Dev} {r : Bool}
    (h : fsConnectBd fs a s bd = some (r, s')) (j : Fin 20) :
    (s'.mount j).fs = (s.mount j).fs := by
  refine fsConnectBd_keeps (P := fun t => (t.mount j).fs = (s.mount j).fs)
    (fun acc e _ hacc => ?_) rfl h
  rcases connectPartition_cases bd acc e with hc | ⟨k, -, hc⟩
  · rwa [hc]
  · rw [hc, bdmConnectBd_fs]
    exact hacc

/-! ## GPT scans that are cut short -/

/-- The scan comes to a table sector that cannot be read, after one that holds an
entry to be mounted. -/
def LateFault (m : Medium) (bd : BlockDevice) : Prop :=
  ∃ header n, gptHeader m bd = some header ∧ Passed m header (entriesPerSector bd) n ∧
    (Int32.ofNat (entriesPerSector bd * n)).toUInt32 < header.partitionCount ∧
    gptTableSector m header (entriesPerSector bd) n = none ∧
    ∃ p < n, ∃ sector, gptTableSector m header (entriesPerSector bd) p = some sector ∧
      ∃ x < entriesPerSector bd, gptMountable header (gptPartitionTableEntry sector x) = true

/-- The read answers do not cut a GPT scan of `bd` short after a partition slot
was taken for one of its entries. -/
def CleanScan (s : Bdm) (bd : Dev) (m : Medium) : Prop :=
  (∃ k, s.part k = none) → ¬ LateFault m (s.block bd)

/-- What the table loop has behind it when it comes to sector `n`. -/
structure Scanned (m : Medium) (header : GptPartitionTableHeader) (eps : Nat) (s : Bdm)
    (n : Nat) (acc : Bdm × Nat) : Prop where
  passed : Passed m header eps n
  unchanged : acc.2 = 0 → acc.1 = s
  found : acc.2 ≠ 0 → (∃ k, s.part k = none) ∧ ∃ p < n, ∃ sector,
    gptTableSector m header eps p = some sector ∧
    ∃ x < eps, gptMountable header (gptPartitionTableEntry sector x) = true

theorem Scanned.next {m : Medium} {header : GptPartitionTableHeader} {eps n : Nat} {s : Bdm}
    {acc : Bdm × Nat} {bd : Dev} {sector : Sector} (h : Scanned m header eps s n acc)
    (inside : (Int32.ofNat (eps * n)).toUInt32 < header.partitionCount)
    (read : gptTableSector m header eps n = some sector) :
    Scanned m header eps s (n + 1)
      ((gptEntries header eps (.ofNat (eps * n)) sector).foldl (connectPartition bd) acc) where
  passed := h.passed.next inside read
  unchanged hzero := by
    obtain ⟨hle, heq⟩ := foldl_connectPartition_count bd
      (gptEntries header eps (.ofNat (eps * n)) sector) acc
    rw [heq (by omega)]
    exact h.unchanged (by omega)
  found hcount := by
    by_cases hacc : acc.2 = 0
    · -- the first partitions of the scan come from this sector
      have hsame := h.unchanged hacc
      cases hes : gptEntries header eps (.ofNat (eps * n)) sector with
      | nil =>
          rw [hes] at hcount
          exact absurd hacc hcount
      | cons e es =>
          refine ⟨?_, n, Nat.lt_succ_self n, sector, read, ?_⟩
          · by_contra full
            refine hcount ?_
            rw [foldl_connectPartition_full bd _ acc (by simpa [hsame] using full)]
            exact hacc
          · have hmem : e ∈ gptEntries header eps (.ofNat (eps * n)) sector := by rw [hes]; simp
            obtain ⟨x, hx, -⟩ := List.mem_map.mp hmem
            obtain ⟨hrange, hmount⟩ := List.mem_filter.mp hx
            exact ⟨x, List.mem_range.mp hrange, hmount⟩
    · obtain ⟨hfree, p, hp, hsector⟩ := h.found hacc
      exact ⟨hfree, p, by omega, hsector⟩

theorem gptLoop_refused {m : Medium} {bd : Dev} {header : GptPartitionTableHeader} {s s' : Bdm}
    (hheader : gptHeader m (s.block bd) = some header) (clean : CleanScan s bd m)
    {fuel n : Nat} {acc : Bdm × Nat}
    (hacc : Scanned m header (entriesPerSector (s.block bd)) s n acc)
    (h : gptLoop m bd header (entriesPerSector (s.block bd)) fuel n
      (.ofNat (entriesPerSector (s.block bd) * n)) acc = some (false, s')) : s' = s := by
  induction fuel generalizing n acc with
  | zero => cases h
  | succ fuel ih =>
      unfold gptLoop at h
      rw [← gptTableSector] at h
      split at h
      · rename_i inside
        split at h
        · cases hread : gptTableSector m header (entriesPerSector (s.block bd)) n with
          | none =>
              rw [hread] at h
              cases h
              refine hacc.unchanged ?_
              by_contra hcount
              obtain ⟨hfree, hfound⟩ := hacc.found hcount
              exact clean hfree ⟨header, n, hheader, hacc.passed, inside, hread, hfound⟩
          | some sector =>
              rw [hread] at h
              dsimp only at h
              rw [← Int32.ofNat_add, ← Nat.mul_succ] at h
              exact ih (hacc.next inside hread) h
        · exact ih hacc h
      · obtain ⟨hresult, hstate⟩ := Prod.mk.inj (Option.some.inj h)
        have hzero : acc.2 = 0 := by simpa using hresult
        rw [← hstate]
        exact hacc.unchanged hzero

/-- A filesystem that refuses a device leaves no trace. -/
theorem fsConnectBd_refused {fs : FileSystem} {a : Answer} {s s' : Bdm} {bd : Dev}
    (clean : fs = .gpt → CleanScan s bd a.medium)
    (h : fsConnectBd fs a s bd = some (false, s')) : s' = s := by
  cases fs with
  | mbr =>
      simp only [fsConnectBd, partConnectMbr] at h
      cases htable : mbrTable a.medium (s.block bd) with
      | none =>
          rw [htable] at h
          cases h
          rfl
      | some mbr =>
          rw [htable] at h
          have hboth := Prod.mk.inj (Option.some.inj h)
          have hcount := foldl_connectPartition_count bd (mbrEntries mbr) (s, 0)
          have hsame := hcount.2 (by simpa using hboth.1)
          rw [← hboth.2, hsame]
  | gpt =>
      simp only [fsConnectBd, partConnectGpt] at h
      cases hheader : gptHeader a.medium (s.block bd) with
      | none =>
          rw [hheader] at h
          cases h
          rfl
      | some header =>
          rw [hheader] at h
          refine gptLoop_refused (n := 0) hheader (clean rfl) ?_ (by simpa using h)
          exact ⟨Passed.zero, fun _ => rfl, fun hcount => absurd rfl hcount⟩
  | fatfs => exact (Prod.mk.inj (Option.some.inj h)).2.symm
  | other n => exact (Prod.mk.inj (Option.some.inj h)).2.symm

/-! ## Mount attempts -/

section Store

variable (s : Bdm) (i : Fin 20) (fs : FileSystem)

@[simp] theorem storeFs_self : (storeFs s i fs).mount i = { s.mount i with fs := some fs } := by
  simp [storeFs]

theorem storeFs_of_ne {i j : Fin 20} (h : j ≠ i) : (storeFs s i fs).mount j = s.mount j := by
  simp [storeFs, h]

@[simp] theorem storeFs_bd (j : Fin 20) : ((storeFs s i fs).mount j).bd = (s.mount j).bd := by
  by_cases h : j = i
  · subst h; rw [storeFs_self]
  · rw [storeFs_of_ne s fs h]

@[simp] theorem storeFs_cbd (j : Fin 20) : ((storeFs s i fs).mount j).cbd = (s.mount j).cbd := by
  by_cases h : j = i
  · subst h; rw [storeFs_self]
  · rw [storeFs_of_ne s fs h]

@[simp] theorem storeFs_offered (j : Fin 20) :
    ((storeFs s i fs).mount j).offered = (s.mount j).offered := by
  simp only [Mount.offered, storeFs_bd, storeFs_cbd]

end Store

/-- What every scan of the slot's device and the final store keep, an attempt keeps. -/
theorem bdmTryMount_keeps {P : Bdm → Prop} {i : Fin 20} {a : Fin 20 → Answer} {s s' : Bdm}
    (scan : ∀ fs ans t r t' bd, P t → (t.mount i).bd ≠ none → (t.mount i).offered = some bd →
      fsConnectBd fs ans t bd = some (r, t') → P t')
    (store : ∀ t fs, P t → P (storeFs t i fs))
    (hs : P s) (hbd : (s.mount i).bd ≠ none) (h : bdmTryMount i a s = some s') : P s' := by
  unfold bdmTryMount at h
  generalize List.finRange 20 = js at h
  induction js generalizing s with
  | nil =>
      cases h
      exact hs
  | cons j js ih =>
      unfold tryMountLoop at h
      split at h
      · exact ih hs hbd h
      · cases h
      · rename_i fs bd hfs hoff
        split at h
        · cases h
        · rename_i t hconnect
          cases h
          exact store t fs (scan fs (a j) s true t bd hs hbd hoff hconnect)
        · rename_i t hconnect
          refine ih (scan fs (a j) s false t bd hs hbd hoff hconnect) ?_ h
          rwa [fsConnectBd_frame hconnect hbd]

/-- Every GPT scan of the attempt is clean. -/
def CleanAttempt (s : Bdm) (i : Fin 20) (a : Fin 20 → Answer) : Prop :=
  ∀ j bd, s.fs j = some .gpt → (s.mount i).offered = some bd → CleanScan s bd (a j).medium

/-- A clean attempt changes nothing, or one filesystem accepts the device. -/
theorem tryMountLoop_cases {i : Fin 20} {a : Fin 20 → Answer} {js : List (Fin 20)} {s s' : Bdm}
    (clean : CleanAttempt s i a) (h : tryMountLoop i a js s = some s') :
    s' = s ∨ ∃ j fs bd t, s.fs j = some fs ∧ (s.mount i).offered = some bd ∧
      fsConnectBd fs (a j) s bd = some (true, t) ∧ s' = storeFs t i fs := by
  induction js with
  | nil =>
      cases h
      exact .inl rfl
  | cons j js ih =>
      unfold tryMountLoop at h
      split at h
      · exact ih h
      · cases h
      · rename_i fs bd hfs hoff
        split at h
        · cases h
        · rename_i t hconnect
          cases h
          exact .inr ⟨j, fs, bd, t, hfs, hoff, hconnect, rfl⟩
        · rename_i t hconnect
          have hsame := fsConnectBd_refused (fun e => clean j bd (e ▸ hfs) hoff) hconnect
          subst hsame
          exact ih h

theorem bdmTryMount_cases {i : Fin 20} {a : Fin 20 → Answer} {s s' : Bdm}
    (clean : CleanAttempt s i a) (h : bdmTryMount i a s = some s') :
    s' = s ∨ ∃ j fs bd t, s.fs j = some fs ∧ (s.mount i).offered = some bd ∧
      fsConnectBd fs (a j) s bd = some (true, t) ∧ s' = storeFs t i fs :=
  tryMountLoop_cases clean h

end BdmAssault.Manager
