import Mathlib.Data.Finset.Card
import BdmAssault.Manager.GptScan

/-! # The partitions of a GPT disk

Which entries of the table become pseudo-devices, and with what parameters.
-/

namespace BdmAssault.Manager

/-! ## Slots -/

/-- The record of a device is not free for another one. -/
def InUse (s : Bdm) : Dev → Prop
  | .drv _ => True
  | .cache n => ∃ j, (s.mount j).bd ≠ none ∧ (s.mount j).cbd = some (.cache n)
  | .part k => s.part k ≠ none

def freeParts (s : Bdm) : Nat := (Finset.univ.filter fun k => s.part k = none).card

section Slots

variable {s : Bdm} {b bd : Dev} {acc : Bdm × Nat} {e : Entry} {k : Fin 10}

theorem InUse.connect (h : InUse s b) (d : Dev) :
    InUse (bdmConnectBd s d) b ∧ (bdmConnectBd s d).block b = s.block b := by
  rcases bdmConnectBd_cases s d with hsame | ⟨i, cbd, hp⟩
  · rw [hsame]
    exact ⟨h, rfl⟩
  · have hblock : (∀ n, b = .cache n → ∃ j, (s.mount j).cbd = some (.cache n)) →
        (bdmConnectBd s d).block b = s.block b := by
      intro hcache
      rcases hp.fresh with ⟨-, hb⟩ | ⟨n, -, hfree, hb⟩
      · rw [hb]
      · rw [hb, Function.update_of_ne]
        rintro rfl
        obtain ⟨j, hj⟩ := hcache n rfl
        exact hfree j hj
    cases b with
    | drv n => exact ⟨trivial, hblock nofun⟩
    | part k =>
        refine ⟨?_, hblock nofun⟩
        show (bdmConnectBd s d).part k ≠ none
        rw [hp.part]
        exact h
    | cache n =>
        obtain ⟨j, hj, hc⟩ := h
        have hmount := hp.occupied hj
        refine ⟨⟨j, hmount ▸ hj, hmount ▸ hc⟩, hblock fun n' hn' => ?_⟩
        cases hn'
        exact ⟨j, hc⟩

theorem InUse.assign (h : InUse s b) (free : s.part k = none) :
    InUse (setPart s k bd e) b ∧ (setPart s k bd e).block b = s.block b := by
  have hne : b ≠ .part k := by
    rintro rfl
    exact h free
  refine ⟨?_, Function.update_of_ne hne _ _⟩
  cases b with
  | drv n => trivial
  | cache n => exact h
  | part k' =>
      have hk : k' ≠ k := fun heq => hne (congrArg Dev.part heq)
      show Function.update s.part k (some bd) k' ≠ none
      rw [Function.update_of_ne hk]
      exact h

/-- An entry that finds a free slot. -/
theorem connectPartition_takes (bd : Dev) (e : Entry) (h : ∃ k, acc.1.part k = none) :
    ∃ k, acc.1.part k = none ∧
      (connectPartition bd acc e).1.part = Function.update acc.1.part k (some bd) ∧
      (connectPartition bd acc e).1.block (.part k) = pseudoDevice (acc.1.block bd) e ∧
      (connectPartition bd acc e).2 = acc.2 + 1 := by
  obtain ⟨k, hk⟩ := h
  unfold connectPartition
  cases hnext : getNextFreePartitionIndex acc.1 with
  | none =>
      have hall := List.find?_eq_none.mp hnext k (List.mem_finRange k)
      rw [hk] at hall
      exact absurd rfl hall
  | some k' =>
      have hfree : acc.1.part k' = none := by simpa using List.find?_some hnext
      have hself : InUse (setPart acc.1 k' bd e) (.part k') := by
        show Function.update acc.1.part k' (some bd) k' ≠ none
        rw [Function.update_self]
        nofun
      refine ⟨k', hfree, bdmConnectBd_part _ _, ?_, rfl⟩
      dsimp only
      rw [(hself.connect (.part k')).2]
      exact Function.update_self _ _ _

theorem InUse.connectPartition (h : InUse acc.1 b) (bd : Dev) (e : Entry) :
    InUse (connectPartition bd acc e).1 b ∧ (connectPartition bd acc e).1.block b = acc.1.block b := by
  rcases connectPartition_cases bd acc e with hsame | ⟨k, hfree, hstep⟩
  · rw [hsame]
    exact ⟨h, rfl⟩
  · rw [hstep]
    obtain ⟨huse, hblock⟩ : InUse (setPart acc.1 k bd e) b ∧
      (setPart acc.1 k bd e).block b = acc.1.block b := h.assign hfree
    exact ⟨(huse.connect _).1, (huse.connect _).2.trans hblock⟩

theorem InUse.connectAll {cs : List Considered} (h : InUse acc.1 b) :
    InUse (connectAll bd acc cs).1 b ∧ (connectAll bd acc cs).1.block b = acc.1.block b := by
  unfold Manager.connectAll
  induction cs generalizing acc with
  | nil => exact ⟨h, rfl⟩
  | cons c cs ih =>
      obtain ⟨huse, hblock⟩ := h.connectPartition bd c.made
      obtain ⟨huse', hblock'⟩ := ih huse
      exact ⟨huse', hblock'.trans hblock⟩

/-- A slot that is taken stays taken. -/
theorem connectPartition_part (bd : Dev) (e : Entry) (h : acc.1.part k ≠ none) :
    (connectPartition bd acc e).1.part k = acc.1.part k := by
  rcases connectPartition_cases bd acc e with hsame | ⟨k', hfree, hstep⟩
  · rw [hsame]
  · rw [hstep, bdmConnectBd_part]
    refine Function.update_of_ne (fun heq => h ?_) _ _
    rw [heq, hfree]

theorem connectAll_part {cs : List Considered} (h : acc.1.part k ≠ none) :
    (connectAll bd acc cs).1.part k = acc.1.part k := by
  unfold connectAll
  induction cs generalizing acc with
  | nil => rfl
  | cons c cs ih =>
      have hkeep := connectPartition_part bd c.made h
      exact (ih (hkeep ▸ h)).trans hkeep

theorem freeParts_update {s t : Bdm} (hk : s.part k = none)
    (h : t.part = Function.update s.part k (some bd)) : freeParts s = freeParts t + 1 := by
  have hset : (Finset.univ.filter fun k => t.part k = none) =
      (Finset.univ.filter fun k => s.part k = none).erase k := by
    ext j
    simp only [Finset.mem_filter, Finset.mem_univ, true_and, Finset.mem_erase, h]
    by_cases hj : j = k
    · subst hj
      simp
    · simp [hj]
  unfold freeParts
  rw [hset, Finset.card_erase_of_mem]
  · have : 0 < (Finset.univ.filter fun k => s.part k = none).card :=
      Finset.card_pos.mpr ⟨k, by simp [hk]⟩
    omega
  · simp [hk]

theorem freeParts_eq_zero : freeParts s = 0 ↔ ∀ k, s.part k ≠ none := by
  unfold freeParts
  rw [Finset.card_eq_zero, Finset.filter_eq_empty_iff]
  simp

/-! ### The slots of a whole table -/

/-- A slot that was taken holds one of the first entries. -/
theorem connectAll_taken (acc : Bdm × Nat) {cs : List Considered} (hbd : InUse acc.1 bd) (hfree : acc.1.part k = none)
    (htaken : (connectAll bd acc cs).1.part k ≠ none) :
    ∃ c ∈ cs.take (freeParts acc.1), (connectAll bd acc cs).1.part k = some bd ∧
      (connectAll bd acc cs).1.block (.part k) = pseudoDevice (acc.1.block bd) c.made := by
  induction cs generalizing acc with
  | nil => exact absurd hfree htaken
  | cons c cs ih =>
      have hnext : connectAll bd acc (c :: cs) = connectAll bd (connectPartition bd acc c.made) cs := rfl
      obtain ⟨k', hk', hpart, hblock, -⟩ := connectPartition_takes bd c.made ⟨k, hfree⟩
      obtain ⟨hbd', hsame⟩ := hbd.connectPartition bd c.made
      rw [freeParts_update hk' hpart, List.take_succ_cons]
      rw [hnext] at htaken ⊢
      by_cases hk : k = k'
      · subst hk
        have hself : (connectPartition bd acc c.made).1.part k = some bd := by
          rw [hpart, Function.update_self]
        have huse : InUse (connectPartition bd acc c.made).1 (.part k) := by
          show (connectPartition bd acc c.made).1.part k ≠ none
          rw [hself]
          nofun
        refine ⟨c, List.mem_cons_self, (connectAll_part huse).trans hself, huse.connectAll.2.trans hblock⟩
      · have hfree' : (connectPartition bd acc c.made).1.part k = none := by
          rw [hpart, Function.update_of_ne hk]
          exact hfree
        obtain ⟨c', hc', hpart', hblock'⟩ := ih _ hbd' hfree' htaken
        exact ⟨c', List.mem_cons_of_mem c hc', hpart', hsame ▸ hblock'⟩

/-- The entry that comes when a slot is free has one. -/
theorem connectAll_takes (acc : Bdm × Nat) {cs : List Considered} (c : Considered) (cs' : List Considered) (hbd : InUse acc.1 bd)
    (hfree : ∃ k, (connectAll bd acc cs).1.part k = none) :
    ∃ k, (connectAll bd acc cs).1.part k = none ∧
      (connectAll bd acc (cs ++ c :: cs')).1.part k = some bd ∧
      (connectAll bd acc (cs ++ c :: cs')).1.block (.part k) = pseudoDevice (acc.1.block bd) c.made := by
  obtain ⟨k, hk, hpart, hblock, -⟩ := connectPartition_takes bd c.made hfree
  have hself : (connectPartition bd (connectAll bd acc cs) c.made).1.part k = some bd := by
    rw [hpart, Function.update_self]
  have huse : InUse (connectPartition bd (connectAll bd acc cs) c.made).1 (.part k) := by
    show (connectPartition bd (connectAll bd acc cs) c.made).1.part k ≠ none
    rw [hself]
    nofun
  have hnext : connectAll bd acc (cs ++ c :: cs') =
      connectAll bd (connectPartition bd (connectAll bd acc cs) c.made) cs' := connectAll_append _ _
  rw [hnext]
  refine ⟨k, hk, (connectAll_part huse).trans hself, huse.connectAll.2.trans ?_⟩
  rw [hblock, hbd.connectAll.2]

theorem freeParts_connectAll (cs : List Considered) :
    freeParts (connectAll bd acc cs).1 = freeParts acc.1 - cs.length := by
  induction cs generalizing acc with
  | nil => rfl
  | cons c cs ih =>
      have hnext : connectAll bd acc (c :: cs) = connectAll bd (connectPartition bd acc c.made) cs := rfl
      rw [hnext, ih, List.length_cons]
      by_cases hfree : ∃ k, acc.1.part k = none
      · obtain ⟨k, hk, hpart, -⟩ := connectPartition_takes bd c.made hfree
        rw [freeParts_update hk hpart]
        omega
      · have hfull : ∀ k, acc.1.part k ≠ none := fun k hk => hfree ⟨k, hk⟩
        rw [connectPartition_full bd acc c.made hfull, freeParts_eq_zero.mpr hfull]
        omega

theorem connectAll_count (cs : List Considered) :
    (connectAll bd acc cs).2 = acc.2 + (cs.take (freeParts acc.1)).length := by
  induction cs generalizing acc with
  | nil => rw [List.take_nil]; rfl
  | cons c cs ih =>
      have hnext : connectAll bd acc (c :: cs) = connectAll bd (connectPartition bd acc c.made) cs := rfl
      rw [hnext, ih]
      by_cases hfree : ∃ k, acc.1.part k = none
      · obtain ⟨k, hk, hpart, -, hcount⟩ := connectPartition_takes bd c.made hfree
        rw [freeParts_update hk hpart, List.take_succ_cons, List.length_cons, hcount]
        omega
      · have hfull : ∀ k, acc.1.part k ≠ none := fun k hk => hfree ⟨k, hk⟩
        rw [connectPartition_full bd acc c.made hfull, freeParts_eq_zero.mpr hfull, List.take_zero,
          List.take_zero]

/-- Each of the first entries has a slot. -/
theorem connectAll_first (acc : Bdm × Nat) {cs : List Considered} {c : Considered} (hbd : InUse acc.1 bd)
    (hc : c ∈ cs.take (freeParts acc.1)) :
    ∃ k, acc.1.part k = none ∧ (connectAll bd acc cs).1.part k ≠ none ∧
      (connectAll bd acc cs).1.block (.part k) = pseudoDevice (acc.1.block bd) c.made := by
  obtain ⟨i, hi, rfl⟩ := List.mem_take_iff_getElem.mp hc
  have hsplit : cs = cs.take i ++ cs[i] :: cs.drop (i + 1) := by
    rw [List.getElem_cons_drop, List.take_append_drop]
  have hfree : ∃ k, (connectAll bd acc (cs.take i)).1.part k = none := by
    by_contra hfull
    have hzero := freeParts_eq_zero.mpr fun k hk => hfull ⟨k, hk⟩
    rw [freeParts_connectAll, List.length_take] at hzero
    omega
  obtain ⟨k, hk, hpart, hblock⟩ := connectAll_takes acc cs[i] (cs.drop (i + 1)) hbd hfree
  rw [← hsplit] at hpart hblock
  refine ⟨k, ?_, by rw [hpart]; nofun, hblock⟩
  by_contra hne
  exact hne ((connectAll_part hne).symm.trans hk)

end Slots

/-! ## Soundness -/

/-- The tables after the first `rounds` rounds of the scan. -/
def scanned (m : Medium) (bd : Dev) (header : GptPartitionTableHeader) (s : Bdm) (rounds : Nat) : Bdm :=
  (connectAll bd (s, 0) (mountable m header (entriesPerSector (s.block bd)) rounds)).1

/-- A pseudo-device that is the partition of entry `c`, at its index in the table. -/
structure Genuine (header : GptPartitionTableHeader) (eps : Nat) (c : Considered) (part : BlockDevice) :
    Prop where
  index : ∃ i < header.partitionCount.toNat, c.lba = header.partitionTableLba + .ofNat (i / eps) ∧
    c.x = i % eps ∧ part.parNr.toNat = i + 1
  type : c.entry.partitionTypeGuid ≠ nullGuid ∧ c.entry.partitionTypeGuid ≠ msReservedPartitionGuid ∧
    c.entry.partitionTypeGuid ≠ efiSystemPartition
  unignored : c.entry.attributeFlags &&& gptPartAttrIgnore = 0
  ordered : c.entry.firstLba ≤ c.entry.lastLba
  offset : part.sectorOffset = c.entry.firstLba
  count : part.sectorCount.toNat = c.entry.lastLba.toNat - c.entry.firstLba.toNat + 1
  inside : header.firstLba ≤ c.entry.firstLba ∧ c.entry.lastLba ≤ header.lastLba

/-- What the code does not test of an entry: that its index is less than the number of
entries and not negative, and that the range of sectors is not empty and can be counted. -/
structure Proper (header : GptPartitionTableHeader) (c : Considered) : Prop where
  counted : c.i < header.partitionCount
  signed : c.i < 0x80000000
  ordered : c.entry.firstLba ≤ c.entry.lastLba
  countable : ¬ (c.entry.firstLba = 0 ∧ c.entry.lastLba = 0xFFFFFFFFFFFFFFFF)

section Sound

variable {m : Medium} {header : GptPartitionTableHeader} {eps rounds : Nat} {c : Considered}

/-- Where the entries come from. -/
theorem mem_considered (heps : PerSector eps) (hc : c ∈ considered m header eps rounds) :
    ∃ n < rounds, c.x < eps ∧ c.i.toNat = eps * (n % (2 ^ 32 / eps)) + c.x ∧
      c.lba = header.partitionTableLba + .ofNat (gptOffset eps n) ∧
      ∃ sector, gptTableSector m header eps n = some sector ∧
        c.entry = gptPartitionTableEntry sector c.x := by
  obtain ⟨n, hn, hc⟩ := List.mem_flatMap.mp hc
  refine ⟨n, List.mem_range.mp hn, ?_⟩
  unfold roundEntries at hc
  cases hsector : gptTableSector m header eps n with
  | none =>
      rw [hsector] at hc
      cases hc
  | some sector =>
      rw [hsector] at hc
      obtain ⟨x, hx, rfl⟩ := List.mem_map.mp hc
      replace hx := List.mem_range.mp hx
      refine ⟨hx, ?_, gptTableLba_eq heps header n, sector, rfl, rfl⟩
      dsimp only
      rw [← Int32.ofNat_add, Int32.toUInt32_ofNat', UInt32.toNat_ofNat']
      rcases heps with rfl | rfl | rfl | rfl
      · omega
      · omega
      · omega
      · omega

theorem gptMountable_iff {e : GptPartitionTableEntry} : gptMountable header e = true ↔
    e.partitionTypeGuid ≠ nullGuid ∧ (header.firstLba ≤ e.firstLba ∧ e.lastLba ≤ header.lastLba) ∧
      e.partitionTypeGuid ≠ msReservedPartitionGuid ∧ e.partitionTypeGuid ≠ efiSystemPartition ∧
      e.attributeFlags &&& gptPartAttrIgnore = 0 := by
  simp only [gptMountable, Bool.and_eq_true, Bool.not_eq_true', Bool.or_eq_false_iff, decide_eq_true_eq,
    decide_eq_false_iff_not, UInt64.not_lt, and_assoc]

theorem made_count (h : c.entry.firstLba ≤ c.entry.lastLba)
    (hcountable : ¬ (c.entry.firstLba = 0 ∧ c.entry.lastLba = 0xFFFFFFFFFFFFFFFF)) :
    c.made.sectorCount.toNat = c.entry.lastLba.toNat - c.entry.firstLba.toNat + 1 := by
  have hne : ¬ (c.entry.firstLba.toNat = 0 ∧ c.entry.lastLba.toNat = 0xFFFFFFFFFFFFFFFF) :=
    fun hboth => hcountable ⟨UInt64.toNat_inj.mp hboth.1, UInt64.toNat_inj.mp hboth.2⟩
  rw [UInt64.le_iff_toNat_le] at h
  have hlast := c.entry.lastLba.toNat_lt
  show (c.entry.lastLba - c.entry.firstLba + 1).toNat = _
  rw [UInt64.toNat_add, UInt64.toNat_sub]
  show ((2 ^ 64 - c.entry.firstLba.toNat + c.entry.lastLba.toNat) % 2 ^ 64 + 1) % 2 ^ 64 = _
  omega

theorem Proper.genuine {bd : BlockDevice} (heps : PerSector eps) (h : Proper header c)
    (hc : c ∈ considered m header eps rounds) (hmountable : gptMountable header c.entry = true)
    (hoffset : bd.sectorOffset = 0) : Genuine header eps c (pseudoDevice bd c.made) := by
  obtain ⟨n, -, hx, hi, hlba, -⟩ := mem_considered heps hc
  obtain ⟨hnull, hinside, hreserved, hsystem, hattribute⟩ := gptMountable_iff.mp hmountable
  have hcounted := UInt32.lt_iff_toNat_lt.mp h.counted
  have hsigned : c.i.toNat < 0x80000000 := UInt32.lt_iff_toNat_lt.mp h.signed
  refine ⟨⟨c.i.toNat, hcounted, ?_, ?_, ?_⟩, ⟨hnull, hreserved, hsystem⟩, hattribute, h.ordered, ?_,
    made_count h.ordered h.countable, hinside⟩
  · rw [hlba]
    refine congrArg (header.partitionTableLba + UInt64.ofNat ·) ?_
    unfold gptOffset
    rcases heps with rfl | rfl | rfl | rfl
    · split <;> omega
    · split <;> omega
    · split <;> omega
    · split <;> omega
  · rw [hi, Nat.mul_add_mod, Nat.mod_eq_of_lt hx]
  · show (c.i + 1).toNat = _
    rw [UInt32.toNat_add]
    show (c.i.toNat + 1) % 2 ^ 32 = _
    omega
  · show bd.sectorOffset + c.entry.firstLba = _
    rw [hoffset, UInt64.zero_add]

/-- The record of a pseudo-device tells the index, the start and the end. -/
theorem Genuine.proper {bd : BlockDevice} {c' : Considered} (heps : PerSector eps)
    (h : Genuine header eps c' (pseudoDevice bd c.made)) (hc' : c' ∈ considered m header eps rounds)
    (hoffset : bd.sectorOffset = 0) : Proper header c := by
  obtain ⟨i, hlt, hlba, -, hparNr⟩ := h.index
  obtain ⟨n, -, -, -, hplace, -⟩ := mem_considered heps hc'
  have hi : c.i.toNat = i := by
    have hlow := c.i.toNat_lt
    replace hparNr : (c.i + 1).toNat = i + 1 := hparNr
    rw [UInt32.toNat_add] at hparNr
    replace hparNr : (c.i.toNat + 1) % 2 ^ 32 = i + 1 := hparNr
    omega
  have hsigned : i < 2 ^ 31 := by
    rw [hplace] at hlba
    have hsame := congrArg UInt64.toNat (UInt64.add_right_inj _ |>.mp hlba)
    have hlow := c.i.toNat_lt
    rw [UInt64.toNat_ofNat', UInt64.toNat_ofNat'] at hsame
    unfold gptOffset at hsame
    rcases heps with rfl | rfl | rfl | rfl
    · split at hsame <;> omega
    · split at hsame <;> omega
    · split at hsame <;> omega
    · split at hsame <;> omega
  have hfirst : c.entry.firstLba = c'.entry.firstLba := by
    have hsame : bd.sectorOffset + c.entry.firstLba = c'.entry.firstLba := h.offset
    rwa [hoffset, UInt64.zero_add] at hsame
  have hcount : (c.entry.lastLba - c.entry.firstLba + 1).toNat =
      c'.entry.lastLba.toNat - c'.entry.firstLba.toNat + 1 := h.count
  have hordered := UInt64.le_iff_toNat_le.mp h.ordered
  have hlast := c.entry.lastLba.toNat_lt
  have hlast' := c'.entry.lastLba.toNat_lt
  rw [UInt64.toNat_add, UInt64.toNat_sub, hfirst] at hcount
  replace hcount : ((2 ^ 64 - c'.entry.firstLba.toNat + c.entry.lastLba.toNat) % 2 ^ 64 + 1) % 2 ^ 64 =
    c'.entry.lastLba.toNat - c'.entry.firstLba.toNat + 1 := hcount
  refine ⟨?_, ?_, ?_, ?_⟩
  · rw [UInt32.lt_iff_toNat_lt, hi]
    exact hlt
  · rw [UInt32.lt_iff_toNat_lt, hi]
    exact hsigned
  · rw [UInt64.le_iff_toNat_le, hfirst]
    omega
  · rintro ⟨hzero, hmax⟩
    have hzero' : c'.entry.firstLba.toNat = 0 := by rw [← hfirst, hzero]; rfl
    have hmax' : c.entry.lastLba.toNat = 2 ^ 64 - 1 := by rw [hmax]; rfl
    omega

end Sound

theorem gptHeader_offset {m : Medium} {bd : BlockDevice} {header : GptPartitionTableHeader}
    (h : gptHeader m bd = some header) : bd.sectorOffset = 0 := by
  by_contra hne
  simp [gptHeader, hne] at h

theorem gpt_sound_iff {m : Medium} {s : Bdm} {bd : Dev} {header : GptPartitionTableHeader}
    (hheader : gptHeader m (s.block bd) = some header) (hbd : InUse s bd) :
    (∀ rounds, Passed m header (entriesPerSector (s.block bd)) rounds → ∀ k, s.part k = none →
      (scanned m bd header s rounds).part k ≠ none →
        ∃ c ∈ considered m header (entriesPerSector (s.block bd)) rounds,
          Genuine header (entriesPerSector (s.block bd)) c ((scanned m bd header s rounds).block (.part k))) ↔
      ∀ rounds, Passed m header (entriesPerSector (s.block bd)) rounds →
        ∀ c ∈ (mountable m header (entriesPerSector (s.block bd)) rounds).take (freeParts s),
          Proper header c := by
  have heps := gptHeader_perSector hheader
  have hoffset := gptHeader_offset hheader
  constructor
  · intro h rounds hpassed c hc
    obtain ⟨k, hfree, htaken, hblock⟩ := connectAll_first (s, 0) hbd hc
    obtain ⟨c', hc', hgenuine⟩ := h rounds hpassed k hfree htaken
    unfold scanned at hgenuine
    rw [hblock] at hgenuine
    exact hgenuine.proper heps hc' hoffset
  · intro h rounds hpassed k hfree htaken
    obtain ⟨c, hc, -, hblock⟩ := connectAll_taken (s, 0) hbd hfree htaken
    obtain ⟨hmem, hmountable⟩ := List.mem_filter.mp (List.mem_of_mem_take hc)
    refine ⟨c, hmem, ?_⟩
    unfold scanned
    rw [hblock]
    exact (h rounds hpassed c hc).genuine heps hmem hmountable hoffset

/-! ### Two disks -/

/-- A header with one entry, in the table at sector 2, and sectors up to 100. -/
def oneEntryHeader : Sector := fun k =>
  if k < 8 then efiPartitionSignature.getD k 0
  else if k = 0x30 then 100
  else if k = 0x48 then 2
  else if k = 0x50 then 1
  else 0

/-- The first entry of the table is a partition from `first` to `last`. -/
def oneEntryDisk (first last : UInt8) : Medium where
  alloc := true
  read n _ := some fun k =>
    if n = 0 then oneEntryHeader k
    else if k < 16 then 1
    else if k = 0x20 then first
    else if k = 0x28 then last
    else 0

def oneEntryTable : GptPartitionTableHeader := gptPartitionTableHeader oneEntryHeader

/-- Nothing is connected yet. -/
def noPartitions : Bdm := bdmInit (fun _ => wholeDisk) []

theorem passed_oneEntry {first last : UInt8} {rounds : Nat}
    (h : Passed (oneEntryDisk first last) oneEntryTable 4 rounds) : rounds = 0 ∨ rounds = 1 := by
  by_contra hmore
  have hinside := h.inside 1 (by omega)
  exact absurd hinside (by decide)

theorem gpt_sound_one :
    (scanned (oneEntryDisk 40 50) (.drv 0) oneEntryTable noPartitions 1).part 0 = some (.drv 0) ∧
      ∃ c ∈ considered (oneEntryDisk 40 50) oneEntryTable 4 1, Genuine oneEntryTable 4 c
        ((scanned (oneEntryDisk 40 50) (.drv 0) oneEntryTable noPartitions 1).block (.part 0)) := by
  have hheader : gptHeader (oneEntryDisk 40 50) (noPartitions.block (.drv 0)) = some oneEntryTable := rfl
  have hpart : (scanned (oneEntryDisk 40 50) (.drv 0) oneEntryTable noPartitions 1).part 0 = some (.drv 0) := by
    decide +kernel
  refine ⟨hpart, ?_⟩
  apply (gpt_sound_iff hheader trivial).mpr ?_ 1 (Passed.zero.next (by decide) rfl) 0 rfl
  · rw [hpart]
    exact Option.some_ne_none _
  · intro rounds hpassed c hc
    rcases passed_oneEntry hpassed with rfl | rfl
    · cases hc
    · have hmountable : (mountable (oneEntryDisk 40 50) oneEntryTable 4 1).map (fun c =>
          (c.i, c.entry.firstLba, c.entry.lastLba)) = [(0, 40, 50)] := by decide +kernel
      have hmem := List.mem_map_of_mem (f := fun c : Considered => (c.i, c.entry.firstLba, c.entry.lastLba))
        (List.mem_of_mem_take hc)
      rw [show mountable _ _ (entriesPerSector (noPartitions.block (.drv 0))) 1 =
        mountable (oneEntryDisk 40 50) oneEntryTable 4 1 from rfl, hmountable, List.mem_singleton] at hmem
      obtain ⟨hi, hfirst, hlast⟩ : c.i = 0 ∧ c.entry.firstLba = 40 ∧ c.entry.lastLba = 50 := by
        simpa only [Prod.mk.injEq] using hmem
      refine ⟨?_, ?_, ?_, ?_⟩
      · rw [hi]
        decide
      · rw [hi]
        decide
      · rw [hfirst, hlast]
        decide
      · rw [hfirst]
        exact fun h => absurd h.1 (by decide)

theorem inverted_entry_connected :
    Passed (oneEntryDisk 50 40) oneEntryTable 4 1 ∧
      (scanned (oneEntryDisk 50 40) (.drv 0) oneEntryTable noPartitions 1).part 0 = some (.drv 0) ∧
      ((scanned (oneEntryDisk 50 40) (.drv 0) oneEntryTable noPartitions 1).block (.part 0)).sectorCount =
        0xFFFFFFFFFFFFFFF7 ∧
      ¬ ∃ c ∈ considered (oneEntryDisk 50 40) oneEntryTable 4 1, Genuine oneEntryTable 4 c
        ((scanned (oneEntryDisk 50 40) (.drv 0) oneEntryTable noPartitions 1).block (.part 0)) := by
  have hoffset : ((scanned (oneEntryDisk 50 40) (.drv 0) oneEntryTable noPartitions 1).block
      (.part 0)).sectorOffset = 50 := by decide +kernel
  have hcount : ((scanned (oneEntryDisk 50 40) (.drv 0) oneEntryTable noPartitions 1).block
      (.part 0)).sectorCount = 0xFFFFFFFFFFFFFFF7 := by decide +kernel
  refine ⟨Passed.zero.next (by decide) rfl, by decide +kernel, hcount, ?_⟩
  rintro ⟨c, -, h⟩
  have hfirst : c.entry.firstLba = 50 := h.offset.symm.trans hoffset
  have hlast := h.count
  rw [hcount, hfirst] at hlast
  replace hlast : 0xFFFFFFFFFFFFFFF7 = c.entry.lastLba.toNat - 50 + 1 := hlast
  have hbound := c.entry.lastLba.toNat_lt
  omega

/-! ## Completeness -/

/-- The tables when entry `i` comes up. -/
def moment (m : Medium) (bd : Dev) (header : GptPartitionTableHeader) (s : Bdm) (rounds i : Nat) : Bdm :=
  (connectAll bd (s, 0) (((considered m header (entriesPerSector (s.block bd)) rounds).take i).filter
    fun c => gptMountable header c.entry)).1

/-- The scan of the whole table, with its result `r`. -/
structure Complete (m : Medium) (bd : Dev) (header : GptPartitionTableHeader) (s : Bdm) (rounds : Nat)
    (r : Bool) : Prop where
  order : (considered m header (entriesPerSector (s.block bd)) rounds).map (fun c => c.i.toNat) =
    List.range (entriesPerSector (s.block bd) * rounds)
  all : header.partitionCount.toNat ≤ entriesPerSector (s.block bd) * rounds
  place : ∀ c ∈ considered m header (entriesPerSector (s.block bd)) rounds,
    c.lba = header.partitionTableLba + .ofNat (c.i.toNat / entriesPerSector (s.block bd)) ∧
      c.x = c.i.toNat % entriesPerSector (s.block bd) ∧
      ∃ sector, m.read (c.i.toNat / entriesPerSector (s.block bd) + 1) c.lba = some sector ∧
        c.entry = gptPartitionTableEntry sector c.x
  connected : ∀ i c, (considered m header (entriesPerSector (s.block bd)) rounds)[i]? = some c →
    gptMountable header c.entry = true → (∃ k, (moment m bd header s rounds i).part k = none) →
      ∃ k, (moment m bd header s rounds i).part k = none ∧
        (scanned m bd header s rounds).part k = some bd ∧
        (scanned m bd header s rounds).block (.part k) = pseudoDevice (s.block bd) c.made ∧
        ((scanned m bd header s rounds).block (.part k)).parNr.toNat = i + 1
  result : r = true ↔ ∃ k, s.part k = none ∧ (scanned m bd header s rounds).part k = some bd

section Complete

variable {m : Medium} {header : GptPartitionTableHeader} {eps rounds : Nat} {s : Bdm} {bd : Dev}

theorem roundEntries_index {n : Nat} (hread : (gptTableSector m header eps n).isSome)
    (hlt : eps * (n + 1) ≤ 2 ^ 32) :
    (roundEntries m header eps n).map (fun c => c.i.toNat) = (List.range eps).map (eps * n + ·) := by
  obtain ⟨sector, hsector⟩ := Option.isSome_iff_exists.mp hread
  unfold roundEntries
  rw [hsector]
  dsimp only
  rw [List.map_map]
  refine List.map_congr_left fun x hx => ?_
  have hx := List.mem_range.mp hx
  show (Int32.ofNat (eps * n) + .ofNat x).toUInt32.toNat = eps * n + x
  rw [← Int32.ofNat_add, Int32.toUInt32_ofNat', UInt32.toNat_ofNat']
  refine Nat.mod_eq_of_lt ?_
  rw [Nat.mul_succ] at hlt
  omega

theorem considered_index (hpassed : Passed m header eps rounds) (hlt : eps * rounds ≤ 2 ^ 32) :
    (considered m header eps rounds).map (fun c => c.i.toNat) = List.range (eps * rounds) := by
  induction rounds with
  | zero => rfl
  | succ rounds ih =>
      have hle : eps * rounds ≤ 2 ^ 32 := Nat.le_trans (Nat.mul_le_mul_left eps (Nat.le_succ rounds)) hlt
      rw [considered_succ, List.map_append, ih hpassed.prior hle,
        roundEntries_index (hpassed.read rounds (Nat.lt_succ_self _)) hlt, Nat.mul_succ, List.range_add]

/-- While `i` is not negative, the sectors are those of the table. -/
theorem gptOffset_of_lt (heps : PerSector eps) {n : Nat} (h : eps * n < 2 ^ 31) : gptOffset eps n = n := by
  unfold gptOffset
  rcases heps with rfl | rfl | rfl | rfl
  · split <;> omega
  · split <;> omega
  · split <;> omega
  · split <;> omega

theorem connectAll_result (hbd : InUse s bd) (cs : List Considered) :
    0 < (connectAll bd (s, 0) cs).2 ↔ ∃ k, s.part k = none ∧ (connectAll bd (s, 0) cs).1.part k = some bd := by
  rw [connectAll_count, Nat.zero_add, List.length_pos_iff_exists_mem]
  constructor
  · rintro ⟨c, hc⟩
    obtain ⟨k, hfree, htaken, -⟩ := connectAll_first (s, 0) hbd hc
    obtain ⟨-, -, hpart, -⟩ := connectAll_taken (s, 0) hbd hfree htaken
    exact ⟨k, hfree, hpart⟩
  · rintro ⟨k, hfree, hpart⟩
    obtain ⟨c, hc, -⟩ := connectAll_taken (s, 0) hbd hfree (by rw [hpart]; nofun)
    exact ⟨c, hc⟩

theorem connected_at (hbd : InUse s bd) {i : Nat} {c : Considered}
    (hc : (considered m header (entriesPerSector (s.block bd)) rounds)[i]? = some c)
    (hmountable : gptMountable header c.entry = true)
    (hfree : ∃ k, (moment m bd header s rounds i).part k = none) :
    ∃ k, (moment m bd header s rounds i).part k = none ∧
      (scanned m bd header s rounds).part k = some bd ∧
      (scanned m bd header s rounds).block (.part k) = pseudoDevice (s.block bd) c.made := by
  obtain ⟨hlt, hget⟩ := List.getElem?_eq_some_iff.mp hc
  have hsplit := List.take_append_drop i (considered m header (entriesPerSector (s.block bd)) rounds)
  rw [← List.getElem_cons_drop hlt, hget] at hsplit
  unfold scanned mountable
  rw [← hsplit, List.filter_append, List.filter_cons_of_pos (p := fun c : Considered => gptMountable header c.entry) hmountable]
  exact connectAll_takes (s, 0) c _ hbd hfree

end Complete

theorem gpt_complete {m : Medium} {s : Bdm} {bd : Dev} {header : GptPartitionTableHeader}
    (hheader : gptHeader m (s.block bd) = some header) (hbd : InUse s bd)
    (hcount : header.partitionCount.toNat < 2 ^ 31)
    (hread : ∀ n, entriesPerSector (s.block bd) * n < header.partitionCount.toNat →
      (m.read (n + 1) (header.partitionTableLba + .ofNat n)).isSome) :
    ∃ rounds r, Complete m bd header s rounds r ∧
      ∀ fuel, rounds < fuel → partConnectGpt fuel m s bd = some (r, scanned m bd header s rounds) := by
  have heps := gptHeader_perSector hheader
  generalize hper : entriesPerSector (s.block bd) = eps at heps hread
  obtain ⟨rounds, hall, hlast, hwhole⟩ : ∃ rounds, header.partitionCount.toNat ≤ eps * rounds ∧
      (∀ n < rounds, eps * n < header.partitionCount.toNat) ∧ eps * rounds ≤ 2 ^ 31 := by
    refine ⟨(header.partitionCount.toNat + eps - 1) / eps, ?_⟩
    rcases heps with rfl | rfl | rfl | rfl
    · exact ⟨by omega, fun n hn => by omega, by omega⟩
    · exact ⟨by omega, fun n hn => by omega, by omega⟩
    · exact ⟨by omega, fun n hn => by omega, by omega⟩
    · exact ⟨by omega, fun n hn => by omega, by omega⟩
  have hsector : ∀ n < rounds, gptTableSector m header eps n =
      m.read (n + 1) (header.partitionTableLba + .ofNat n) := by
    intro n hn
    have hlt := hlast n hn
    unfold gptTableSector
    rw [gptTableLba_eq heps, gptOffset_of_lt heps (by omega)]
  have hpassed : Passed m header eps rounds := by
    refine ⟨fun n hn => ?_, fun n hn => ?_⟩
    · have hlt := hlast n hn
      rw [UInt32.lt_iff_toNat_lt, index_toNat, Nat.mod_eq_of_lt (by omega)]
      exact hlt
    · rw [hsector n hn]
      exact hread n (hlast n hn)
  have hend : ¬ (Int32.ofNat (eps * rounds)).toUInt32 < header.partitionCount := by
    rw [UInt32.lt_iff_toNat_lt, index_toNat, Nat.mod_eq_of_lt (by omega)]
    omega
  have horder := considered_index hpassed (by omega)
  subst hper
  refine ⟨rounds, decide (0 < (connectAll bd (s, 0)
    (mountable m header (entriesPerSector (s.block bd)) rounds)).2),
    ⟨horder, hall, fun c hc => ?_, fun i c hc hmountable hfree => ?_, ?_⟩, fun fuel hfuel => ?_⟩
  · obtain ⟨n, hn, hx, hi, hlba, sector, hsome, hentry⟩ := mem_considered heps hc
    have hlt := hlast n hn
    have hmod : n % (2 ^ 32 / entriesPerSector (s.block bd)) = n := by
      refine Nat.mod_eq_of_lt ?_
      rcases heps with heps | heps | heps | heps <;> rw [heps] at hlt ⊢ <;> omega
    rw [hmod] at hi
    have hdiv : c.i.toNat / entriesPerSector (s.block bd) = n := by
      rw [hi, Nat.mul_add_div (by omega), Nat.div_eq_of_lt hx, Nat.add_zero]
    rw [hsector n hn] at hsome
    rw [gptOffset_of_lt heps (by omega)] at hlba
    rw [hdiv, hlba]
    refine ⟨rfl, ?_, sector, hsome, hentry⟩
    rw [hi, Nat.mul_add_mod, Nat.mod_eq_of_lt hx]
  · obtain ⟨k, hk, hpart, hblock⟩ := connected_at hbd hc hmountable hfree
    refine ⟨k, hk, hpart, hblock, ?_⟩
    have hget : (List.range (entriesPerSector (s.block bd) * rounds))[i]? = some c.i.toNat := by
      rw [← horder, List.getElem?_map, hc]
      rfl
    obtain ⟨hlt, hi⟩ := List.getElem?_eq_some_iff.mp hget
    rw [List.length_range] at hlt
    rw [List.getElem_range] at hi
    rw [hblock]
    show (c.i + 1).toNat = i + 1
    rw [UInt32.toNat_add, ← hi]
    show (i + 1) % 2 ^ 32 = i + 1
    exact Nat.mod_eq_of_lt (by omega)
  · rw [decide_eq_true_iff]
    exact connectAll_result hbd _
  · obtain ⟨more, rfl⟩ := Nat.exists_eq_add_of_lt hfuel
    unfold partConnectGpt
    rw [hheader]
    dsimp only
    rw [Nat.add_assoc, gptLoop_rounds heps hpassed, gptLoop_stops heps fun inside => absurd inside hend,
      decide_eq_true hend, Bool.true_and]
    rfl

theorem gpt_complete_one : ∃ rounds r,
    Complete (oneEntryDisk 40 50) (.drv 0) oneEntryTable noPartitions rounds r ∧
      ∀ fuel, rounds < fuel → partConnectGpt fuel (oneEntryDisk 40 50) noPartitions (.drv 0) =
        some (r, scanned (oneEntryDisk 40 50) (.drv 0) oneEntryTable noPartitions rounds) := by
  have hheader : gptHeader (oneEntryDisk 40 50) (noPartitions.block (.drv 0)) = some oneEntryTable := rfl
  exact gpt_complete hheader trivial (by decide) fun _ _ => rfl

/-! ## Scans that fail -/

/-- A failed scan leaves `g_part` and `g_mount` as they were. -/
def Atomic (s : Bdm) (result : Bool × Bdm) : Prop :=
  result.1 = false → result.2.part = s.part ∧ result.2.mount = s.mount

/-- A scan that was cut short has filled one of the free slots. -/
theorem gptLoop_cut {m : Medium} {s : Bdm} {bd : Dev} {header : GptPartitionTableHeader} {eps n p x : Nat}
    {sector : Sector} {k : Fin 10} (heps : PerSector eps) (hpassed : Passed m header eps n)
    (inside : (Int32.ofNat (eps * n)).toUInt32 < header.partitionCount)
    (unread : gptTableSector m header eps n = none) (hp : p < n)
    (hsector : gptTableSector m header eps p = some sector) (hx : x < eps)
    (hmount : gptMountable header (gptPartitionTableEntry sector x) = true) (hfree : s.part k = none) :
    ∃ s', gptLoop m bd header eps (n + 1) 0 0 (s, 0) = some (false, s') ∧ s'.part ≠ s.part := by
  refine ⟨(connectAll bd (s, 0) (mountable m header eps n)).1, ?_, fun hsame => ?_⟩
  · rw [gptLoop_rounds heps hpassed, gptLoop_stops heps fun _ => unread,
      decide_eq_false (not_not_intro inside)]
    rfl
  · -- the entry of the earlier sector was counted, and what is counted has a slot
    have hmem : (⟨gptTableLba header eps (.ofNat (eps * p)), x,
        (Int32.ofNat (eps * p) + .ofNat x).toUInt32, gptPartitionTableEntry sector x⟩ : Considered) ∈
          mountable m header eps n := by
      refine List.mem_filter.mpr ⟨List.mem_flatMap.mpr ⟨p, List.mem_range.mpr hp, ?_⟩, hmount⟩
      unfold roundEntries
      rw [hsector]
      exact List.mem_map.mpr ⟨x, List.mem_range.mpr hx, rfl⟩
    have hlength := List.length_pos_of_mem hmem
    have hfewer : freeParts (connectAll bd (s, 0) (mountable m header eps n)).1 =
        freeParts s - (mountable m header eps n).length := freeParts_connectAll _
    have hpos : freeParts s ≠ 0 := fun hzero => freeParts_eq_zero.mp hzero k hfree
    have hequal : freeParts (connectAll bd (s, 0) (mountable m header eps n)).1 = freeParts s := by
      unfold freeParts
      rw [hsame]
    omega

theorem scan_failure_atomic_iff {m : Medium} {s : Bdm} {bd : Dev} :
    (Atomic s (partConnectMbr m s bd) ∧
      ∀ fuel result, partConnectGpt fuel m s bd = some result → Atomic s result) ↔ CleanScan s bd m := by
  constructor
  · rintro ⟨-, hgpt⟩ ⟨k, hfree⟩ hfault
    obtain ⟨header, n, hheader, hpassed, inside, unread, p, hp, sector, hsector, x, hx, hmount⟩ := hfault
    obtain ⟨s', hloop, hpart⟩ := @gptLoop_cut m s bd header _ n p x sector k (gptHeader_perSector hheader)
      hpassed inside unread hp hsector hx hmount hfree
    refine hpart (hgpt (n + 1) (false, s') ?_ rfl).1
    unfold partConnectGpt
    rw [hheader]
    exact hloop
  · intro clean
    constructor
    · intro hfailed
      have hsame : (partConnectMbr m s bd).2 = s := by
        refine @fsConnectBd_refused .mbr ⟨m, 0, false⟩ s _ bd ?_ ?_
        · intro hbad
          cases hbad
        · show some (partConnectMbr m s bd) = _
          rw [← hfailed]
      rw [hsame]
      exact ⟨rfl, rfl⟩
    · rintro fuel ⟨r, s'⟩ hresult hfailed
      obtain rfl : r = false := hfailed
      have hsame : s' = s :=
        @fsConnectBd_refused .gpt ⟨m, fuel, false⟩ s s' bd (fun _ => clean) hresult
      rw [hsame]
      exact ⟨rfl, rfl⟩

/-- A table of two sectors with one partition in the first; the second cannot be read. -/
def cutDisk : Medium where
  alloc := true
  read n _ := if n = 2 then none else some fun k =>
    if n = 0 then (if k = 0x50 then 8 else oneEntryHeader k)
    else if k < 16 then 1
    else if k = 0x20 then 40
    else if k = 0x28 then 50
    else 0

theorem failed_scan_leaves_partition :
    ∃ s', partConnectGpt 2 cutDisk noPartitions (.drv 0) = some (false, s') ∧
      s'.part 0 = some (.drv 0) ∧ (s'.mount 0).bd = some (.part 0) ∧ ¬ Atomic noPartitions (false, s') := by
  have hrun : (partConnectGpt 2 cutDisk noPartitions (.drv 0)).map (fun r =>
      (r.1, r.2.part 0, (r.2.mount 0).bd)) = some (false, some (.drv 0), some (.part 0)) := by decide +kernel
  obtain ⟨⟨r, s'⟩, hresult, hparts⟩ := Option.map_eq_some_iff.mp hrun
  obtain ⟨hr, hpart, hmount⟩ : r = false ∧ s'.part 0 = some (.drv 0) ∧ (s'.mount 0).bd = some (.part 0) := by
    simpa only [Prod.mk.injEq] using hparts
  subst hr
  refine ⟨s', hresult, hpart, hmount, fun hatomic => ?_⟩
  have hsame : s'.part 0 = none := congrFun (hatomic rfl).1 0
  rw [hpart] at hsame
  cases hsame

end BdmAssault.Manager
