import Mathlib.Tactic.IntervalCases
import BdmAssault.Mx4sio.Sdcard

/-! # What a read returns

The thread reverses sectors that have been received while the next one is under way. When it
returns, the sectors it counted hold what was received with the bits of each byte reversed,
and nothing will write to them.
-/

namespace BdmAssault.Mx4sio

open Lib

/-! ## Reversing a word -/

/-- The bytes of one word are those of the other with their bits reversed. -/
def BytesReversed (n m : Word) : Prop :=
  ∀ j < 4, ∀ b < 8, n.getLsbD (8 * j + b) = m.getLsbD (8 * j + (7 - b))

theorem swap4_getLsbD (n : Word) {i : Nat} (hi : i < 32) :
    (((n &&& 0xF0F0F0F0#32) >>> 4) ||| ((n &&& 0x0F0F0F0F#32) <<< 4)).getLsbD i =
      n.getLsbD (if i % 8 < 4 then i + 4 else i - 4) := by
  interval_cases i <;> simp

theorem swap2_getLsbD (n : Word) {i : Nat} (hi : i < 32) :
    (((n &&& 0xCCCCCCCC#32) >>> 2) ||| ((n &&& 0x33333333#32) <<< 2)).getLsbD i =
      n.getLsbD (if i % 4 < 2 then i + 2 else i - 2) := by
  interval_cases i <;> simp

theorem swap1_getLsbD (n : Word) {i : Nat} (hi : i < 32) :
    (((n &&& 0xAAAAAAAA#32) >>> 1) ||| ((n &&& 0x55555555#32) <<< 1)).getLsbD i =
      n.getLsbD (if i % 2 < 1 then i + 1 else i - 1) := by
  interval_cases i <;> simp

theorem reverseWord_bytesReversed (n : Word) : BytesReversed (reverseWord n) n := by
  intro j hj b hb
  unfold reverseWord
  rw [swap1_getLsbD _ (by omega), swap2_getLsbD _ (by split <;> omega),
    swap4_getLsbD _ (by split <;> split <;> omega)]
  congr 1
  split <;> split <;> split <;> omega

/-! ## The invariant -/

variable {buffer count : Nat} {s t : ReadState}

/-- Word `i` of sector `r` of the buffer. -/
def ReadState.word (s : ReadState) (buffer r i : Nat) : Word := s.mem (buffer + r * sectorWords + i)

/-- Word `i` of the transfer to sector `r`. -/
def ReadState.sent (s : ReadState) (r i : Nat) : Word := (s.received.getD r []).getD i 0

/-- The first `j` words of the sector whose turn it is have been reversed. -/
def Halfway (buffer : Nat) (s : ReadState) (j : Nat) : Prop :=
  ∀ i < sectorWords, s.word buffer s.cmd.sectorsReversed i =
    if i < j then reverseWord (s.sent s.cmd.sectorsReversed i) else s.sent s.cmd.sectorsReversed i

/-- There is a sector to be reversed. -/
def Due (s : ReadState) : Prop := s.cmd.sectorsReversed < s.received.length

/-- The sector whose turn it is, for each point of the thread. A sector that was reversed when
the read had been aborted is not counted and not looked at again. -/
def Current (buffer : Nat) (s : ReadState) : Pc → Prop
  | .enter => False
  | .clear => s.received = [] ∧ s.dma = none
  | .start => s.received = [] ∧ s.dma = none
  | .testAbort _ => Due s ∧ (s.cmd.abort = 0 → Halfway buffer s 0)
  | .load _ j => Due s ∧ Halfway buffer s j
  | .store _ j n => Due s ∧ Halfway buffer s j ∧ j < sectorWords ∧ n = reverseWord (s.sent s.cmd.sectorsReversed j)
  | .reversed _ => Due s ∧ Halfway buffer s sectorWords
  | .advance _ => Due s ∧ Halfway buffer s sectorWords
  | .returned k => k = s.cmd.sectorsReversed
  | _ => Due s → s.cmd.abort = 0 → Halfway buffer s 0

/-- Sectors before that one are reversed and those after it are as they were received; the
transfer under way goes to the sector after the last that was received. -/
structure Tracks (buffer count : Nat) (s : ReadState) : Prop where
  target : s.cmd.buffer = buffer
  sectorCount : s.cmd.sectorCount = count
  transferred : s.cmd.sectorsTransferred = s.received.length
  bound : s.received.length ≤ max count 1
  full : ∀ words ∈ s.received, words.length = sectorWords
  counted : s.cmd.sectorsReversed ≤ s.received.length
  done : ∀ r < s.cmd.sectorsReversed, ∀ i < sectorWords, s.word buffer r i = reverseWord (s.sent r i)
  raw : ∀ r, s.cmd.sectorsReversed < r → r < s.received.length → ∀ i < sectorWords,
    s.word buffer r i = s.sent r i
  current : Current buffer s s.pc
  dma : ∀ d, s.dma = some d → d.address = buffer + s.received.length * sectorWords ∧
    s.received.length < max count 1 ∧ d.words.length ≤ sectorWords ∧
    ∀ i < d.words.length, s.word buffer s.received.length i = d.words.getD i 0

/-- The thread goes on and touches nothing but the event flag. -/
theorem Tracks.goto (h : Tracks buffer count s) (reverse complete : Bool) (pc : Pc)
    (hpc : Current buffer s pc) :
    Tracks buffer count { s with reverse := reverse, complete := complete, pc := pc } := by
  refine ⟨h.target, h.sectorCount, h.transferred, h.bound, h.full, h.counted, h.done, h.raw, ?_, h.dma⟩
  cases pc <;> exact hpc

theorem word_of_ne {r r' i i' : Nat} (hi : i < sectorWords) (hi' : i' < sectorWords)
    (hne : r ≠ r' ∨ i ≠ i') : buffer + r * sectorWords + i ≠ buffer + r' * sectorWords + i' := by
  intro heq
  unfold sectorWords at *
  omega

theorem Tracks.start (h : Tracks buffer count s) (hpc : s.pc = .start) :
    Tracks buffer count { mxSio2StartRxDma buffer s with pc := .poll 0 } := by
  have hcurrent := h.current
  rw [hpc] at hcurrent
  obtain ⟨hreceived, -⟩ := hcurrent
  refine ⟨h.target, h.sectorCount, h.transferred, h.bound, h.full, h.counted, h.done, h.raw, ?_, ?_⟩
  · intro hdue
    have hdue : s.cmd.sectorsReversed < s.received.length := hdue
    rw [hreceived] at hdue
    exact absurd hdue (Nat.not_lt_zero _)
  · rintro d hd
    cases hd
    show buffer = buffer + s.received.length * sectorWords ∧ s.received.length < max count 1 ∧ _
    rw [hreceived]
    refine ⟨by simp, by simp, Nat.zero_le _, fun i hi => absurd hi (Nat.not_lt_zero i)⟩

/-- A word of the sector whose turn it is, reversed. -/
theorem Tracks.store {complete : Bool} {j : Nat} {n : Word} (h : Tracks buffer count s)
    (hpc : s.pc = .store complete j n) :
    Tracks buffer count { s with
      mem := Function.update s.mem (s.cmd.reversing j) n, pc := .load complete (j + 1) } := by
  have hcurrent := h.current
  rw [hpc] at hcurrent
  obtain ⟨hdue, hhalf, hj, hn⟩ := hcurrent
  have hdue : s.cmd.sectorsReversed < s.received.length := hdue
  have haddr : s.cmd.reversing j = buffer + s.cmd.sectorsReversed * sectorWords + j := by
    unfold DmaCommand.reversing
    rw [h.target]
  have hother : ∀ r i, i < sectorWords → r ≠ s.cmd.sectorsReversed ∨ i ≠ j →
      Function.update s.mem (s.cmd.reversing j) n (buffer + r * sectorWords + i) = s.word buffer r i := by
    intro r i hi hne
    rw [haddr, Function.update_of_ne (word_of_ne hi hj hne)]
    rfl
  refine ⟨h.target, h.sectorCount, h.transferred, h.bound, h.full, h.counted, ?_, ?_, ⟨hdue, ?_⟩, ?_⟩
  · intro r hr i hi
    exact (hother r i hi (.inl (Nat.ne_of_lt hr))).trans (h.done r hr i hi)
  · intro r hr hr' i hi
    exact (hother r i hi (.inl (Nat.ne_of_gt hr))).trans (h.raw r hr hr' i hi)
  · intro i hi
    by_cases hij : i = j
    · subst hij
      rw [if_pos (Nat.lt_succ_self i)]
      show Function.update s.mem (s.cmd.reversing i) n (buffer + s.cmd.sectorsReversed * sectorWords + i) = _
      rw [haddr, Function.update_self]
      exact hn
    · refine (hother _ i hi (.inr hij)).trans ((hhalf i hi).trans ?_)
      have hiff : i < j ↔ i < j + 1 := by omega
      simp only [hiff]
      rfl
  · intro d hd
    obtain ⟨haddress, hlt, hlen, hwords⟩ := h.dma d hd
    refine ⟨haddress, hlt, hlen, fun i hi => ?_⟩
    exact (hother _ i (Nat.lt_of_lt_of_le hi hlen) (.inl (Nat.ne_of_gt hdue))).trans (hwords i hi)

/-- The sector is counted. -/
theorem Tracks.advance {complete : Bool} (h : Tracks buffer count s) (hcount : count < 65536)
    (hpc : s.pc = .advance complete) :
    Tracks buffer count { s with
      cmd := { s.cmd with sectorsReversed := bump s.cmd.sectorsReversed }
      pc := .testTransferred complete } := by
  have hcurrent := h.current
  rw [hpc] at hcurrent
  obtain ⟨hdue, hhalf⟩ := hcurrent
  have hdue : s.cmd.sectorsReversed < s.received.length := hdue
  have hbump : bump s.cmd.sectorsReversed = s.cmd.sectorsReversed + 1 := by
    have hbound := h.bound
    unfold bump
    omega
  rw [hbump]
  refine ⟨h.target, h.sectorCount, h.transferred, h.bound, h.full, hdue, ?_, ?_, ?_, h.dma⟩
  · intro r hr i hi
    rcases Nat.lt_succ_iff_lt_or_eq.mp hr with hr | rfl
    · exact h.done r hr i hi
    · refine (hhalf i hi).trans ?_
      rw [if_pos hi]
      rfl
  · exact fun r hr hr' => h.raw r (Nat.lt_of_succ_lt hr) hr'
  · intro hmore _ i hi
    rw [if_neg (Nat.not_lt_zero i)]
    exact h.raw _ (Nat.lt_succ_self _) hmore i hi

/-- Before the call, or after its first step. -/
def Follows (buffer count : Nat) (s : ReadState) : Prop :=
  (s.pc = .enter ∧ s.dma = none ∧ s.received = []) ∨ Tracks buffer count s

theorem Tracks.entered (hdma : s.dma = none) (hreceived : s.received = []) :
    Tracks buffer count { s with cmd := ⟨buffer, count, 0, 0, .ok, 0⟩, pc := .clear } := by
  refine ⟨rfl, rfl, ?_, ?_, ?_, Nat.zero_le _, fun r hr => absurd hr (Nat.not_lt_zero r), ?_,
    ⟨hreceived, hdma⟩, ?_⟩
  · show 0 = s.received.length
    rw [hreceived]
    rfl
  · show s.received.length ≤ _
    rw [hreceived]
    exact Nat.zero_le _
  · show ∀ words ∈ s.received, _
    rw [hreceived]
    exact List.forall_mem_nil _
  · intro r _ hr
    have hr : r < s.received.length := hr
    rw [hreceived] at hr
    exact absurd hr (Nat.not_lt_zero r)
  · intro d hd
    have hd : s.dma = some d := hd
    rw [hdma] at hd
    cases hd

/-- The wait, and what it leaves the loop with. -/
theorem Tracks.poll {polls : Nat} (h : Tracks buffer count s) (hpc : s.pc = .poll polls)
    (hstep : spisdReadMultiDo buffer count s = some t) : Tracks buffer count t := by
  have hcurrent := h.current
  unfold spisdReadMultiDo at hstep
  rw [hpc] at hcurrent hstep
  have hany : ∀ pc, Current buffer s pc = Current buffer s (.poll polls) →
      Tracks buffer count { s with pc := pc } := by
    intro pc heq
    exact h.goto s.reverse s.complete pc (heq ▸ hcurrent)
  dsimp only at hstep
  split at hstep
  · split at hstep
    · cases hstep
      exact hany _ rfl
    · cases hstep
      exact hany _ rfl
  · cases hstep
    exact hany _ rfl

theorem Tracks.timeout (h : Tracks buffer count s) :
    Tracks buffer count { s with cmd := { s.cmd with abort := cmdAbortTransferTimeout }, pc := .leave } :=
  ⟨h.target, h.sectorCount, h.transferred, h.bound, h.full, h.counted, h.done, h.raw, nofun, h.dma⟩

/-- A sector is due when the handler has counted more than the thread. -/
theorem Tracks.testTransferred {complete : Bool} (h : Tracks buffer count s)
    (hpc : s.pc = .testTransferred complete) :
    Tracks buffer count { s with
      pc := if s.cmd.sectorsReversed < s.cmd.sectorsTransferred then .testAbort complete
            else .testComplete complete } := by
  have hcurrent := h.current
  rw [hpc] at hcurrent
  split
  · rename_i hlt
    rw [h.transferred] at hlt
    exact h.goto s.reverse s.complete (.testAbort complete) ⟨hlt, hcurrent hlt⟩
  · exact h.goto s.reverse s.complete (.testComplete complete) hcurrent

theorem Tracks.testAbort {complete : Bool} (h : Tracks buffer count s) (hpc : s.pc = .testAbort complete) :
    Tracks buffer count { s with
      pc := if s.cmd.abort = 0 then .load complete 0 else .testComplete complete } := by
  have hcurrent := h.current
  rw [hpc] at hcurrent
  split
  · rename_i habort
    exact h.goto s.reverse s.complete (.load complete 0) ⟨hcurrent.1, hcurrent.2 habort⟩
  · rename_i habort
    exact h.goto s.reverse s.complete (.testComplete complete) fun _ hnot => absurd hnot habort

/-- A word of the sector whose turn it is, read; after the last one the sector is reversed. -/
theorem Tracks.load {complete : Bool} {j : Nat} (h : Tracks buffer count s) (hpc : s.pc = .load complete j) :
    Tracks buffer count { s with
      pc := if j < sectorWords then .store complete j (reverseWord (s.mem (s.cmd.reversing j)))
            else .reversed complete } := by
  have hcurrent := h.current
  rw [hpc] at hcurrent
  split
  · rename_i hj
    refine h.goto s.reverse s.complete (.store complete j _) ⟨hcurrent.1, hcurrent.2, hj, ?_⟩
    have hword := hcurrent.2 j hj
    rw [if_neg (Nat.lt_irrefl j)] at hword
    unfold DmaCommand.reversing
    rw [h.target, ← hword]
    rfl
  · rename_i hj
    refine h.goto s.reverse s.complete (.reversed complete) ⟨hcurrent.1, fun i hi => ?_⟩
    rw [hcurrent.2 i hi, if_pos hi, if_pos (Nat.lt_of_lt_of_le hi (Nat.not_lt.mp hj))]

theorem Tracks.reversed {complete : Bool} (h : Tracks buffer count s) (hpc : s.pc = .reversed complete) :
    Tracks buffer count { s with
      pc := if s.cmd.abort = 0 then .advance complete else .testTransferred complete } := by
  have hcurrent := h.current
  rw [hpc] at hcurrent
  split
  · exact h.goto s.reverse s.complete (.advance complete) hcurrent
  · rename_i habort
    exact h.goto s.reverse s.complete (.testTransferred complete) fun _ hnot => absurd hnot habort

theorem Follows.thread (h : Follows buffer count s) (hcount : count < 65536)
    (hstep : spisdReadMultiDo buffer count s = some t) : Tracks buffer count t := by
  rcases h with ⟨hpc, hdma, hreceived⟩ | h
  · unfold spisdReadMultiDo at hstep
    rw [hpc] at hstep
    cases hstep
    exact .entered hdma hreceived
  have hcurrent := h.current
  have hthread := hstep
  unfold spisdReadMultiDo at hstep
  cases hpc : s.pc with
  | enter =>
      rw [hpc] at hcurrent
      exact hcurrent.elim
  | clear =>
      rw [hpc] at hcurrent hstep
      cases hstep
      exact h.goto false false .start hcurrent
  | start =>
      rw [hpc] at hstep
      cases hstep
      exact h.start hpc
  | poll polls => exact h.poll hpc hthread
  | timeout =>
      rw [hpc] at hstep
      cases hstep
      exact h.timeout
  | events reverse complete =>
      rw [hpc] at hcurrent hstep
      cases hstep
      cases reverse with
      | true => exact h.goto s.reverse s.complete (.clearReverse complete) hcurrent
      | false => exact h.goto s.reverse s.complete (.testComplete complete) hcurrent
  | clearReverse complete =>
      rw [hpc] at hcurrent hstep
      cases hstep
      exact h.goto false s.complete (.testTransferred complete) hcurrent
  | testTransferred complete =>
      rw [hpc] at hstep
      cases hstep
      exact h.testTransferred hpc
  | testAbort complete =>
      rw [hpc] at hstep
      cases hstep
      exact h.testAbort hpc
  | load complete j =>
      rw [hpc] at hstep
      cases hstep
      exact h.load hpc
  | store complete j n =>
      rw [hpc] at hstep
      cases hstep
      exact h.store hpc
  | reversed complete =>
      rw [hpc] at hstep
      cases hstep
      exact h.reversed hpc
  | advance complete =>
      rw [hpc] at hstep
      cases hstep
      exact h.advance hcount hpc
  | testComplete complete =>
      rw [hpc] at hcurrent hstep
      cases hstep
      cases complete with
      | true => exact h.goto s.reverse false .leave hcurrent
      | false => exact h.goto s.reverse s.complete (.poll 0) hcurrent
  | leave =>
      rw [hpc] at hstep
      cases hstep
      exact h.goto s.reverse s.complete (.returned _) rfl
  | returned k =>
      rw [hpc] at hstep
      cases hstep

/-- While a transfer is under way, the sector whose turn it is may be finished by the thread
alone; it may become due when the transfer ends. -/
theorem Current.carry {pc : Pc} (h : Current buffer s pc) (hdma : s.dma ≠ none)
    (hsame : t.cmd.sectorsReversed = s.cmd.sectorsReversed)
    (hkept : Due s → Due t ∧ (∀ j, Halfway buffer s j → Halfway buffer t j) ∧
      ∀ j, t.sent t.cmd.sectorsReversed j = s.sent s.cmd.sectorsReversed j)
    (hnew : Due t → ¬Due s → t.cmd.abort = 0 → Halfway buffer t 0)
    (habort : t.cmd.abort = 0 → s.cmd.abort = 0) : Current buffer t pc := by
  have hidle : (Due s → s.cmd.abort = 0 → Halfway buffer s 0) →
      Due t → t.cmd.abort = 0 → Halfway buffer t 0 := by
    intro hidle hdue ha
    by_cases hold : Due s
    · exact (hkept hold).2.1 0 (hidle hold (habort ha))
    · exact hnew hdue hold ha
  cases pc with
  | enter => exact h.elim
  | clear => exact absurd h.2 hdma
  | start => exact absurd h.2 hdma
  | testAbort c => exact ⟨(hkept h.1).1, fun ha => (hkept h.1).2.1 0 (h.2 (habort ha))⟩
  | load c j => exact ⟨(hkept h.1).1, (hkept h.1).2.1 j h.2⟩
  | store c j n =>
      obtain ⟨hdue, hhalf, hj, hn⟩ := h
      obtain ⟨hdue', hmap, hsent⟩ := hkept hdue
      exact ⟨hdue', hmap j hhalf, hj, by rw [hsent, hn]⟩
  | reversed c => exact ⟨(hkept h.1).1, (hkept h.1).2.1 _ h.2⟩
  | advance c => exact ⟨(hkept h.1).1, (hkept h.1).2.1 _ h.2⟩
  | poll n => exact hidle h
  | timeout => exact hidle h
  | events r c => exact hidle h
  | clearReverse c => exact hidle h
  | testTransferred c => exact hidle h
  | testComplete c => exact hidle h
  | leave => exact hidle h
  | returned k => exact h.trans hsame.symm

/-- The controller writes to the sector after the last that was received. -/
theorem Tracks.word {d : Dma} {w : Word} (h : Tracks buffer count s) (hdma : s.dma = some d)
    (hmore : d.words.length < sectorWords) : Tracks buffer count (storeWord d.address d.words w s) := by
  obtain ⟨haddress, hlt, hlen, hwords⟩ := h.dma d hdma
  have hother : ∀ r i, i < sectorWords → r ≠ s.received.length ∨ i ≠ d.words.length →
      (storeWord d.address d.words w s).word buffer r i = s.word buffer r i := by
    intro r i hi hne
    show Function.update s.mem (d.address + d.words.length) w (buffer + r * sectorWords + i) = _
    rw [haddress, Function.update_of_ne (word_of_ne hi hmore hne)]
    rfl
  have hcounted := h.counted
  have hhalf : ∀ j, Due s → Halfway buffer s j → Halfway buffer (storeWord d.address d.words w s) j := by
    intro j hdue hhalf i hi
    exact (hother _ i hi (.inl (Nat.ne_of_lt hdue))).trans (hhalf i hi)
  refine ⟨h.target, h.sectorCount, h.transferred, h.bound, h.full, h.counted, ?_, ?_, ?_, ?_⟩
  · intro r hr i hi
    exact (hother r i hi (.inl (Nat.ne_of_lt (Nat.lt_of_lt_of_le hr hcounted)))).trans (h.done r hr i hi)
  · intro r hr hr' i hi
    exact (hother r i hi (.inl (Nat.ne_of_lt hr'))).trans (h.raw r hr hr' i hi)
  · refine h.current.carry (by rw [hdma]; exact nofun) rfl (fun hdue => ⟨hdue, fun j => hhalf j hdue, fun _ => rfl⟩)
      (fun hdue hnot => absurd hdue hnot) fun habort => habort
  · rintro d' hd'
    cases hd'
    refine ⟨haddress, hlt, ?_, fun i hi => ?_⟩
    · show (d.words ++ [w]).length ≤ sectorWords
      rw [List.length_append]
      exact hmore
    · have hi : i < (d.words ++ [w]).length := hi
      rw [List.length_append, List.length_singleton] at hi
      show _ = (d.words ++ [w]).getD i 0
      by_cases hlast : i = d.words.length
      · subst hlast
        show Function.update s.mem (d.address + d.words.length) w
          (buffer + s.received.length * sectorWords + d.words.length) = _
        rw [haddress, Function.update_self]
        simp
      · have hi : i < d.words.length := by omega
        refine (hother _ i (Nat.lt_trans hi hmore) (.inr hlast)).trans ((hwords i hi).trans ?_)
        simp [List.getD_eq_getElem?_getD, List.getElem?_append_left hi]

theorem sent_append {r : Nat} (words : List Word) (i : Nat) (hr : r < s.received.length) :
    ((s.received ++ [words]).getD r []).getD i 0 = s.sent r i := by
  unfold ReadState.sent
  simp [List.getD_eq_getElem?_getD, List.getElem?_append_left hr]

/-- The words of the transfer are in the sector after the last that was received, and that
sector has now been received. -/
theorem Tracks.received {d : Dma} (h : Tracks buffer count s) (hcount : count < 65536)
    (hdma : s.dma = some d) (hfull : d.words.length = sectorWords) (abort : Nat)
    (habort : abort = 0 → s.cmd.abort = 0) (response : SpisdResult) (complete : Bool) :
    Tracks buffer count { s with
      dma := none, received := s.received ++ [d.words], reverse := true, complete := complete
      cmd := { s.cmd with
        response := response, sectorsTransferred := bump s.cmd.sectorsTransferred, abort := abort } } := by
  obtain ⟨-, hlt, -, hwords⟩ := h.dma d hdma
  have hcounted := h.counted
  have hlast : ∀ i < sectorWords, s.word buffer s.received.length i =
      ((s.received ++ [d.words]).getD s.received.length []).getD i 0 := by
    intro i hi
    rw [hwords i (hfull ▸ hi)]
    simp [List.getD_eq_getElem?_getD]
  have hlength : (s.received ++ [d.words]).length = s.received.length + 1 := by simp
  refine ⟨h.target, h.sectorCount, ?_, ?_, ?_, ?_, ?_, ?_, ?_, nofun⟩
  · show bump s.cmd.sectorsTransferred = (s.received ++ [d.words]).length
    rw [h.transferred, hlength]
    unfold bump
    omega
  · show (s.received ++ [d.words]).length ≤ _
    omega
  · intro words hmem
    rcases List.mem_append.mp hmem with hmem | hmem
    · exact h.full words hmem
    · rw [List.mem_singleton.mp hmem]
      exact hfull
  · show s.cmd.sectorsReversed ≤ (s.received ++ [d.words]).length
    omega
  · intro r hr i hi
    refine (h.done r hr i hi).trans ?_
    rw [← sent_append d.words i (Nat.lt_of_lt_of_le hr hcounted)]
    rfl
  · intro r hr hr' i hi
    have hr : s.cmd.sectorsReversed < r := hr
    have hr' : r < (s.received ++ [d.words]).length := hr'
    by_cases hnew : r = s.received.length
    · subst hnew
      exact hlast i hi
    · have hold : r < s.received.length := by omega
      refine (h.raw r hr hold i hi).trans ?_
      rw [← sent_append d.words i hold]
      rfl
  · refine h.current.carry (by rw [hdma]; exact nofun) rfl ?_ ?_ habort
    · intro hdue
      refine ⟨?_, fun j hhalf i hi => ?_, fun j => sent_append d.words j hdue⟩
      · show s.cmd.sectorsReversed < (s.received ++ [d.words]).length
        exact Nat.lt_of_lt_of_le hdue (by omega)
      · refine (hhalf i hi).trans ?_
        rw [← sent_append d.words i hdue]
        rfl
    · intro _ hnot _ i hi
      have hturn : s.cmd.sectorsReversed = s.received.length := Nat.le_antisymm hcounted (Nat.not_lt.mp hnot)
      rw [if_neg (Nat.not_lt_zero i)]
      show s.word buffer s.cmd.sectorsReversed i = ((s.received ++ [d.words]).getD s.cmd.sectorsReversed []).getD i 0
      rw [hturn]
      exact hlast i hi

/-- The next transfer. -/
theorem Tracks.startNext {address : Nat} (h : Tracks buffer count s) (hne : s.received ≠ [])
    (haddress : address = buffer + s.received.length * sectorWords) (hlt : s.received.length < max count 1) :
    Tracks buffer count (mxSio2StartRxDma address s) := by
  refine ⟨h.target, h.sectorCount, h.transferred, h.bound, h.full, h.counted, h.done, h.raw, ?_, ?_⟩
  · have hcurrent := h.current
    show Current buffer (mxSio2StartRxDma address s) s.pc
    generalize s.pc = pc at hcurrent
    cases pc with
    | clear => exact absurd hcurrent.1 hne
    | start => exact absurd hcurrent.1 hne
    | _ => exact hcurrent
  · rintro d hd
    cases hd
    exact ⟨haddress, hlt, Nat.zero_le _, fun i hi => absurd hi (Nat.not_lt_zero i)⟩

theorem Tracks.interrupt {d : Dma} (h : Tracks buffer count s) (hcount : count < 65536)
    (hdma : s.dma = some d) (hfull : d.words.length = sectorWords) (transfer : Bool) (response : SpisdResult) :
    Tracks buffer count (mxSio2DmaIsrRx transfer response d.words s) := by
  unfold mxSio2DmaIsrRx
  cases transfer with
  | true =>
      have hu := fun complete =>
        h.received hcount hdma hfull s.cmd.abort (fun habort => habort) response complete
      simp only [if_true]
      split
      · rename_i hmore
        split
        · apply (hu s.complete).startNext
          · simp
          · show s.cmd.buffer + bump s.cmd.sectorsTransferred * sectorWords = _
            rw [show bump s.cmd.sectorsTransferred = (s.received ++ [d.words]).length from (hu true).transferred,
              h.target]
          · have hlt : bump s.cmd.sectorsTransferred < s.cmd.sectorCount := hmore.1
            rw [show bump s.cmd.sectorsTransferred = (s.received ++ [d.words]).length from (hu true).transferred,
              h.sectorCount] at hlt
            exact Nat.lt_of_lt_of_le hlt (Nat.le_max_left _ _)
        · exact h.received hcount hdma hfull cmdAbortNoReadToken nofun response true
      · exact hu true
  | false =>
      refine ⟨h.target, h.sectorCount, h.transferred, h.bound, h.full, h.counted, h.done, h.raw, ?_, nofun⟩
      exact h.current.carry (by rw [hdma]; exact nofun) rfl
        (fun hdue => ⟨hdue, fun j hhalf => hhalf, fun _ => rfl⟩) (fun hdue hnot => absurd hdue hnot) nofun

/-! ## Every run -/

theorem follows_step {a : ReadEvent} (hcount : count < 65536) (h : Follows buffer count s)
    (hstep : ReadStep buffer count s a t) : Tracks buffer count t := by
  cases hstep with
  | thread hthread => exact h.thread hcount hthread
  | word hdma hmore =>
      rcases h with ⟨-, hnone, -⟩ | h
      · rw [hnone] at hdma
        cases hdma
      · exact h.word hdma hmore
  | interrupt hdma hfull =>
      rcases h with ⟨-, hnone, -⟩ | h
      · rw [hnone] at hdma
        cases hdma
      · exact h.interrupt hcount hdma hfull _ _

theorem follows_invariant (buffer : Nat) (count : Fin 65536) :
    (readMulti buffer count).Invariant (fun _ _ => True) (Follows buffer count) where
  init _ h := .inl h
  step _ _ _ _ h _ hstep := .inr (follows_step count.isLt h hstep)

/-- After the return, no step writes to the sectors that were counted. -/
theorem Tracks.returned_step {a : ReadEvent} {k : Nat} (h : Tracks buffer count s) (hpc : s.pc = .returned k)
    (hstep : ReadStep buffer count s a t) :
    t.pc = .returned k ∧ ∀ r < k, ∀ i < sectorWords, t.word buffer r i = s.word buffer r i := by
  have hk : k = s.cmd.sectorsReversed := by
    have hcurrent := h.current
    rw [hpc] at hcurrent
    exact hcurrent
  cases hstep with
  | thread hthread =>
      unfold spisdReadMultiDo at hthread
      rw [hpc] at hthread
      cases hthread
  | @word address words w hdma hmore =>
      refine ⟨hpc, fun r hr i hi => ?_⟩
      have haddress : address = buffer + s.received.length * sectorWords := (h.dma _ hdma).1
      have hne : r ≠ s.received.length := by
        have hcounted := h.counted
        omega
      show Function.update s.mem (address + words.length) w (buffer + r * sectorWords + i) = _
      rw [haddress, Function.update_of_ne (word_of_ne hi hmore (.inl hne))]
      rfl
  | @interrupt address words transfer response hdma hfull =>
      have hsame : (mxSio2DmaIsrRx transfer response words s).pc = s.pc ∧
          (mxSio2DmaIsrRx transfer response words s).mem = s.mem := by
        unfold mxSio2DmaIsrRx mxSio2StartRxDma
        grind
      refine ⟨hsame.1.trans hpc, fun r hr i hi => ?_⟩
      unfold ReadState.word
      rw [hsame.2]

/-- What goes on after a given state. -/
def readMultiFrom (buffer : Nat) (count : Fin 65536) (s : ReadState) : System ReadState ReadEvent :=
  ⟨fun t => t = s, ReadStep buffer count⟩

theorem tracks_returned {buffer : Nat} {count : Fin 65536} {s : ReadState} {k : Nat}
    (h : (readMulti buffer count).Reachable (fun _ _ => True) s) (hpc : s.pc = .returned k) :
    Tracks buffer count s ∧ k = s.cmd.sectorsReversed := by
  rcases (follows_invariant buffer count).holds h with ⟨henter, -⟩ | htracks
  · rw [hpc] at henter
    cases henter
  · have hcurrent := htracks.current
    rw [hpc] at hcurrent
    exact ⟨htracks, hcurrent⟩

/-- When the read returns `k`, that many transfers were received, and the first `k` sectors
hold them with the bits of every byte reversed. Nothing that happens later writes to these
sectors. -/
theorem read_multi_returns {buffer : Nat} {count : Fin 65536} {s : ReadState} {k : Nat}
    (h : (readMulti buffer count).Reachable (fun _ _ => True) s) (hpc : s.pc = .returned k) :
    (∀ r < k, (s.received.getD r []).length = sectorWords ∧ ∀ i < sectorWords,
      BytesReversed (s.mem (buffer + r * sectorWords + i)) ((s.received.getD r []).getD i 0)) ∧
    (∀ t, (readMultiFrom buffer count s).Reachable (fun _ _ => True) t → t.pc = .returned k ∧
      ∀ r < k, ∀ i < sectorWords,
        t.mem (buffer + r * sectorWords + i) = s.mem (buffer + r * sectorWords + i)) ∧
    k ≤ s.received.length ∧ (k = count → count ≤ s.received.length) := by
  obtain ⟨htracks, hk⟩ := tracks_returned h hpc
  have hle : k ≤ s.received.length := hk ▸ htracks.counted
  refine ⟨fun r hr => ⟨?_, fun i hi => ?_⟩, fun t ht => ?_, hle, fun hcount => hcount ▸ hle⟩
  · have hlt : r < s.received.length := Nat.lt_of_lt_of_le hr hle
    apply htracks.full
    rw [List.getD_eq_getElem?_getD, List.getElem?_eq_getElem hlt]
    exact List.getElem_mem hlt
  · have hword := htracks.done r (hk ▸ hr) i hi
    unfold ReadState.word at hword
    rw [hword]
    exact reverseWord_bytesReversed _
  · have hafter : (readMultiFrom buffer count s).Invariant (fun _ _ => True) fun t =>
        Tracks buffer count t ∧ t.pc = .returned k ∧
          ∀ r < k, ∀ i < sectorWords, t.word buffer r i = s.word buffer r i := by
      constructor
      · rintro t rfl
        exact ⟨htracks, hpc, fun _ _ _ _ => rfl⟩
      · intro t a u _ ⟨ht, htpc, hsame⟩ _ hstep
        obtain ⟨hupc, hkept⟩ := ht.returned_step htpc hstep
        exact ⟨follows_step count.isLt (.inr ht) hstep, hupc,
          fun r hr i hi => (hkept r hr i hi).trans (hsame r hr i hi)⟩
    exact (hafter.holds ht).2

/-! ## A read of one sector -/

section Witness

/-- Before a call that reads one sector to address 0. -/
def idleRead : ReadState where
  cmd := ⟨0, 0, 0, 0, .ok, 0⟩
  mem _ := 0
  reverse := false
  complete := false
  dma := none
  received := []
  pc := .enter

/-- The first words of the sector have been stored. -/
theorem idleRead_words (n : Nat) (hn : n ≤ sectorWords) :
    ∃ s, (readMulti 0 1).Reachable (fun _ _ => True) s ∧ s.cmd = ⟨0, 1, 0, 0, .ok, 0⟩ ∧ s.pc = .poll 0 ∧
      s.received = [] ∧ s.dma = some ⟨0, List.replicate n 1⟩ := by
  induction n with
  | zero =>
      let entered : ReadState := { idleRead with cmd := ⟨0, 1, 0, 0, .ok, 0⟩, pc := .clear }
      let cleared : ReadState := { entered with pc := .start }
      let started : ReadState := { cleared with dma := some ⟨0, []⟩, pc := .poll 0 }
      have henter : ReadStep 0 1 idleRead .thread entered := .thread rfl
      have hclear : ReadStep 0 1 entered .thread cleared := .thread rfl
      have hstart : ReadStep 0 1 cleared .thread started := .thread rfl
      have hinit : (readMulti 0 1).Reachable (fun _ _ => True) idleRead := .init ⟨rfl, rfl, rfl⟩
      exact ⟨started, ((hinit.next trivial henter).next trivial hclear).next trivial hstart, rfl, rfl, rfl, rfl⟩
  | succ n ih =>
      obtain ⟨s, hs, hcmd, hpc, hreceived, hdma⟩ := ih (Nat.le_of_succ_le hn)
      have hmore : (List.replicate n (1 : Word)).length < sectorWords := by
        rw [List.length_replicate]
        exact hn
      refine ⟨_, hs.next trivial (.word (w := 1) hdma hmore), hcmd, hpc, hreceived, ?_⟩
      show some (Dma.mk 0 (List.replicate n 1 ++ [1])) = _
      rw [List.replicate_succ']

/-- The thread can be at a given point after the sector was received. -/
def Stands (cmd : DmaCommand) (pc : Pc) : Prop :=
  ∃ s, (readMulti 0 1).Reachable (fun _ _ => True) s ∧ s.cmd = cmd ∧ s.pc = pc ∧
    s.received = [List.replicate sectorWords 1]

theorem Stands.step {cmd cmd' : DmaCommand} {pc pc' : Pc} (h : Stands cmd pc)
    (hstep : ∀ s : ReadState, s.cmd = cmd → s.pc = pc → ∃ t, spisdReadMultiDo 0 1 s = some t ∧
      t.cmd = cmd' ∧ t.pc = pc' ∧ t.received = s.received) : Stands cmd' pc' := by
  obtain ⟨s, hs, hcmd, hpc, hreceived⟩ := h
  obtain ⟨t, ht, hcmd', hpc', hsame⟩ := hstep s hcmd hpc
  exact ⟨t, hs.next trivial (.thread ht), hcmd', hpc', hsame.trans hreceived⟩

/-- The handler has set both bits and the thread has seen them. -/
theorem stands_events : Stands ⟨0, 1, 1, 0, .ok, 0⟩ (.events true true) := by
  obtain ⟨s, hs, hcmd, hpc, hreceived, hdma⟩ := idleRead_words sectorWords (Nat.le_refl _)
  have hfull : (List.replicate sectorWords (1 : Word)).length = sectorWords := List.length_replicate
  have hisr : mxSio2DmaIsrRx true .ok (List.replicate sectorWords 1) s = { s with
      dma := none, received := [List.replicate sectorWords 1], cmd := ⟨0, 1, 1, 0, .ok, 0⟩
      reverse := true, complete := true } := by
    unfold mxSio2DmaIsrRx
    rw [hcmd, hreceived]
    rfl
  have hstep : ReadStep 0 1 s (.interrupt true .ok) _ := .interrupt hdma hfull
  rw [hisr] at hstep
  have hseen : spisdReadMultiDo 0 1 { s with
      dma := none, received := [List.replicate sectorWords 1], cmd := ⟨0, 1, 1, 0, .ok, 0⟩
      reverse := true, complete := true } = some { s with
      dma := none, received := [List.replicate sectorWords 1], cmd := ⟨0, 1, 1, 0, .ok, 0⟩
      reverse := true, complete := true, pc := .events true true } := by
    unfold spisdReadMultiDo
    rw [hpc]
    rfl
  exact ⟨_, (hs.next trivial hstep).next trivial (.thread hseen), rfl, rfl, rfl⟩

/-- All words of the sector are reversed one by one. -/
theorem stands_load (j : Nat) (hj : j ≤ sectorWords) : Stands ⟨0, 1, 1, 0, .ok, 0⟩ (.load true j) := by
  induction j with
  | zero =>
      have hclear : Stands ⟨0, 1, 1, 0, .ok, 0⟩ (.clearReverse true) := stands_events.step fun s hcmd hpc =>
        ⟨{ s with pc := .clearReverse true }, by simp [spisdReadMultiDo, hpc], hcmd, rfl, rfl⟩
      have htest : Stands ⟨0, 1, 1, 0, .ok, 0⟩ (.testTransferred true) := hclear.step fun s hcmd hpc =>
        ⟨{ s with reverse := false, pc := .testTransferred true }, by simp [spisdReadMultiDo, hpc], hcmd, rfl, rfl⟩
      have habort : Stands ⟨0, 1, 1, 0, .ok, 0⟩ (.testAbort true) := htest.step fun s hcmd hpc =>
        ⟨{ s with pc := .testAbort true }, by simp [spisdReadMultiDo, hpc, hcmd], hcmd, rfl, rfl⟩
      exact habort.step fun s hcmd hpc =>
        ⟨{ s with pc := .load true 0 }, by simp [spisdReadMultiDo, hpc, hcmd], hcmd, rfl, rfl⟩
  | succ j ih =>
      have hload := ih (Nat.le_of_succ_le hj)
      obtain ⟨s, hs, hcmd, hpc, hreceived⟩ := hload
      have hlt : j < sectorWords := hj
      have hstore : spisdReadMultiDo 0 1 s =
          some { s with pc := .store true j (reverseWord (s.mem (s.cmd.reversing j))) } := by
        simp [spisdReadMultiDo, hpc, hlt]
      exact ⟨_, (hs.next trivial (.thread hstore)).next trivial (.thread rfl), hcmd, rfl, hreceived⟩

theorem stands_returned : Stands ⟨0, 1, 1, 1, .ok, 0⟩ (.returned 1) := by
  have hreversed : Stands ⟨0, 1, 1, 0, .ok, 0⟩ (.reversed true) :=
    (stands_load sectorWords (Nat.le_refl _)).step fun s hcmd hpc =>
      ⟨{ s with pc := .reversed true }, by simp [spisdReadMultiDo, hpc], hcmd, rfl, rfl⟩
  have hadvance : Stands ⟨0, 1, 1, 0, .ok, 0⟩ (.advance true) := hreversed.step fun s hcmd hpc =>
    ⟨{ s with pc := .advance true }, by simp [spisdReadMultiDo, hpc, hcmd], hcmd, rfl, rfl⟩
  have htest : Stands ⟨0, 1, 1, 1, .ok, 0⟩ (.testTransferred true) := hadvance.step fun s hcmd hpc =>
    ⟨{ s with cmd := ⟨0, 1, 1, 1, .ok, 0⟩, pc := .testTransferred true },
      by simp [spisdReadMultiDo, hpc, hcmd, bump], rfl, rfl, rfl⟩
  have hcomplete : Stands ⟨0, 1, 1, 1, .ok, 0⟩ (.testComplete true) := htest.step fun s hcmd hpc =>
    ⟨{ s with pc := .testComplete true }, by simp [spisdReadMultiDo, hpc, hcmd], hcmd, rfl, rfl⟩
  have hleave : Stands ⟨0, 1, 1, 1, .ok, 0⟩ .leave := hcomplete.step fun s hcmd hpc =>
    ⟨{ s with complete := false, pc := .leave }, by simp [spisdReadMultiDo, hpc], hcmd, rfl, rfl⟩
  exact hleave.step fun s hcmd hpc =>
    ⟨{ s with pc := .returned 1 }, by simp [spisdReadMultiDo, hpc, hcmd], hcmd, rfl, rfl⟩

/-- The card sent the word 1 for the whole sector; the buffer holds it reversed. -/
theorem read_multi_returns_one : ∃ s : ReadState, s.pc = .returned 1 ∧
    s.received = [List.replicate sectorWords 1] ∧ ∀ i < sectorWords, BytesReversed (s.mem i) 1 := by
  obtain ⟨s, hs, -, hpc, hreceived⟩ := stands_returned
  obtain ⟨hreversed, -⟩ := read_multi_returns hs hpc
  refine ⟨s, hpc, hreceived, fun i hi => ?_⟩
  have hword := (hreversed 0 (by decide)).2 i hi
  rw [hreceived] at hword
  simpa [hi] using hword

end Witness

end BdmAssault.Mx4sio
