import BdmAssault.Mx4sio.ReadMulti
import BdmAssault.Mx4sio.WriteMulti

/-! # The block device of an SD card

`spisd_read` and `spisd_write`: the attempts at a request, with what the card, the handlers
and the recovery may do in each of them.
-/

namespace BdmAssault.Mx4sio

open Lib

/-! ## Commands -/

inductive CardType where
  | mmc
  | sdv1
  | sdv2
  | sdv2hc
deriving DecidableEq

/-- The argument of CMD18 and CMD25. The sector is converted to 32 bits; cards other than SDHC
and SDXC are addressed in bytes. -/
def CardType.argument (card : CardType) (sector : Nat) : Nat :=
  let sector := sector % 4294967296
  if card ≠ .sdv2hc then sector * 512 % 4294967296 else sector

/-- The sector at which a card starts. -/
def CardType.sectorAt (card : CardType) (argument : Nat) : Nat :=
  if card ≠ .sdv2hc then argument / 512 else argument

/-- The sectors that an argument can name. -/
def CardType.sectors (card : CardType) : Nat := if card ≠ .sdv2hc then 8388608 else 4294967296

def SpisdResult.toUInt8 : SpisdResult → UInt8
  | .ok => 0
  | .error => 1
  | .noCard => 2
  | .timeout => 3

/-- `response` is the answer to CMD18. -/
def spisdReadMultiBegin (idle : SpisdResult) (response : UInt8) (token : SpisdResult) : UInt8 :=
  if idle = .ok then if response = 0 then token.toUInt8 else response else idle.toUInt8

/-- `response` is the answer to CMD25; the answers to CMD55 and ACMD23 are overwritten. -/
def spisdWriteMultiBegin (idle : SpisdResult) (response : UInt8) : UInt8 :=
  if idle = .ok then response else idle.toUInt8

/-- `response` is the byte that comes back for the stop token. -/
def spisdWriteMultiEnd (response : UInt8) (idle : SpisdResult) : UInt8 :=
  if response ≠ 0 then idle.toUInt8 else response

/-! ## Recovery -/

def baudDivFast : Nat := 2
def baudDivMedium : Nat := 4
def baudDivCompat : Nat := 8

/-- A round of `spisd_recover`: whether the line could be flushed, `spisd_init_card`, and
`spisd_get_card_info`. -/
structure RecoverRound where
  flushed : Bool
  init : SpisdResult
  info : UInt8

def recoverLoop (round : Nat → RecoverRound) : Nat → Nat → Nat → Option (SpisdResult × Nat)
  | 0, _, _ => none
  | rounds + 1, i, baud =>
      let baud := if baud = baudDivFast then baudDivMedium else baudDivCompat
      if (round i).flushed = false then some (.error, baud)
      else if (round i).init ≠ .ok then some (.error, baud)
      else if (round i).info = 0 then some (.ok, baud)
      else if baud = baudDivCompat then some (.error, baud)
      else recoverLoop round rounds (i + 1) baud

theorem recoverLoop_last {round : Nat → RecoverRound} {rounds i baud : Nat} (h : baud ≠ baudDivFast) :
    (recoverLoop round (rounds + 1) i baud).isSome := by
  unfold recoverLoop
  simp only [if_neg h, if_true]
  repeat' split
  all_goals rfl

/-- The loop ends in its second round, whatever the divider was. -/
theorem recoverLoop_ends (round : Nat → RecoverRound) (baud : Nat) :
    (recoverLoop round 2 0 baud).isSome := by
  by_cases hbaud : baud = baudDivFast
  · unfold recoverLoop
    simp only [if_pos hbaud]
    split
    · rfl
    · split
      · rfl
      · split
        · rfl
        · split
          · rfl
          · exact recoverLoop_last (by decide)
  · exact recoverLoop_last hbaud

/-- The result, and the divider that stays selected. -/
def spisdRecover (round : Nat → RecoverRound) (baud : Nat) : SpisdResult × Nat :=
  (recoverLoop round 2 0 baud).get (recoverLoop_ends round baud)

/-! ## Requests -/

/-- A sector of the card, and the words on the bus. -/
structure Moved where
  sector : Nat
  words : List Word

def movedFrom (sector : Nat) : List (List Word) → List Moved
  | [] => []
  | words :: rest => ⟨sector, words⟩ :: movedFrom (sector + 1) rest

/-- The variables of `spisd_read` and `spisd_write`; `broken` is that the loop was left by a
`break`. `moved` are the sectors that were transferred so far, and `closed` is whether the last
attempt was ended by an accepted stop with the card ready again, or by a recovery. -/
structure Request where
  sectorsLeft : Nat
  retries : Nat
  requestFailed : Bool
  broken : Bool
  sector : Nat
  buffer : Nat
  baud : Nat
  mem : Nat → Word
  moved : List Moved
  closed : Bool

def maxRetries : Nat := 4

def eio : Int := 5

/-- The condition of the loop. -/
def Request.Goes (s : Request) : Prop := 0 < s.sectorsLeft ∧ s.retries < maxRetries ∧ s.broken = false

def Request.result (count : Nat) (s : Request) : Int :=
  if s.sectorsLeft = 0 ∧ s.requestFailed = false then count else -eio

/-- `spisd_recover` at the end of an attempt; `failing` is whether a failure also sets
`request_failed`. -/
def Request.recover (round : Nat → RecoverRound) (failing : Bool) (s : Request) : Request :=
  let r := spisdRecover round s.baud
  if r.1 = .ok then { s with baud := r.2, closed := true, retries := s.retries + 1 }
  else { s with baud := r.2, closed := false, broken := true, requestFailed := s.requestFailed || failing }

/-- The progress of one transfer. `sectors_left` has 16 bits and `sector` has 64. -/
def Request.transfer (card : CardType) (blocks : List (List Word)) (results : Nat) (mem : Nat → Word)
    (s : Request) : Request :=
  let left := (s.sectorsLeft + 65536 - results) % 65536
  let moved := s.moved ++ movedFrom (card.sectorAt (card.argument s.sector)) blocks
  if 0 < left then
    { s with
      sectorsLeft := left, moved := moved, mem := mem, buffer := s.buffer + results * sectorWords
      sector := (s.sector + results) % 18446744073709551616 }
  else { s with sectorsLeft := left, moved := moved, mem := mem }

/-- What the outcomes of an attempt to read are. `transfer` is the state in which the DMA is
stopped or was already, with `results` returned; `response` and `stop` are the answers to
CMD18 and CMD12; `ready` is that the card is not busy when it has answered CMD12. -/
structure ReadOutcome where
  card : CardType
  idle : SpisdResult
  response : UInt8
  token : SpisdResult
  transfer : ReadState
  results : Nat
  stop : UInt8
  ready : Bool
  round : Nat → RecoverRound

def ReadOutcome.begins (o : ReadOutcome) : UInt8 := spisdReadMultiBegin o.idle o.response o.token

def readAttempt (o : ReadOutcome) (s : Request) : Request :=
  if o.begins ≠ 0 then s.recover o.round false
  else
    let s := s.transfer o.card o.transfer.received o.results o.transfer.mem
    if 0 < s.sectorsLeft ∧ o.transfer.cmd.abort = cmdAbortNoReadToken then s.recover o.round false
    else if o.transfer.cmd.abort = cmdAbortTransferTimeout then s.recover o.round true
    else if o.stop ≠ 0 then s.recover o.round true
    else { s with closed := o.ready, retries := s.retries + 1 }

structure WriteOutcome where
  card : CardType
  idle : SpisdResult
  response : UInt8
  transfer : WriteState
  results : Nat
  stop : UInt8
  programmed : SpisdResult
  round : Nat → RecoverRound

def WriteOutcome.begins (o : WriteOutcome) : UInt8 := spisdWriteMultiBegin o.idle o.response

/-- The words that the controller takes from memory for a sector. -/
def sectorOf (mem : Nat → Word) (address : Nat) : List Word :=
  (List.range sectorWords).map fun i => mem (address + i)

def writeAttempt (o : WriteOutcome) (s : Request) : Request :=
  if o.begins ≠ 0 then s.recover o.round false
  else
    let s := s.transfer o.card (o.transfer.accepted.map (sectorOf s.mem)) o.results s.mem
    if o.transfer.cmd.abort = cmdAbortTransferTimeout then s.recover o.round true
    else if spisdWriteMultiEnd o.stop o.programmed ≠ 0 then s.recover o.round true
    else { s with closed := o.stop ≠ 0, retries := s.retries + 1 }

/-! ## Runs -/

/-- At the call, with what is in memory. -/
def readMultiOn (mem : Nat → Word) (buffer count : Nat) : System ReadState ReadEvent :=
  ⟨fun s => s.pc = .enter ∧ s.dma = none ∧ s.received = [] ∧ s.mem = mem, ReadStep buffer count⟩

def Request.start (buffer sector count baud : Nat) (mem : Nat → Word) : Request :=
  ⟨count, 0, false, false, sector, buffer, baud, mem, [], false⟩

def reads (buffer sector count : Nat) (mem : Nat → Word) : System Request ReadOutcome where
  init s := ∃ baud, s = Request.start buffer sector count baud mem
  step s o t := s.Goes ∧ t = readAttempt o s ∧
    (o.begins = 0 → o.transfer.pc = .returned o.results ∧
      (readMultiOn s.mem s.buffer s.sectorsLeft).Reachable (fun _ _ => True) o.transfer)

/-- `reverse_buffer`. -/
def reverseBuffer (buffer : Nat) : Nat → (Nat → Word) → Nat → Word
  | 0, mem => mem
  | n + 1, mem =>
      let mem := reverseBuffer buffer n mem
      Function.update mem (buffer + n) (reverseWord (mem (buffer + n)))

def writes (buffer sector count : Nat) (mem : Nat → Word) : System Request WriteOutcome where
  init s := ∃ baud, s = Request.start buffer sector count baud (reverseBuffer buffer (count * sectorWords) mem)
  step s o t := s.Goes ∧ t = writeAttempt o s ∧
    (o.begins = 0 → o.transfer.pc = .returned o.results ∧
      (writeMulti s.buffer s.sectorsLeft).Reachable (fun _ _ => True) o.transfer)

/-- The memory when `spisd_write` returns. -/
def writtenMemory (buffer count : Nat) (s : Request) : Nat → Word :=
  reverseBuffer buffer (count * sectorWords) s.mem

/-! ## Words -/

theorem BytesReversed.symm {n m : Word} (h : BytesReversed n m) : BytesReversed m n := by
  intro j hj b hb
  rw [h j hj (7 - b) (by omega)]
  congr 2
  omega

theorem BytesReversed.unique {n n' m : Word} (h : BytesReversed n m) (h' : BytesReversed n' m) : n = n' := by
  refine BitVec.eq_of_getLsbD_eq fun i hi => ?_
  rw [show i = 8 * (i / 8) + i % 8 by omega, h _ (by omega) _ (by omega), h' _ (by omega) _ (by omega)]

theorem reverseWord_reverseWord (n : Word) : reverseWord (reverseWord n) = n :=
  (reverseWord_bytesReversed _).unique (reverseWord_bytesReversed n).symm

theorem reverseBuffer_apply (buffer n : Nat) (mem : Nat → Word) (a : Nat) :
    reverseBuffer buffer n mem a =
      if buffer ≤ a ∧ a < buffer + n then reverseWord (mem a) else mem a := by
  induction n with
  | zero => exact (if_neg (by omega)).symm
  | succ n ih =>
      unfold reverseBuffer
      by_cases hlast : a = buffer + n
      · subst hlast
        rw [if_neg (by omega)] at ih
        rw [Function.update_self, ih, if_pos (by omega)]
      · rw [Function.update_of_ne hlast, ih]
        have hiff : buffer ≤ a ∧ a < buffer + n ↔ buffer ≤ a ∧ a < buffer + (n + 1) := by omega
        simp only [hiff]

/-- Reversed twice, the buffer is as it was. -/
theorem reverseBuffer_twice (buffer n : Nat) (mem : Nat → Word) :
    reverseBuffer buffer n (reverseBuffer buffer n mem) = mem := by
  funext a
  rw [reverseBuffer_apply, reverseBuffer_apply]
  by_cases hin : buffer ≤ a ∧ a < buffer + n
  · rw [if_pos hin, if_pos hin, reverseWord_reverseWord]
  · rw [if_neg hin, if_neg hin]

theorem sectorAt_argument {card : CardType} {sector : Nat} (h : sector < card.sectors) :
    card.sectorAt (card.argument sector) = sector := by
  unfold CardType.sectors CardType.sectorAt CardType.argument at *
  dsimp only
  split at h
  · rename_i hbytes
    rw [if_pos hbytes, if_pos hbytes]
    omega
  · rename_i hbytes
    rw [if_neg hbytes, if_neg hbytes]
    omega

theorem mem_movedFrom {blocks : List (List Word)} {words : List Word} {r : Nat} (sector : Nat)
    (h : blocks[r]? = some words) : ⟨sector + r, words⟩ ∈ movedFrom sector blocks := by
  induction blocks generalizing sector r with
  | nil => exact nomatch h
  | cons block blocks ih =>
      cases r with
      | zero =>
          cases h
          exact List.mem_cons_self
      | succ r =>
          rw [Nat.add_comm r, ← Nat.add_assoc]
          exact List.mem_cons_of_mem _ (ih (sector + 1) h)

/-! ## One call of `spisd_read_multi_do` -/

section ReadMultiOn

variable {buffer count k : Nat} {mem : Nat → Word} {s t : ReadState}

/-- Nothing below the buffer is written. -/
theorem ReadStep.frame {a : ReadEvent} (h : Follows buffer count s) (hstep : ReadStep buffer count s a t)
    {x : Nat} (hx : x < buffer) : t.mem x = s.mem x := by
  cases hstep with
  | thread hthread =>
      unfold spisdReadMultiDo at hthread
      cases hpc : s.pc with
      | store complete i n =>
          rw [hpc] at hthread
          cases hthread
          rcases h with ⟨henter, -⟩ | h
          · exact nomatch henter.symm.trans hpc
          · refine Function.update_of_ne ?_ _ _
            unfold DmaCommand.reversing
            rw [h.target]
            omega
      | poll polls =>
          rw [hpc] at hthread
          dsimp only at hthread
          split at hthread
          · split at hthread <;> cases hthread <;> rfl
          · cases hthread
            rfl
      | testComplete complete =>
          rw [hpc] at hthread
          cases hthread
          cases complete <;> rfl
      | returned k =>
          rw [hpc] at hthread
          cases hthread
      | _ =>
          rw [hpc] at hthread
          cases hthread
          rfl
  | word hdma hmore =>
      rcases h with ⟨-, hnone, -⟩ | h
      · exact nomatch hnone.symm.trans hdma
      · refine Function.update_of_ne ?_ _ _
        have haddress := (h.dma _ hdma).1
        dsimp only at haddress
        omega
  | interrupt hdma hfull =>
      unfold mxSio2DmaIsrRx mxSio2StartRxDma
      grind

theorem readMultiOn_invariant (hcount : count < 65536) :
    (readMultiOn mem buffer count).Invariant (fun _ _ => True) fun s =>
      Follows buffer count s ∧ ∀ x < buffer, s.mem x = mem x where
  init _ h := ⟨.inl ⟨h.1, h.2.1, h.2.2.1⟩, fun x _ => congrFun h.2.2.2 x⟩
  step _ _ _ _ h _ hstep :=
    ⟨.inr (follows_step hcount h.1 hstep), fun x hx => (ReadStep.frame h.1 hstep hx).trans (h.2 x hx)⟩

/-- The sectors that are counted, with what was on the bus. -/
theorem read_multi_sectors (hcount : count < 65536)
    (h : (readMultiOn mem buffer count).Reachable (fun _ _ => True) s) (hpc : s.pc = .returned k) :
    k ≤ max count 1 ∧ (∀ x < buffer, s.mem x = mem x) ∧ ∀ r < k, ∃ words,
      s.received[r]? = some words ∧ words.length = sectorWords ∧
        ∀ j < sectorWords, BytesReversed (words.getD j 0) (s.mem (buffer + r * sectorWords + j)) := by
  obtain ⟨hfollows, hframe⟩ := (readMultiOn_invariant hcount).holds h
  rcases hfollows with ⟨henter, -⟩ | htracks
  · exact nomatch henter.symm.trans hpc
  · have hk : k = s.cmd.sectorsReversed := by
      have hcurrent := htracks.current
      rw [hpc] at hcurrent
      exact hcurrent
    refine ⟨hk ▸ Nat.le_trans htracks.counted htracks.bound, hframe, fun r hr => ?_⟩
    have hlt : r < s.received.length := Nat.lt_of_lt_of_le (hk ▸ hr) htracks.counted
    refine ⟨s.received[r], List.getElem?_eq_getElem hlt, htracks.full _ (List.getElem_mem hlt), fun j hj => ?_⟩
    have hword := htracks.done r (hk ▸ hr) j hj
    have hsent : s.received.getD r [] = s.received[r] := by
      rw [List.getD_eq_getElem?_getD, List.getElem?_eq_getElem hlt]
      rfl
    unfold ReadState.word ReadState.sent at hword
    rw [hword, hsent]
    exact (reverseWord_bytesReversed _).symm

end ReadMultiOn

/-! ## One attempt -/

/-- Sector `i` of the request was on the bus with the words of the buffer, the bits of each byte
in the other order. -/
def Carried (moved : List Moved) (mem : Nat → Word) (sector buffer i : Nat) : Prop :=
  ∃ words, ⟨sector + i, words⟩ ∈ moved ∧ words.length = sectorWords ∧
    ∀ j < sectorWords, BytesReversed (words.getD j 0) (mem (buffer + i * sectorWords + j))

/-- The pointer and the sector are those of the first sector that is left. -/
structure Progress (buffer sector count : Nat) (s : Request) : Prop where
  left : s.sectorsLeft ≤ count
  buffer : 0 < s.sectorsLeft → s.buffer = buffer + (count - s.sectorsLeft) * sectorWords
  sector : 0 < s.sectorsLeft → s.sector = (sector + (count - s.sectorsLeft)) % 18446744073709551616

/-- An attempt is counted, or it was the last. -/
def Counts (s t : Request) : Prop :=
  (t.retries = s.retries + 1 ∧ t.broken = false) ∨ (t.retries = s.retries ∧ t.broken = true)

/-- The request would succeed only if its last attempt was closed. -/
def Request.Closes (s : Request) : Prop := s.sectorsLeft = 0 → s.requestFailed = false → s.closed = true

section Attempt

variable {buffer sector count results : Nat} {card : CardType} {blocks : List (List Word)} {s : Request}
  {m m' mem : Nat → Word} {round : Nat → RecoverRound} {failing : Bool}

/-- What a recovery leaves. -/
theorem recover_spec : (s.recover round failing).sectorsLeft = s.sectorsLeft ∧
    (s.recover round failing).sector = s.sector ∧ (s.recover round failing).buffer = s.buffer ∧
    (s.recover round failing).mem = s.mem ∧ (s.recover round failing).moved = s.moved ∧
    (s.broken = false → Counts s (s.recover round failing)) ∧
    (failing = true → (s.recover round failing).Closes) := by
  unfold Request.recover
  dsimp only
  split
  · exact ⟨rfl, rfl, rfl, rfl, rfl, fun hb => .inl ⟨rfl, hb⟩, fun _ _ _ => rfl⟩
  · refine ⟨rfl, rfl, rfl, rfl, rfl, fun _ => .inr ⟨rfl, rfl⟩, ?_⟩
    rintro rfl _ hfailed
    dsimp only at hfailed
    rw [Bool.or_true] at hfailed
    exact nomatch hfailed

theorem recover_progress (h : Progress buffer sector count s) :
    Progress buffer sector count (s.recover round failing) := by
  obtain ⟨hleft, hsector, hbuffer, -⟩ := @recover_spec s round failing
  refine ⟨hleft ▸ h.left, fun hpos => ?_, fun hpos => ?_⟩
  · rw [hbuffer, hleft, h.buffer (hleft ▸ hpos)]
  · rw [hsector, hleft, h.sector (hleft ▸ hpos)]

theorem transfer_left (hleft : s.sectorsLeft < 65536) (hresults : results ≤ s.sectorsLeft) :
    (s.transfer card blocks results mem).sectorsLeft = s.sectorsLeft - results := by
  have hmod : (s.sectorsLeft + 65536 - results) % 65536 = s.sectorsLeft - results := by omega
  unfold Request.transfer
  dsimp only
  rw [hmod]
  split <;> rfl

theorem transfer_kept : (s.transfer card blocks results mem).mem = mem ∧
    (s.transfer card blocks results mem).moved =
      s.moved ++ movedFrom (card.sectorAt (card.argument s.sector)) blocks ∧
    (s.transfer card blocks results mem).retries = s.retries ∧
    (s.transfer card blocks results mem).broken = s.broken ∧
    (s.transfer card blocks results mem).requestFailed = s.requestFailed := by
  unfold Request.transfer
  dsimp only
  split <;> exact ⟨rfl, rfl, rfl, rfl, rfl⟩

theorem transfer_progress (h : Progress buffer sector count s) (hcount : count < 65536)
    (hresults : results ≤ s.sectorsLeft) :
    Progress buffer sector count (s.transfer card blocks results mem) := by
  have hle := h.left
  have hleft := @transfer_left results card blocks s mem (Nat.lt_of_le_of_lt hle hcount) hresults
  have hmod : (s.sectorsLeft + 65536 - results) % 65536 = s.sectorsLeft - results := by omega
  refine ⟨by omega, fun hpos => ?_, fun hpos => ?_⟩
  · rw [hleft] at hpos ⊢
    unfold Request.transfer
    dsimp only
    rw [hmod, if_pos hpos]
    dsimp only
    rw [h.buffer (by omega), Nat.add_assoc, ← Nat.add_mul]
    congr 2
    omega
  · rw [hleft] at hpos ⊢
    unfold Request.transfer
    dsimp only
    rw [hmod, if_pos hpos]
    dsimp only
    rw [h.sector (by omega)]
    omega

/-- The sectors of a transfer come behind those that were carried before. -/
theorem transfer_carries (h : Progress buffer sector count s) (hcount : count < 65536)
    (hgoes : 0 < s.sectorsLeft) (hresults : results ≤ s.sectorsLeft) (hlimit : s.sector < card.sectors)
    (hlow : sector < 18446744073709551616) (hsmall : 0 < count - s.sectorsLeft → sector < 4294967296)
    (hold : ∀ i < count - s.sectorsLeft, Carried s.moved m sector buffer i)
    (hkept : ∀ x < s.buffer, m' x = m x)
    (hnew : ∀ r < results, ∃ words, blocks[r]? = some words ∧ words.length = sectorWords ∧
      ∀ j < sectorWords, BytesReversed (words.getD j 0) (m' (s.buffer + r * sectorWords + j))) :
    ∀ i < count - (s.transfer card blocks results mem).sectorsLeft,
      Carried (s.transfer card blocks results mem).moved m' sector buffer i := by
  have hle := h.left
  have hbuffer := h.buffer hgoes
  rw [transfer_left (Nat.lt_of_le_of_lt hle hcount) hresults, transfer_kept.2.1, sectorAt_argument hlimit]
  have hsector : s.sector = sector + (count - s.sectorsLeft) := by
    have hmod := h.sector hgoes
    by_cases hzero : count - s.sectorsLeft = 0
    · omega
    · have hsector := hsmall (Nat.pos_of_ne_zero hzero)
      omega
  intro i hi
  by_cases hdone : i < count - s.sectorsLeft
  · obtain ⟨words, hmem, hlength, hwords⟩ := hold i hdone
    refine ⟨words, List.mem_append_left _ hmem, hlength, fun j hj => ?_⟩
    rw [hkept _ (by unfold sectorWords at *; omega)]
    exact hwords j hj
  · obtain ⟨r, hr⟩ : ∃ r, i = count - s.sectorsLeft + r := Nat.exists_eq_add_of_le (Nat.not_lt.mp hdone)
    obtain ⟨words, hblock, hlength, hwords⟩ := hnew r (by omega)
    refine ⟨words, List.mem_append_right _ ?_, hlength, fun j hj => ?_⟩
    · rw [show sector + i = s.sector + r by omega]
      exact mem_movedFrom s.sector hblock
    · have hword := hwords j hj
      rwa [hbuffer, show buffer + (count - s.sectorsLeft) * sectorWords + r * sectorWords + j =
        buffer + i * sectorWords + j by rw [hr, Nat.add_mul]; omega] at hword

end Attempt

/-- How an attempt ends behind its transfer. `sound` is what makes the answer to the stop one
after which the card is ready. -/
inductive Ends (round : Nat → RecoverRound) (sound : Prop) (s : Request) : Request → Prop where
  | resumed (h : 0 < s.sectorsLeft) : Ends round sound s (s.recover round false)
  | recovered : Ends round sound s (s.recover round true)
  | stopped {closed : Bool} (h : sound → closed = true) :
      Ends round sound s { s with closed := closed, retries := s.retries + 1 }

section Ends

variable {round : Nat → RecoverRound} {sound : Prop} {buffer sector count i : Nat} {mem : Nat → Word}
  {s t : Request}

theorem Ends.kept (h : Ends round sound s t) : t.sectorsLeft = s.sectorsLeft ∧ t.mem = s.mem ∧
    t.moved = s.moved ∧ (s.broken = false → Counts s t) := by
  cases h with
  | resumed =>
      obtain ⟨hleft, -, -, hmem, hmoved, hcounts, -⟩ := @recover_spec s round false
      exact ⟨hleft, hmem, hmoved, hcounts⟩
  | recovered =>
      obtain ⟨hleft, -, -, hmem, hmoved, hcounts, -⟩ := @recover_spec s round true
      exact ⟨hleft, hmem, hmoved, hcounts⟩
  | stopped => exact ⟨rfl, rfl, rfl, fun hb => .inl ⟨rfl, hb⟩⟩

theorem Ends.progress (h : Ends round sound s t) (hs : Progress buffer sector count s) :
    Progress buffer sector count t := by
  cases h with
  | resumed => exact recover_progress hs
  | recovered => exact recover_progress hs
  | stopped => exact ⟨hs.left, hs.buffer, hs.sector⟩

theorem Ends.closes (h : Ends round sound s t) (hsound : sound) : t.Closes := by
  cases h with
  | resumed hpos =>
      intro hzero
      rw [(@recover_spec s round false).1] at hzero
      exact absurd hzero (Nat.ne_of_gt hpos)
  | recovered => exact (@recover_spec s round true).2.2.2.2.2.2 rfl
  | stopped hclosed => exact fun _ _ => hclosed hsound

end Ends

/-! ## Reading and writing -/

section Runs

variable {buffer sector count : Nat} {mem : Nat → Word} {s t : Request}

/-- The state in front of the end of an attempt. -/
def ReadOutcome.moves (o : ReadOutcome) (s : Request) : Request :=
  if o.begins ≠ 0 then s else s.transfer o.card o.transfer.received o.results o.transfer.mem

def WriteOutcome.moves (o : WriteOutcome) (s : Request) : Request :=
  if o.begins ≠ 0 then s
  else s.transfer o.card (o.transfer.accepted.map (sectorOf s.mem)) o.results s.mem

theorem readAttempt_ends (o : ReadOutcome) (hleft : 0 < s.sectorsLeft) :
    Ends o.round (o.stop = 0 → o.ready = true) (o.moves s) (readAttempt o s) := by
  unfold readAttempt ReadOutcome.moves
  by_cases hbegins : o.begins ≠ 0
  · rw [if_pos hbegins, if_pos hbegins]
    exact .resumed hleft
  · rw [if_neg hbegins, if_neg hbegins]
    dsimp only
    split
    · rename_i hmore
      exact .resumed hmore.1
    · split
      · exact .recovered
      · split
        · exact .recovered
        · rename_i hstop
          exact .stopped fun hready => hready (not_not.mp hstop)

theorem writeAttempt_ends (o : WriteOutcome) (hleft : 0 < s.sectorsLeft) :
    Ends o.round (o.stop ≠ 0) (o.moves s) (writeAttempt o s) := by
  unfold writeAttempt WriteOutcome.moves
  by_cases hbegins : o.begins ≠ 0
  · rw [if_pos hbegins, if_pos hbegins]
    exact .resumed hleft
  · rw [if_neg hbegins, if_neg hbegins]
    dsimp only
    split
    · exact .recovered
    · split
      · exact .recovered
      · exact .stopped fun hstop => decide_eq_true hstop

/-- A run has an attempt for each count, and one more if it was left by a `break`. -/
theorem run_length {α : Type} {sys : System Request α} {ok : Request → α → Prop} {outcomes : List α}
    (hinit : ∀ s, sys.init s → s.retries = 0 ∧ s.broken = false)
    (hstep : ∀ s a t, sys.step s a t → s.Goes ∧ Counts s t) (h : sys.Run ok outcomes s) :
    outcomes.length ≤ maxRetries := by
  suffices hcount : (s.broken = false ∧ outcomes.length = s.retries ∧ s.retries ≤ maxRetries) ∨
      (s.broken = true ∧ outcomes.length = s.retries + 1 ∧ s.retries < maxRetries) by
    omega
  induction h with
  | start h =>
      obtain ⟨hretries, hbroken⟩ := hinit _ h
      exact .inl ⟨hbroken, hretries.symm, hretries ▸ Nat.zero_le _⟩
  | step _ _ next ih =>
      obtain ⟨⟨-, hless, hnot⟩, hcounts⟩ := hstep _ _ _ next
      rcases ih with ⟨-, hlength, -⟩ | ⟨hbroken, -⟩
      · rw [List.length_cons, hlength]
        rcases hcounts with ⟨hretries, hbroken⟩ | ⟨hretries, hbroken⟩
        · exact .inl ⟨hbroken, hretries.symm, hretries ▸ hless⟩
        · exact .inr ⟨hbroken, by rw [hretries], hretries ▸ hless⟩
      · exact nomatch hnot.symm.trans hbroken

theorem ReadOutcome.moves_kept {o : ReadOutcome} :
    (o.moves s).retries = s.retries ∧ (o.moves s).broken = s.broken := by
  unfold ReadOutcome.moves
  split
  · exact ⟨rfl, rfl⟩
  · exact ⟨transfer_kept.2.2.1, transfer_kept.2.2.2.1⟩

theorem WriteOutcome.moves_kept {o : WriteOutcome} :
    (o.moves s).retries = s.retries ∧ (o.moves s).broken = s.broken ∧ (o.moves s).mem = s.mem := by
  unfold WriteOutcome.moves
  split
  · exact ⟨rfl, rfl, rfl⟩
  · exact ⟨transfer_kept.2.2.1, transfer_kept.2.2.2.1, transfer_kept.1⟩

theorem Ends.counts {s' : Request} {round : Nat → RecoverRound} {sound : Prop} (h : Ends round sound s' t)
    (hgoes : s.Goes) (hretries : s'.retries = s.retries) (hbroken : s'.broken = s.broken) : Counts s t := by
  have hcounts := h.kept.2.2.2 (hbroken.trans hgoes.2.2)
  unfold Counts at *
  rwa [hretries] at hcounts

theorem reads_counts {o : ReadOutcome} (h : (reads buffer sector count mem).step s o t) :
    s.Goes ∧ Counts s t := by
  obtain ⟨hgoes, rfl, -⟩ := h
  exact ⟨hgoes, (readAttempt_ends o hgoes.1).counts hgoes ReadOutcome.moves_kept.1 ReadOutcome.moves_kept.2⟩

theorem writes_counts {o : WriteOutcome} (h : (writes buffer sector count mem).step s o t) :
    s.Goes ∧ Counts s t := by
  obtain ⟨hgoes, rfl, -⟩ := h
  exact ⟨hgoes,
    (writeAttempt_ends o hgoes.1).counts hgoes WriteOutcome.moves_kept.1 WriteOutcome.moves_kept.2.1⟩

theorem start_progress {baud : Nat} (hsector : sector < 18446744073709551616) :
    Progress buffer sector count (Request.start buffer sector count baud mem) := by
  refine ⟨Nat.le_refl _, fun _ => ?_, fun _ => ?_⟩
  · show buffer = buffer + (count - count) * sectorWords
    rw [Nat.sub_self, Nat.zero_mul, Nat.add_zero]
  · show sector = (sector + (count - count)) % 18446744073709551616
    omega

/-- What was transferred so far. A sector of the card is named with 32 bits. -/
structure Delivered (buffer sector count : Nat) (m : Nat → Word) (s : Request) : Prop where
  small : 0 < count - s.sectorsLeft → sector < 4294967296
  carried : ∀ i < count - s.sectorsLeft, Carried s.moved m sector buffer i

theorem Delivered.transfer {card : CardType} {blocks : List (List Word)} {results : Nat} {m m' mem' : Nat → Word}
    (h : Delivered buffer sector count m s) (hprogress : Progress buffer sector count s)
    (hcount : count < 65536) (hsector : sector < 18446744073709551616) (hgoes : 0 < s.sectorsLeft)
    (hresults : results ≤ s.sectorsLeft) (hlimit : s.sector < card.sectors)
    (hkept : ∀ x < s.buffer, m' x = m x)
    (hnew : ∀ r < results, ∃ words, blocks[r]? = some words ∧ words.length = sectorWords ∧
      ∀ j < sectorWords, BytesReversed (words.getD j 0) (m' (s.buffer + r * sectorWords + j))) :
    Delivered buffer sector count m' (s.transfer card blocks results mem') := by
  refine ⟨fun _ => ?_, transfer_carries hprogress hcount hgoes hresults hlimit hsector h.small h.carried
    hkept hnew⟩
  by_cases hdone : 0 < count - s.sectorsLeft
  · exact h.small hdone
  · have hfirst := hprogress.sector hgoes
    have hcards : card.sectors ≤ 4294967296 := by
      unfold CardType.sectors
      split <;> decide
    omega

theorem Ends.delivered {s' : Request} {round : Nat → RecoverRound} {sound : Prop} {m : Nat → Word}
    (h : Ends round sound s' t) (hs : Delivered buffer sector count m s') :
    Delivered buffer sector count m t := by
  obtain ⟨hleft, -, hmoved, -⟩ := h.kept
  refine ⟨?_, ?_⟩
  · rw [hleft]
    exact hs.small
  · rw [hleft, hmoved]
    exact hs.carried

theorem start_delivered {baud : Nat} {m : Nat → Word} :
    Delivered buffer sector count m (Request.start buffer sector count baud mem) := by
  have hnone : ∀ i, ¬i < count - count := fun i hi => absurd hi (by omega)
  exact ⟨fun h => absurd h (hnone 0), fun i hi => absurd hi (hnone i)⟩

/-- The card has the sectors that the attempt names, and is ready when it has answered the
stop. -/
def ReadOutcome.Plain (s : Request) (o : ReadOutcome) : Prop :=
  (o.begins = 0 → s.sector < o.card.sectors) ∧ (o.stop = 0 → o.ready = true)

/-- The card has the sectors that the attempt names, and the stop token is not answered by
zero. -/
def WriteOutcome.Plain (s : Request) (o : WriteOutcome) : Prop :=
  (o.begins = 0 → s.sector < o.card.sectors) ∧ o.stop ≠ 0

/-- The pointer and the sector stay in step with the progress. -/
theorem reads_progress (hcount : count < 65536) (hsector : sector < 18446744073709551616) :
    (reads buffer sector count mem).Invariant (fun _ _ => True) (Progress buffer sector count) where
  init := by
    rintro _ ⟨baud, rfl⟩
    exact start_progress hsector
  step := by
    rintro s o t - hprogress - ⟨hgoes, rfl, hcall⟩
    refine (readAttempt_ends o hgoes.1).progress ?_
    unfold ReadOutcome.moves
    split
    · exact hprogress
    · rename_i hbegins
      obtain ⟨hpc, hreach⟩ := hcall (not_not.mp hbegins)
      have hle := hprogress.left
      have hpos := hgoes.1
      have hresults := (read_multi_sectors (by omega) hreach hpc).1
      exact transfer_progress hprogress hcount (by omega)

/-- The buffer stays reversed until the end. -/
theorem writes_progress (hcount : count < 65536) (hsector : sector < 18446744073709551616) :
    (writes buffer sector count mem).Invariant (fun _ _ => True) fun s =>
      Progress buffer sector count s ∧ s.mem = reverseBuffer buffer (count * sectorWords) mem where
  init := by
    rintro _ ⟨baud, rfl⟩
    exact ⟨start_progress hsector, rfl⟩
  step := by
    rintro s o t - ⟨hprogress, hmem⟩ - ⟨hgoes, rfl, hcall⟩
    have hends := writeAttempt_ends o hgoes.1
    refine ⟨hends.progress ?_, hends.kept.2.1.trans (WriteOutcome.moves_kept.2.2.trans hmem)⟩
    unfold WriteOutcome.moves
    split
    · exact hprogress
    · rename_i hbegins
      obtain ⟨hpc, hreach⟩ := hcall (not_not.mp hbegins)
      have hle := hprogress.left
      have hpos := hgoes.1
      have hresults := (write_multi_accepts (by omega) hreach hpc).1
      exact transfer_progress hprogress hcount (by omega)

theorem reads_delivered (hcount : count < 65536) (hsector : sector < 18446744073709551616) :
    (reads buffer sector count mem).Invariant (fun s o => ReadOutcome.Plain s o) fun s =>
      0 < count → Delivered buffer sector count s.mem s ∧ s.Closes where
  init := by
    rintro _ ⟨baud, rfl⟩ hpos
    exact ⟨start_delivered, fun hzero => absurd hzero (Nat.ne_of_gt hpos)⟩
  step := by
    rintro s o t hreached hold ⟨hlimit, hready⟩ ⟨hgoes, rfl, hcall⟩ hpos
    have hprogress := (reads_progress hcount hsector).holds (hreached.weaken fun _ _ _ => trivial)
    have hends := readAttempt_ends o hgoes.1
    refine ⟨?_, hends.closes hready⟩
    rw [hends.kept.2.1]
    refine hends.delivered ?_
    unfold ReadOutcome.moves
    split
    · exact (hold hpos).1
    · rename_i hbegins
      obtain ⟨hpc, hreach⟩ := hcall (not_not.mp hbegins)
      have hle := hprogress.left
      have hleft := hgoes.1
      obtain ⟨hresults, hframe, hsectors⟩ := read_multi_sectors (by omega) hreach hpc
      rw [transfer_kept.1]
      exact (hold hpos).1.transfer hprogress hcount hsector hleft (by omega) (hlimit (not_not.mp hbegins))
        hframe hsectors

theorem writes_delivered (hcount : count < 65536) (hsector : sector < 18446744073709551616) :
    (writes buffer sector count mem).Invariant (fun s o => WriteOutcome.Plain s o) fun s =>
      0 < count → Delivered buffer sector count mem s ∧ s.Closes where
  init := by
    rintro _ ⟨baud, rfl⟩ hpos
    exact ⟨start_delivered, fun hzero => absurd hzero (Nat.ne_of_gt hpos)⟩
  step := by
    rintro s o t hreached hold ⟨hlimit, hstop⟩ ⟨hgoes, rfl, hcall⟩ hpos
    obtain ⟨hprogress, hmem⟩ :=
      (writes_progress hcount hsector).holds (hreached.weaken fun _ _ _ => trivial)
    have hends := writeAttempt_ends o hgoes.1
    refine ⟨hends.delivered ?_, hends.closes hstop⟩
    unfold WriteOutcome.moves
    split
    · exact (hold hpos).1
    · rename_i hbegins
      obtain ⟨hpc, hreach⟩ := hcall (not_not.mp hbegins)
      have hle := hprogress.left
      have hleft := hgoes.1
      have hbuffer := hprogress.buffer hleft
      obtain ⟨hresults, haccepted⟩ := write_multi_accepts (by omega) hreach hpc
      refine (hold hpos).1.transfer hprogress hcount hsector hleft (by omega) (hlimit (not_not.mp hbegins))
        (fun _ _ => rfl) fun r hr => ⟨sectorOf s.mem (s.buffer + r * sectorWords), ?_, ?_, fun j hj => ?_⟩
      · rw [List.getElem?_map, haccepted r hr]
        rfl
      · rw [sectorOf, List.length_map, List.length_range]
      · have hword : (sectorOf s.mem (s.buffer + r * sectorWords)).getD j 0 =
            s.mem (s.buffer + r * sectorWords + j) := by
          unfold sectorOf
          rw [List.getD_eq_getElem?_getD, List.getElem?_map, List.getElem?_range hj]
          rfl
        have hinside : buffer ≤ s.buffer + r * sectorWords + j ∧
            s.buffer + r * sectorWords + j < buffer + count * sectorWords := by
          unfold sectorWords at *
          omega
        rw [hword, hmem, reverseBuffer_apply, if_pos hinside]
        exact reverseWord_bytesReversed _

/-- A request that returns `count` has carried all its sectors, and its last attempt was
closed. -/
def Request.Answers (buffer sector count : Nat) (m : Nat → Word) (s : Request) : Prop :=
  (s.result count = count ∧ (∀ i < count, Carried s.moved m sector buffer i) ∧ s.closed = true) ∨
    s.result count = -eio

theorem Delivered.answers {m : Nat → Word} (h : Delivered buffer sector count m s) (hcloses : s.Closes) :
    s.Answers buffer sector count m := by
  unfold Request.Answers Request.result
  by_cases hdone : s.sectorsLeft = 0 ∧ s.requestFailed = false
  · rw [if_pos hdone]
    refine .inl ⟨rfl, fun i hi => h.carried i ?_, hcloses hdone.1 hdone.2⟩
    rw [hdone.1]
    exact hi
  · rw [if_neg hdone]
    exact .inr rfl

end Runs

/-- At most four attempts, each of which goes on at the first sector that is left. In the runs
whose attempts do not take a branch that goes wrong, `count` is returned only for a request
that was carried whole and closed. The buffer of a write is as it was. -/
theorem sdcard_block_io (buffer : Nat) (sector : UInt64) {count : UInt16} (hcount : 0 < count)
    (mem : Nat → Word) :
    ((∀ outcomes s, (reads buffer sector.toNat count.toNat mem).Run (fun _ _ => True) outcomes s →
        outcomes.length ≤ maxRetries ∧ Progress buffer sector.toNat count.toNat s) ∧
      ∀ s, (reads buffer sector.toNat count.toNat mem).Reachable (fun s o => ReadOutcome.Plain s o) s →
        ¬s.Goes → s.Answers buffer sector.toNat count.toNat s.mem) ∧
    (∀ outcomes s, (writes buffer sector.toNat count.toNat mem).Run (fun _ _ => True) outcomes s →
        outcomes.length ≤ maxRetries ∧ Progress buffer sector.toNat count.toNat s ∧
          writtenMemory buffer count.toNat s = mem) ∧
      ∀ s, (writes buffer sector.toNat count.toNat mem).Reachable (fun s o => WriteOutcome.Plain s o) s →
        ¬s.Goes → s.Answers buffer sector.toNat count.toNat mem := by
  have hless : count.toNat < 65536 := count.toNat_lt_size
  have hsector : sector.toNat < 18446744073709551616 := sector.toNat_lt_size
  have hpos : 0 < count.toNat := UInt16.lt_iff_toNat_lt.mp hcount
  refine ⟨⟨fun outcomes s h => ⟨?_, ?_⟩, fun s h _ => ?_⟩, fun outcomes s h => ⟨?_, ?_⟩, fun s h _ => ?_⟩
  · refine run_length ?_ (fun _ _ _ hstep => reads_counts hstep) h
    rintro _ ⟨baud, rfl⟩
    exact ⟨rfl, rfl⟩
  · exact (reads_progress hless hsector).holds ⟨outcomes, h⟩
  · obtain ⟨hdelivered, hcloses⟩ := (reads_delivered hless hsector).holds h hpos
    exact hdelivered.answers hcloses
  · refine run_length ?_ (fun _ _ _ hstep => writes_counts hstep) h
    rintro _ ⟨baud, rfl⟩
    exact ⟨rfl, rfl⟩
  · obtain ⟨hprogress, hmem⟩ := (writes_progress hless hsector).holds ⟨outcomes, h⟩
    refine ⟨hprogress, ?_⟩
    unfold writtenMemory
    rw [hmem, reverseBuffer_twice]
  · obtain ⟨hdelivered, hcloses⟩ := (writes_delivered hless hsector).holds h hpos
    exact hdelivered.answers hcloses

/-! ## A write of one sector -/

section OneSector

def idleWrite : WriteState := ⟨⟨0, 0, 0, 0, .ok, 0⟩, false, none, [], .enter⟩

/-- The card takes the sector. -/
theorem one_accepted : ∃ s, (writeMulti 0 1).Reachable (fun _ _ => True) s ∧ s.pc = .returned 1 ∧
    s.accepted = [0] ∧ s.cmd.abort = 0 := by
  have hinit : (writeMulti 0 1).Reachable (fun _ _ => True) idleWrite := .init ⟨rfl, rfl, rfl⟩
  have hthread : ∀ {s t : WriteState}, spisdWriteMultiDo 0 1 s = some t →
      (writeMulti 0 1).Reachable (fun _ _ => True) s → (writeMulti 0 1).Reachable (fun _ _ => True) t :=
    fun h hs => hs.next trivial (.thread h)
  have hstarted := hthread rfl (hthread rfl (hthread rfl hinit))
  have hsent : (writeMulti 0 1).Reachable (fun _ _ => True) _ :=
    hstarted.next trivial (@WriteStep.interrupt 0 1 _ 0 true 5 .ok rfl)
  exact ⟨_, hthread rfl (hthread rfl (hthread rfl hsent)), rfl, rfl, rfl⟩

/-- The attempt in which it does so. -/
def oneOutcome (w : WriteState) (stop : UInt8) (programmed : SpisdResult) : WriteOutcome :=
  ⟨.sdv2hc, .ok, 0, w, 1, stop, programmed, fun _ => ⟨true, .ok, 0⟩⟩

theorem one_attempt {w : WriteState} {stop : UInt8} {programmed : SpisdResult} {s : Request} (m : Nat → Word)
    (habort : w.cmd.abort = 0) (hend : spisdWriteMultiEnd stop programmed = 0)
    (hs : s = writeAttempt (oneOutcome w stop programmed) (Request.start 0 0 1 baudDivFast m)) :
    s.sectorsLeft = 0 ∧ s.requestFailed = false ∧ s.closed = decide (stop ≠ 0) := by
  have hbegins : ¬(oneOutcome w stop programmed).begins ≠ 0 := fun h => h rfl
  have hnot : ¬(oneOutcome w stop programmed).transfer.cmd.abort = cmdAbortTransferTimeout := by
    show ¬w.cmd.abort = cmdAbortTransferTimeout
    rw [habort]
    decide
  have hclosing : ¬spisdWriteMultiEnd (oneOutcome w stop programmed).stop
      (oneOutcome w stop programmed).programmed ≠ 0 := fun h => h hend
  subst hs
  unfold writeAttempt
  rw [if_neg hbegins]
  dsimp only
  rw [if_neg hnot, if_neg hclosing]
  have hone : (Request.start 0 0 1 baudDivFast m).sectorsLeft = 1 := rfl
  have hresults : (oneOutcome w stop programmed).results = 1 := rfl
  dsimp only
  refine ⟨?_, ?_, rfl⟩
  · rw [transfer_left (Nat.lt_of_le_of_lt (Nat.le_of_eq hone) (by decide))
      (Nat.le_of_eq (hresults.trans hone.symm)), hone, hresults]
  · rw [transfer_kept.2.2.2.2]
    rfl

theorem one_written {ok : Request → WriteOutcome → Prop} {stop : UInt8} {programmed : SpisdResult}
    (hok : ∀ w s, s.sector = 0 → ok s (oneOutcome w stop programmed))
    (hend : spisdWriteMultiEnd stop programmed = 0) (mem : Nat → Word) :
    ∃ (outcomes : List WriteOutcome) (s : Request), (writes 0 0 1 mem).Run ok outcomes s ∧ s.sectorsLeft = 0 ∧
      s.requestFailed = false ∧ s.closed = decide (stop ≠ 0) := by
  obtain ⟨w, hreach, hpc, -, habort⟩ := one_accepted
  have hgoes : ∀ m, (Request.start 0 0 1 baudDivFast m).Goes := 
    fun _ => ⟨Nat.zero_lt_one, show 0 < maxRetries by decide, rfl⟩
  refine ⟨[oneOutcome w stop programmed], _,
    .step (.start ⟨baudDivFast, rfl⟩) (hok w _ rfl) ⟨hgoes _, rfl, fun _ => ⟨hpc, hreach⟩⟩, ?_⟩
  exact one_attempt _ habort hend rfl

theorem one_plain (w : WriteState) (s : Request) (hs : s.sector = 0) :
    WriteOutcome.Plain s (oneOutcome w 0xff .ok) := by
  refine ⟨fun _ => ?_, show (0xff : UInt8) ≠ 0 by decide⟩
  rw [hs]
  exact show 0 < CardType.sdv2hc.sectors by decide

/-- The sector is carried and the stop is accepted. -/
theorem sdcard_block_io_one : ∃ s : Request, s.result 1 = 1 ∧ Carried s.moved (fun _ => 0) 0 0 0 ∧
    s.closed = true ∧ writtenMemory 0 1 s = fun _ => 0 := by
  obtain ⟨outcomes, s, hrun, hleft, hfailed, -⟩ :=
    @one_written (fun s o => WriteOutcome.Plain s o) 0xff .ok one_plain rfl fun _ => 0
  obtain ⟨-, hruns, hanswers⟩ := sdcard_block_io 0 0 (show (0 : UInt16) < 1 by decide) fun _ => 0
  have hreach : (writes 0 0 1 fun _ => 0).Reachable (fun s o => WriteOutcome.Plain s o) s := ⟨outcomes, hrun⟩
  obtain ⟨outcomes', hrun'⟩ := hreach.weaken fun _ _ _ => trivial
  have hresult : s.result 1 = 1 := if_pos ⟨hleft, hfailed⟩
  rcases hanswers s hreach fun hgoes => absurd hgoes.1 (by rw [hleft]; decide) with ⟨-, hcarried, hclosed⟩ | hfail
  · exact ⟨s, hresult, hcarried 0 (by decide), hclosed, (hruns outcomes' s hrun').2.2⟩
  · exact absurd (hresult.symm.trans hfail) (by decide)

/-- The stop token is answered by zero: the card is not waited for, and the request succeeds. -/
theorem zero_stop_not_closed : ∃ s : Request,
    (writes 0 0 1 fun _ => 0).Reachable (fun _ _ => True) s ∧ ¬s.Goes ∧ s.result 1 = 1 ∧ s.closed = false := by
  obtain ⟨outcomes, s, hrun, hleft, hfailed, hclosed⟩ :=
    @one_written (fun _ _ => True) 0 .timeout (fun _ _ _ => trivial) rfl fun _ => 0
  exact ⟨s, ⟨outcomes, hrun⟩, fun hgoes => absurd hgoes.1 (by rw [hleft]; decide), if_pos ⟨hleft, hfailed⟩, hclosed⟩

end OneSector

end BdmAssault.Mx4sio
