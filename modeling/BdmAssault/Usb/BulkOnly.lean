import Mathlib.Data.Int.ModEq
import BdmAssault.Lib.Interaction

/-! # Bulk-only transport

One SCSI command of the mass-storage driver: the command block, the data and the status
are transfers of their own, and what the USB stack makes of each of them is arbitrary.
-/

namespace BdmAssault.Usb

open Lib

/-! ## Transfers -/

/-- What `sceUsbdBulkTransfer` returns and, if that is `USB_RC_OK`, what the callback gets;
`data` are the bytes that an input transfer puts in the buffer. -/
structure Completion where
  submit : Int
  code : Int
  bytes : Int32
  data : List UInt8
deriving DecidableEq

def usbRcOk : Int := 0

/-- The result that a function waits for. -/
def Completion.ret (c : Completion) : Int := if c.submit = usbRcOk then c.code else c.submit

structure Cbw where
  signature : UInt32
  tag : UInt32
  dataTransferLength : UInt32
  flags : UInt8
  lun : UInt8
  comLength : UInt8
  comData : List UInt8
deriving DecidableEq

inductive Request where
  | command (packet : Cbw)
  | data (out : Bool) (len : UInt32)
  | status
  | clearHalt (out : Bool)
  | reset
  /-- A loop is not followed further. -/
  | halt
deriving DecidableEq

abbrev Call (α : Type) := Dialogue Request (fun _ => Completion) α

def transfer (r : Request) : Call Completion := Dialogue.command r

/-! ## Command status -/

structure Csw where
  signature : UInt32
  tag : UInt32
  dataResidue : UInt32
  status : UInt8
deriving DecidableEq

def cbwTag : UInt32 := 0x43425355

def cswTag : UInt32 := 0x53425355

/-- The little-endian word at `off`. -/
def wordAt (b : Nat → UInt8) (off : Nat) : UInt32 :=
  .ofNat ((b off).toNat + 256 * (b (off + 1)).toNat + 65536 * (b (off + 2)).toNat +
    16777216 * (b (off + 3)).toNat)

def byteOf (word : UInt32) (k : Nat) : UInt8 := .ofNat (word.toNat / 256 ^ k)

def cswPacket (b : Nat → UInt8) : Csw := ⟨wordAt b 0, wordAt b 4, wordAt b 8, b 12⟩

/-- The buffer as `usb_bulk_status` fills it before the transfer. -/
def cswBuffer (tag : UInt32) (k : Nat) : UInt8 :=
  if k < 4 then byteOf cswTag k else if k < 8 then byteOf tag (k - 4) else 0

/-- The buffer after the transfer; what was not received is as it was. -/
def Completion.into (c : Completion) (buffer : Nat → UInt8) (k : Nat) : UInt8 :=
  if c.submit = usbRcOk ∧ (k : Int) < c.bytes.toInt then c.data.getD k 0 else buffer k

/-! ## The driver -/

def usbBulkClearHalt (out : Bool) : Call Int := do
  let c ← transfer (.clearHalt out)
  return c.ret

/-- `usb_bulk_reset(dev, 3)`; the result says whether the device is marked with
`USBMASS_DEV_STAT_ERR`. -/
def usbBulkReset : Call Bool := do
  let c ← transfer .reset
  if c.ret ≠ usbRcOk then return true
  let ret ← usbBulkClearHalt false
  if ret ≠ usbRcOk then return true
  let ret ← usbBulkClearHalt true
  return ret ≠ usbRcOk

def usbBulkStatus (tag : UInt32) : Call (Int × Csw) := do
  let c ← transfer .status
  return (c.ret, cswPacket (c.into (cswBuffer tag)))

/-- A first attempt that failed is repeated. -/
def statusAgain (tag : UInt32) (first : Int × Csw) : Call (Int × Csw) :=
  if first.1 ≠ usbRcOk then do
    let _ ← usbBulkClearHalt false
    usbBulkStatus tag
  else pure first

def resetRecovery (tag : UInt32) (r : Int × Csw) : Call Bool :=
  if r.1 ≠ usbRcOk ∨ r.2.signature ≠ cswTag ∨ r.2.tag ≠ tag ∨ r.2.status = 2 then usbBulkReset
  else pure false

def usbBulkManageStatus (tag : UInt32) : Call (Int × Bool) := do
  let r ← usbBulkStatus tag
  let r ← statusAgain tag r
  let offline ← resetRecovery tag r
  return (if r.1 = usbRcOk ∧ r.2.signature = cswTag ∧ r.2.tag = tag then r.2.status.toNat else -1, offline)

def usbBulkCommand (offline : Bool) (packet : Cbw) : Call (Int × Bool) := do
  if offline then return (-1, offline)
  let c ← transfer (.command packet)
  if c.ret ≠ usbRcOk then
    let offline ← usbBulkReset
    return (c.ret, offline)
  return (c.ret, false)

def usbBlockSize : UInt32 := 4096

def transferLen (remaining : UInt32) : UInt32 :=
  if usbBlockSize < remaining then usbBlockSize else remaining

/-- `perform_bulk_transfer` and `usb_transfer_callback`, which starts the next transfer.
This may go on for ever, so `rounds` bounds how far it is followed. -/
def bulkTransfers (rounds : Nat) (out : Bool) (size : UInt32) : Call Int :=
  Dialogue.iterate (do return (← transfer .halt).code) (fun remaining => do
    let c ← transfer (.data out (transferLen remaining))
    if c.submit ≠ usbRcOk then return .inr c.submit
    if c.code ≠ usbRcOk then return .inr c.code
    let remaining := remaining - c.bytes.toUInt32
    if 0 < remaining then return .inl remaining
    return .inr usbRcOk) rounds size

def usbBulkTransfer (rounds : Nat) (out : Bool) (size : UInt32) : Call Int := do
  let ret ← bulkTransfers rounds out size
  if ret ≠ usbRcOk then
    let _ ← usbBulkClearHalt out
  return ret

/-- The variables that outlive a command: the static `tag`, and whether `dev->status` has
`USBMASS_DEV_STAT_ERR`. -/
structure Transport where
  tag : UInt32
  offline : Bool
deriving DecidableEq

def cbw (tag : UInt32) (cmd : List UInt8) (dataLen : UInt32) (dataWr : Bool) : Cbw where
  signature := cbwTag
  tag := tag
  dataTransferLength := dataLen
  flags := if dataWr then 0 else 0x80
  lun := 0
  comLength := .ofNat cmd.length
  comData := cmd

def eio : Int := 5

def dataStage (rounds : Nat) (out : Bool) (dataLen : UInt32) : Call Int :=
  if 0 < dataLen then usbBulkTransfer rounds out dataLen else pure usbRcOk

def usbQueueCmd (rounds : Nat) (t : Transport) (cmd : List UInt8) (dataLen : UInt32) (dataWr : Bool) :
    Call (Int × Transport) := do
  let tag := t.tag + 1
  let sent ← usbBulkCommand t.offline (cbw tag cmd dataLen dataWr)
  if sent.1 = usbRcOk then do
    let rcode ← dataStage rounds dataWr dataLen
    let status ← usbBulkManageStatus tag
    return (if rcode ≠ usbRcOk then -eio else status.1, ⟨tag, status.2⟩)
  else return (-eio, ⟨tag, sent.2⟩)

/-! ## The stack -/

/-- The completions to come, and what happened, latest last. -/
structure Bus where
  answers : List Completion
  log : List (Request × Completion)

def serve : Handler Request (fun _ => Completion) Bus
  | .halt, _ => none
  | _, ⟨[], _⟩ => none
  | r, ⟨c :: rest, log⟩ => some (c, ⟨rest, log ++ [(r, c)]⟩)

/-! ## What a command does -/

/-- Whatever the stack does, `Q` holds where the program returns. -/
def Gives {α : Type} (s : Bus) (m : Call α) (Q : α → Bus → Prop) : Prop :=
  m.Safe serve (fun _ => True) (fun _ => True) Q s

section Rules

variable {α β : Type} {s : Bus} {m : Call α} {f : α → Call β} {R : α → Bus → Prop} {Q : β → Bus → Prop}

theorem gives_pure {a : α} (h : R a s) : Gives s (pure a) R := h

theorem Gives.mono {R' : α → Bus → Prop} (hm : Gives s m R) (hR : ∀ a s', R a s' → R' a s') :
    Gives s m R' := Dialogue.Safe.mono hm hR

theorem Gives.bind (hm : Gives s m R) (hf : ∀ a s', R a s' → Gives s' (f a) Q) : Gives s (m >>= f) Q :=
  Dialogue.Safe.bind (hm.mono hf)

theorem gives_transfer {r : Request} {f : Completion → Call β}
    (h : ∀ c rest, Gives ⟨rest, s.log ++ [(r, c)]⟩ (f c) Q) : Gives s (transfer r >>= f) Q := by
  intro c s' hstep _
  refine ⟨trivial, ?_⟩
  obtain ⟨answers, log⟩ := s
  cases answers with
  | nil => cases r <;> cases hstep
  | cons c' rest =>
      cases r with
      | halt => cases hstep
      | _ =>
          cases hstep
          exact h c rest

end Rules

inductive Stage where
  | command (packet : Cbw)
  | data
  | status
deriving DecidableEq

def Request.stage : Request → Option Stage
  | .command packet => some (.command packet)
  | .data _ _ => some .data
  | .status => some .status
  | _ => none

/-- The transfers of the three stages, without those that clear errors. -/
def stages (log : List (Request × Completion)) : List (Stage × Completion) :=
  log.filterMap fun e => e.1.stage.map (·, e.2)

def Completion.done (c : Completion) : Prop := c.submit = usbRcOk ∧ c.code = usbRcOk

section Stages

variable {s : Bus}

theorem stages_snoc (log : List (Request × Completion)) (r : Request) (c : Completion) :
    stages (log ++ [(r, c)]) = stages log ++ (r.stage.map (·, c)).toList := by
  unfold stages
  rw [List.filterMap_append]
  cases r <;> rfl

theorem Completion.ret_eq_ok {c : Completion} : c.ret = usbRcOk ↔ c.done := by
  unfold Completion.ret Completion.done
  split
  · exact ⟨fun h => ⟨‹_›, h⟩, fun h => h.2⟩
  · exact ⟨fun h => absurd h ‹_›, fun h => h.1⟩

theorem usbBulkClearHalt_gives (out : Bool) :
    Gives s (usbBulkClearHalt out) fun _ s' => stages s'.log = stages s.log := by
  refine gives_transfer fun c rest => gives_pure ?_
  rw [stages_snoc]
  exact List.append_nil _

theorem usbBulkReset_gives : Gives s usbBulkReset fun _ s' => stages s'.log = stages s.log := by
  refine gives_transfer fun c rest => ?_
  have hreset : stages (s.log ++ [(.reset, c)]) = stages s.log := by
    rw [stages_snoc]
    exact List.append_nil _
  split
  · exact gives_pure hreset
  · refine (usbBulkClearHalt_gives false).bind fun ret s₁ h₁ => ?_
    split
    · exact gives_pure (h₁.trans hreset)
    · refine (usbBulkClearHalt_gives true).bind fun ret s₂ h₂ => gives_pure ?_
      exact h₂.trans (h₁.trans hreset)

theorem usbBulkCommand_gives (packet : Cbw) : Gives s (usbBulkCommand false packet) fun r s' =>
    ∃ c, stages s'.log = stages s.log ++ [(.command packet, c)] ∧ (r.1 = usbRcOk ↔ c.done) := by
  refine gives_transfer fun c rest => ?_
  have hsent : stages (s.log ++ [(.command packet, c)]) = stages s.log ++ [(.command packet, c)] := stages_snoc _ _ _
  split
  · refine usbBulkReset_gives.bind fun offline s₁ h₁ => gives_pure ?_
    exact ⟨c, h₁.trans hsent, Completion.ret_eq_ok⟩
  · exact gives_pure ⟨c, hsent, Completion.ret_eq_ok⟩

/-- The sum of the byte counts. -/
def total (cs : List Completion) : Int := (cs.map fun c => c.bytes.toInt).sum

theorem total_snoc (cs : List Completion) (c : Completion) : total (cs ++ [c]) = total cs + c.bytes.toInt := by
  unfold total
  rw [List.map_append, List.sum_append]
  simp

/-- The subtraction that wraps. -/
theorem remaining_modEq (remaining : UInt32) (bytes : Int32) :
    bytes.toInt + (remaining - bytes.toUInt32).toNat ≡ remaining.toNat [ZMOD 2 ^ 32] := by
  have hbytes : bytes.toInt ≡ bytes.toUInt32.toNat [ZMOD 2 ^ 32] := by
    show bytes.toBitVec.toInt ≡ bytes.toBitVec.toNat [ZMOD 2 ^ 32]
    rw [BitVec.toInt_eq_toNat_bmod]
    exact Int.bmod_emod
  have hlt := bytes.toUInt32.toNat_lt
  unfold Int.ModEq at hbytes ⊢
  rw [UInt32.toNat_sub]
  omega

theorem bulkTransfers_gives (rounds : Nat) (out : Bool) (size : UInt32) :
    Gives s (bulkTransfers rounds out size) fun ret s' => ∃ cs : List Completion,
      stages s'.log = stages s.log ++ cs.map (.data, ·) ∧ (ret = usbRcOk ↔ ∀ c ∈ cs, c.done) ∧
        (ret = usbRcOk → total cs ≡ size.toNat [ZMOD 2 ^ 32]) := by
  refine Dialogue.Safe.iterate (P := fun remaining s' => ∃ cs : List Completion,
    stages s'.log = stages s.log ++ cs.map (.data, ·) ∧ (∀ c ∈ cs, c.done) ∧
      total cs + remaining.toNat ≡ size.toNat [ZMOD 2 ^ 32]) (fun s' => ?_) ?_ rounds ?_
  · intro c s' hstep
    cases hstep
  · rintro remaining s' ⟨cs, hlog, hdone, hsum⟩
    refine gives_transfer fun c rest => ?_
    have hmoved : ∀ len, stages (s'.log ++ [(.data out len, c)]) =
        stages s.log ++ (cs ++ [c]).map (.data, ·) := by
      intro len
      rw [stages_snoc, hlog, List.map_append, List.append_assoc]
      rfl
    have hfailed : ∀ ret, ret ≠ usbRcOk → ¬ c.done → (ret = usbRcOk ↔ ∀ c' ∈ cs ++ [c], c'.done) :=
      fun ret hret hc => iff_of_false hret fun hall => hc (hall c (List.mem_append_right cs List.mem_cons_self))
    split
    · rename_i hsubmit
      refine gives_pure ⟨cs ++ [c], hmoved _, ?_, fun hret => absurd hret hsubmit⟩
      exact hfailed _ hsubmit fun hc => hsubmit hc.1
    · rename_i hsubmit
      split
      · rename_i hcode
        refine gives_pure ⟨cs ++ [c], hmoved _, ?_, fun hret => absurd hret hcode⟩
        exact hfailed _ hcode fun hc => hcode hc.2
      · rename_i hcode
        have hc : c.done := ⟨not_not.mp hsubmit, not_not.mp hcode⟩
        have hall : ∀ c' ∈ cs ++ [c], c'.done := by
          intro c' hc'
          rcases List.mem_append.mp hc' with hc' | hc'
          · exact hdone c' hc'
          · rw [List.mem_singleton.mp hc']
            exact hc
        have hnext : total (cs ++ [c]) + (remaining - c.bytes.toUInt32).toNat ≡ size.toNat [ZMOD 2 ^ 32] := by
          have hsub := remaining_modEq remaining c.bytes
          rw [total_snoc, Int.add_assoc]
          exact (hsub.add_left (total cs)).trans hsum
        dsimp only
        split
        · exact gives_pure ⟨cs ++ [c], hmoved _, hall, hnext⟩
        · rename_i hzero
          refine gives_pure ⟨cs ++ [c], hmoved _, iff_of_true rfl hall, fun _ => ?_⟩
          have hnone : (remaining - c.bytes.toUInt32).toNat = 0 := by
            rw [UInt32.lt_iff_toNat_lt] at hzero
            exact Nat.le_zero.mp (Nat.le_of_not_lt hzero)
          rw [hnone] at hnext
          simpa using hnext
  · exact ⟨[], (List.append_nil _).symm, List.forall_mem_nil _, by simp [total, Int.ModEq.refl]⟩

theorem usbBulkTransfer_gives (rounds : Nat) (out : Bool) (size : UInt32) :
    Gives s (usbBulkTransfer rounds out size) fun ret s' => ∃ cs : List Completion,
      stages s'.log = stages s.log ++ cs.map (.data, ·) ∧ (ret = usbRcOk ↔ ∀ c ∈ cs, c.done) ∧
        (ret = usbRcOk → total cs ≡ size.toNat [ZMOD 2 ^ 32]) := by
  refine (bulkTransfers_gives rounds out size).bind ?_
  rintro ret s₁ ⟨cs, hlog, hret⟩
  dsimp only
  split
  · refine (usbBulkClearHalt_gives out).bind fun _ s₂ h₂ => gives_pure ?_
    exact ⟨cs, h₂.trans hlog, hret⟩
  · exact gives_pure ⟨cs, hlog, hret⟩

theorem usbBulkStatus_gives (tag : UInt32) : Gives s (usbBulkStatus tag) fun r s' =>
    ∃ c : Completion, stages s'.log = stages s.log ++ [(.status, c)] ∧ (r.1 = usbRcOk ↔ c.done) ∧
      r.2 = cswPacket (c.into (cswBuffer tag)) := by
  refine gives_transfer fun c rest => gives_pure ?_
  exact ⟨c, stages_snoc _ _ _, Completion.ret_eq_ok, rfl⟩

/-- The status block says that the command was carried out. -/
def Csw.passed (csw : Csw) (tag : UInt32) : Prop :=
  csw.signature = cswTag ∧ csw.tag = tag ∧ csw.status = 0

theorem usbBulkManageStatus_gives (tag : UInt32) : Gives s (usbBulkManageStatus tag) fun r s' =>
    ∃ earlier c, stages s'.log = stages s.log ++ (earlier ++ [c]).map (.status, ·) ∧
      (r.1 = 0 ↔ c.done ∧ (cswPacket (c.into (cswBuffer tag))).passed tag) := by
  refine (usbBulkStatus_gives tag).bind ?_
  rintro first s₁ ⟨c, hlog, hret, hcsw⟩
  refine Gives.bind (R := fun (r : Int × Csw) s' => ∃ earlier c, stages s'.log =
    stages s.log ++ (earlier ++ [c]).map (.status, ·) ∧ (r.1 = usbRcOk ↔ c.done) ∧
      r.2 = cswPacket (c.into (cswBuffer tag))) ?_ ?_
  · unfold statusAgain
    split
    · refine (usbBulkClearHalt_gives false).bind fun _ s₂ h₂ => ?_
      refine (usbBulkStatus_gives tag).mono ?_
      rintro r s₃ ⟨c', hlog', hr⟩
      refine ⟨[c], c', ?_, hr⟩
      rw [hlog', h₂, hlog, List.append_assoc]
      rfl
    · exact gives_pure ⟨[], c, hlog, hret, hcsw⟩
  · rintro r s₂ ⟨earlier, c, hlog, hret, hcsw⟩
    refine Gives.bind (R := fun _ s' => stages s'.log = stages s₂.log) ?_ fun offline s₃ h₃ => gives_pure ?_
    · unfold resetRecovery
      split
      · exact usbBulkReset_gives
      · exact gives_pure rfl
    · refine ⟨earlier, c, h₃.trans hlog, ?_⟩
      dsimp only
      unfold Csw.passed
      rw [← hcsw, ← hret]
      split
      · rename_i h
        constructor
        · intro hstatus
          exact ⟨h.1, h.2.1, h.2.2, UInt8.toNat_inj.mp (Int.ofNat_inj.mp hstatus)⟩
        · rintro ⟨-, -, -, hstatus⟩
          rw [hstatus]
          rfl
      · rename_i h
        refine iff_of_false nofun ?_
        rintro ⟨hok, hsignature, htag, -⟩
        exact h ⟨hok, hsignature, htag⟩

theorem dataStage_gives (rounds : Nat) (out : Bool) (size : UInt32) :
    Gives s (dataStage rounds out size) fun ret s' => ∃ cs : List Completion,
      stages s'.log = stages s.log ++ cs.map (.data, ·) ∧ (ret = usbRcOk ↔ ∀ c ∈ cs, c.done) ∧
        (ret = usbRcOk → total cs ≡ size.toNat [ZMOD 2 ^ 32]) := by
  unfold dataStage
  split
  · exact usbBulkTransfer_gives rounds out size
  · rename_i hzero
    have hnone : size.toNat = 0 := by
      rw [UInt32.lt_iff_toNat_lt] at hzero
      exact Nat.le_zero.mp (Nat.le_of_not_lt hzero)
    refine gives_pure ⟨[], (List.append_nil _).symm, iff_of_true rfl (List.forall_mem_nil _), fun _ => ?_⟩
    rw [hnone]
    rfl

end Stages

/-! ## Success -/

def commands (log : List (Request × Completion)) : List (Cbw × Completion) :=
  (stages log).filterMap fun
    | (.command packet, c) => some (packet, c)
    | _ => none

def transfers (log : List (Request × Completion)) : List Completion :=
  (stages log).filterMap fun
    | (.data, c) => some c
    | _ => none

def statuses (log : List (Request × Completion)) : List Completion :=
  (stages log).filterMap fun
    | (.status, c) => some c
    | _ => none

/-- The command block was sent, the data were moved and a status block was received. -/
structure Earned (packet : Cbw) (log : List (Request × Completion)) : Prop where
  command : ∃ c, commands log = [(packet, c)] ∧ c.done ∧ c.bytes = 31
  data : (∀ c ∈ transfers log, c.done) ∧ total (transfers log) = packet.dataTransferLength.toNat
  status : ∃ c, (statuses log).getLast? = some c ∧ c.done ∧ c.bytes = 13 ∧
    (cswPacket (c.data.getD · 0)).passed packet.tag ∧ (cswPacket (c.data.getD · 0)).dataResidue = 0

/-- No stage ends with an error code, and the status block, where not enough of it was
received completed by what was there before, is that of the command. -/
structure Through (packet : Cbw) (log : List (Request × Completion)) : Prop where
  command : ∃ c, commands log = [(packet, c)] ∧ c.done
  data : ∀ c ∈ transfers log, c.done
  status : ∃ c, (statuses log).getLast? = some c ∧ c.done ∧
    (cswPacket (c.into (cswBuffer packet.tag))).passed packet.tag

/-- The byte counts are those of whole stages, and the residue is 0. -/
structure Whole (log : List (Request × Completion)) : Prop where
  command : ∀ p ∈ commands log, p.2.bytes = 31
  data : 0 ≤ total (transfers log) ∧ total (transfers log) < 2 ^ 32
  status : ∀ c, (statuses log).getLast? = some c →
    c.bytes = 13 ∧ (cswPacket (c.data.getD · 0)).dataResidue = 0

section Success

variable {log : List (Request × Completion)} {packet : Cbw}

theorem filterMap_map_some {α β : Type} {f : β → Option α} {g : α → β} (h : ∀ a, f (g a) = some a) (as : List α) :
    (as.map g).filterMap f = as := by
  rw [List.filterMap_map, show f ∘ g = some from funext h, List.filterMap_some]

theorem filterMap_map_none {α β γ : Type} {f : β → Option γ} {g : α → β} (h : ∀ a, f (g a) = none) (as : List α) :
    (as.map g).filterMap f = [] :=
  List.filterMap_eq_nil_iff.mpr (List.forall_mem_map.mpr fun a _ => h a)

theorem projections_eq {c : Completion} {cs ds : List Completion}
    (h : stages log = [(.command packet, c)] ++ cs.map (.data, ·) ++ ds.map (.status, ·)) :
    commands log = [(packet, c)] ∧ transfers log = cs ∧ statuses log = ds := by
  unfold commands transfers statuses
  simp only [h, List.filterMap_append, List.filterMap_cons, List.filterMap_nil, List.nil_append]
  refine ⟨?_, ?_, ?_⟩
  · rw [filterMap_map_none fun _ => rfl, filterMap_map_none fun _ => rfl, List.append_nil, List.append_nil]
  · rw [filterMap_map_none (fun _ => rfl) ds, List.append_nil]
    exact filterMap_map_some (by intro _; rfl) cs
  · rw [filterMap_map_none (fun _ => rfl) cs]
    exact filterMap_map_some (by intro _; rfl) ds

theorem usbQueueCmd_gives (rounds : Nat) (t : Transport) (cmd : List UInt8) (dataLen : UInt32)
    (dataWr : Bool) (answers : List Completion) :
    Gives ⟨answers, []⟩ (usbQueueCmd rounds t cmd dataLen dataWr) fun r s' =>
      (r.1 = 0 ↔ Through (cbw (t.tag + 1) cmd dataLen dataWr) s'.log) ∧
        (r.1 = 0 → total (transfers s'.log) ≡ dataLen.toNat [ZMOD 2 ^ 32]) := by
  unfold usbQueueCmd
  cases hoffline : t.offline with
  | true =>
      refine Gives.bind (R := fun r s' => r.1 ≠ usbRcOk ∧ s'.log = []) (gives_pure ⟨nofun, rfl⟩) ?_
      rintro sent s₁ ⟨hsent, hlog⟩
      rw [if_neg hsent]
      refine gives_pure ⟨iff_of_false nofun fun h => ?_, nofun⟩
      obtain ⟨c, hc, -⟩ := h.command
      rw [hlog] at hc
      cases hc
  | false =>
      refine (usbBulkCommand_gives _).bind ?_
      rintro sent s₁ ⟨c, hlog₁, hsent⟩
      replace hlog₁ : stages s₁.log = [(.command (cbw (t.tag + 1) cmd dataLen dataWr), c)] := hlog₁
      split
      · rename_i hok
        refine (dataStage_gives rounds dataWr dataLen).bind ?_
        rintro rcode s₂ ⟨cs, hlog₂, hrcode, hsum⟩
        refine (usbBulkManageStatus_gives (t.tag + 1)).bind ?_
        rintro status s₃ ⟨earlier, st, hlog₃, hstatus⟩
        refine gives_pure ?_
        rw [hlog₂, hlog₁] at hlog₃
        obtain ⟨hcommands, htransfers, hstatuses⟩ := projections_eq hlog₃
        dsimp only
        rw [htransfers]
        split
        · rename_i hfailed
          refine ⟨iff_of_false nofun fun h => ?_, nofun⟩
          exact hfailed (hrcode.mpr (htransfers ▸ h.data))
        · rename_i hdata
          refine ⟨hstatus.trans ⟨fun h => ?_, fun h => ?_⟩, fun _ => hsum (not_not.mp hdata)⟩
          · refine ⟨⟨c, hcommands, hsent.mp hok⟩, htransfers ▸ hrcode.mp (not_not.mp hdata), st, ?_, h⟩
            rw [hstatuses, List.getLast?_concat]
          · obtain ⟨st', hlast, hst⟩ := h.status
            rw [hstatuses, List.getLast?_concat] at hlast
            cases hlast
            exact hst
      · rename_i hfailed
        refine gives_pure ⟨iff_of_false nofun fun h => ?_, nofun⟩
        obtain ⟨c', hc', hdone⟩ := h.command
        have hcommands : commands s₁.log = [(cbw (t.tag + 1) cmd dataLen dataWr, c)] := by
          unfold commands
          rw [hlog₁]
          rfl
        rw [hcommands] at hc'
        cases hc'
        exact hfailed (hsent.mpr hdone)

/-- A status block that was received as a whole is what the driver looks at. -/
theorem into_whole {c : Completion} (hdone : c.done) (hbytes : c.bytes = 13) (buffer : Nat → UInt8) :
    cswPacket (c.into buffer) = cswPacket (c.data.getD · 0) := by
  have hinto : ∀ k < 13, c.into buffer k = c.data.getD k 0 := by
    intro k hk
    refine if_pos ⟨hdone.1, ?_⟩
    rw [hbytes]
    show (k : Int) < 13
    omega
  unfold cswPacket wordAt
  rw [hinto 0, hinto 1, hinto 2, hinto 3, hinto 4, hinto 5, hinto 6, hinto 7, hinto 8, hinto 9,
    hinto 10, hinto 11, hinto 12]
  all_goals decide

end Success

theorem usb_cmd_earned_iff {rounds : Nat} {t t' : Transport} {cmd : List UInt8} {dataLen : UInt32}
    {dataWr : Bool} {answers : List Completion} {result : Int} {bus : Bus}
    (h : (usbQueueCmd rounds t cmd dataLen dataWr).exec serve ⟨answers, []⟩ = (some (result, t'), bus)) :
    (result = 0 → Earned (cbw (t.tag + 1) cmd dataLen dataWr) bus.log) ↔
      (Through (cbw (t.tag + 1) cmd dataLen dataWr) bus.log → Whole bus.log) := by
  have hgives := Dialogue.Safe.exec (fun _ _ _ _ _ _ => trivial)
    (usbQueueCmd_gives rounds t cmd dataLen dataWr answers) trivial trivial
  obtain ⟨hresult, hsum⟩ : (result = 0 ↔ Through (cbw (t.tag + 1) cmd dataLen dataWr) bus.log) ∧
      (result = 0 → total (transfers bus.log) ≡ dataLen.toNat [ZMOD 2 ^ 32]) := by
    have hend := hgives.2 (result, t')
    rw [h] at hend
    exact hend rfl
  rw [hresult]
  constructor
  · intro hearned hthrough
    obtain ⟨⟨c, hcommands, -, hc⟩, ⟨-, hdata⟩, ⟨st, hlast, -, hst, -, hresidue⟩⟩ := hearned hthrough
    refine ⟨fun p hp => ?_, ?_, fun st' hst' => ?_⟩
    · rw [hcommands, List.mem_singleton] at hp
      rw [hp]
      exact hc
    · have hlt := dataLen.toNat_lt
      rw [hdata]
      show (0 : Int) ≤ dataLen.toNat ∧ (dataLen.toNat : Int) < 2 ^ 32
      omega
    · cases hlast.symm.trans hst'
      exact ⟨hst, hresidue⟩
  · intro hwhole hthrough
    have hwhole := hwhole hthrough
    have hmod := hsum (hresult.mpr hthrough)
    obtain ⟨⟨c, hcommands, hc⟩, hdone, ⟨st, hlast, hst, hpassed⟩⟩ := hthrough
    obtain ⟨hbytes, hresidue⟩ := hwhole.status st hlast
    rw [into_whole hst hbytes] at hpassed
    refine ⟨⟨c, hcommands, hc, ?_⟩, ⟨hdone, ?_⟩, ⟨st, hlast, hst, hbytes, hpassed, hresidue⟩⟩
    · exact hwhole.command _ (hcommands ▸ List.mem_singleton_self _)
    · have hlt : (dataLen.toNat : Int) < 2 ^ 32 := by
        have := dataLen.toNat_lt
        omega
      unfold Int.ModEq at hmod
      rwa [Int.emod_eq_of_lt hwhole.data.1 hwhole.data.2, Int.emod_eq_of_lt (Int.natCast_nonneg _) hlt] at hmod

/-- A transfer that moves `bytes` bytes. -/
def moved (bytes : Int32) (data : List UInt8) : Completion := ⟨usbRcOk, usbRcOk, bytes, data⟩

/-- READ(10) of one sector. -/
def readTen : List UInt8 := [0x28, 0, 0, 0, 0, 0, 0, 0, 1, 0, 0, 0]

/-- The status block of the command with tag 1. -/
def goodStatus : List UInt8 := [0x55, 0x53, 0x42, 0x53, 1, 0, 0, 0, 0, 0, 0, 0, 0]

/-- What happens where all goes well. -/
def goodLog : List (Request × Completion) :=
  [(.command (cbw 1 readTen 512 false), moved 31 []), (.data false 512, moved 512 []),
    (.status, moved 13 goodStatus)]

theorem usb_cmd_earned_read : (usbQueueCmd 1 ⟨0, false⟩ readTen 512 false).exec serve
    ⟨[moved 31 [], moved 512 [], moved 13 goodStatus], []⟩ = (some (0, ⟨1, false⟩), ⟨[], goodLog⟩) ∧
      Earned (cbw 1 readTen 512 false) goodLog := by
  have hruns : (usbQueueCmd 1 ⟨0, false⟩ readTen 512 false).exec serve
    ⟨[moved 31 [], moved 512 [], moved 13 goodStatus], []⟩ = (some (0, ⟨1, false⟩), ⟨[], goodLog⟩) := rfl
  refine ⟨hruns, (usb_cmd_earned_iff hruns).mpr (fun _ => ⟨?_, by decide, fun c hc => ?_⟩) rfl⟩
  · decide
  · cases hc
    decide

/-- Nothing is received as the status block. -/
theorem missing_status_passes : ∃ bus, (usbQueueCmd 1 ⟨0, false⟩ readTen 512 false).exec serve
    ⟨[moved 31 [], moved 512 [], moved 0 []], []⟩ = (some (0, ⟨1, false⟩), bus) ∧
      ¬ Earned (cbw 1 readTen 512 false) bus.log := by
  refine ⟨_, rfl, fun h => ?_⟩
  obtain ⟨c, hlast, -, hbytes, -⟩ := h.status
  cases hlast
  exact absurd hbytes (by decide)

end BdmAssault.Usb
