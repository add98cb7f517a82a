import BdmAssault.Ata.Registers
import BdmAssault.Lib.Program

/-! # Commands to ATA devices

`sceAtaExecCmd` and `sceAtaWaitResult` of `ps2atad.c`, and what they are built on. The answers
of the hardware and of the kernel depend on everything that was done before.
-/

namespace BdmAssault.Ata

open Lib

/-! ## State -/

/-- `ata_devinfo_t`. -/
structure Devinfo where
  existing : Bool
  hasPacket : Nat
  totalSectors : UInt32
  securityStatus : UInt32
  lba48 : Bool
  totalSectorsLba48 : UInt32
deriving DecidableEq

/-- After `memset`. -/
def Devinfo.zero : Devinfo := ⟨false, 0, 0, 0, false, 0⟩

/-- The fields of an entry of `g_ata_bd` that change. -/
structure AtaBd where
  sectorSize : UInt32
  sectorCount : UInt64
deriving DecidableEq

/-- What a machine answers, and what it is found to be at the start. `wait` is the result of
`sceAtaWaitResult`, and `data` what a command for 256 words leaves in its buffer. -/
structure Machine where
  dvrp : Bool
  gamestar : Bool
  ataParam : UInt32
  reg : List Event → Reg → UInt16
  setAlarm : List Event → Int
  wait : List Event → Int
  data : List Event → Nat → UInt16

structure State where
  devinfo : Fin 2 → Devinfo
  cmd : CmdState
  param : Nat → UInt16
  bd : Fin 2 → AtaBd
  devinfoInit : Bool
  log : List Event

abbrev Fn (α : Type) := Prog State Int α

def State.add (s : State) (es : List Event) : State := { s with log := s.log ++ es }

def State.withCmd (s : State) (cmd : CmdState) : State := { s with cmd := cmd }

@[simp] theorem State.add_nil (s : State) : s.add [] = s := by
  rw [add, List.append_nil]

@[simp] theorem State.add_add (s : State) (es es' : List Event) : (s.add es).add es' = s.add (es ++ es') := by
  rw [add, add, add, List.append_assoc]

@[simp] theorem State.add_cmd (s : State) (es : List Event) : (s.add es).cmd = s.cmd := rfl

@[simp] theorem State.withCmd_cmd (s : State) (cmd : CmdState) : (s.withCmd cmd).cmd = cmd := rfl

@[simp] theorem State.add_withCmd (s : State) (es : List Event) (cmd : CmdState) :
    (s.add es).withCmd cmd = (s.withCmd cmd).add es := rfl

@[simp] theorem State.withCmd_withCmd (s : State) (cmd cmd' : CmdState) :
    (s.withCmd cmd).withCmd cmd' = s.withCmd cmd' := rfl

def ataResErrNotready : Int := -501
def ataResErrTimeout : Int := -502
def ataResErrNodev : Int := -505
def ataResErrCmd : Int := -506
def ataResErrIcrc : Int := -510

/-! ## Hardware -/

section Hardware

variable (hw : Machine)

def doing (e : Event) : Fn Unit := modify fun s => s.add [e]

def readReg (r : Reg) : Fn UInt16 := do
  let s ← get
  doing (.read r)
  return hw.reg s.log r

def writeRegs (writes : List (Reg × UInt8)) : Fn Unit :=
  modify fun s => s.add (writes.map fun w => .write w.1 w.2)

def setAlarm : Fn Int := do
  let s ← get
  doing .setAlarm
  return hw.setAlarm s.log

/-- The loop of `gen_ata_wait_busy`. -/
def waitBusyLoop (bits : UInt16) : Nat → Fn Int
  | 0 => return ataResErrTimeout
  | n + 1 => do
      let control ← readReg hw .control
      if control &&& bits = 0 then return 0 else waitBusyLoop bits n

def genAtaWaitBusy (bits : UInt16) : Fn Int := waitBusyLoop hw bits 80

def ataWaitBusy : Fn Int := genAtaWaitBusy hw 0x80

def ataWaitBusBusy : Fn Int := genAtaWaitBusy hw 0x88

def ataDeviceSelect (device : Fin 2) : Fn Int := do
  let res ← ataWaitBusBusy hw
  if res < 0 then return res
  else
    let select ← readReg hw .select
    if (select >>> 4) &&& 1 = UInt16.ofNat device then return 0
    else
      writeRegs [(.select, UInt8.ofNat device <<< 4)]
      let _ ← readReg hw .control
      let _ ← readReg hw .control
      ataWaitBusBusy hw

end Hardware

/-! ## Commands -/

def ataCReadDmaExt : UInt16 := 0x25
def ataCWriteDmaExt : UInt16 := 0x35
def ataCIdentifyPacketDevice : UInt16 := 0xa1
def ataCSmart : UInt16 := 0xb0
def ataCReadDma : UInt16 := 0xc8
def ataCWriteDma : UInt16 := 0xca
def ataCIdle : UInt16 := 0xe3
def ataCIdentifyDevice : UInt16 := 0xec
def ataCSetFeatures : UInt16 := 0xef
def ataSSmartEnableOperations : UInt16 := 0xd8

/-- The rows of `ata_cmd_table` whose commands are used here. -/
def ataCmdTable : List (UInt16 × UInt8) :=
  [(ataCReadDmaExt, 0x84), (ataCWriteDmaExt, 0x84), (ataCIdentifyPacketDevice, 2), (ataCReadDma, 4),
    (ataCWriteDma, 4), (ataCIdle, 1), (ataCIdentifyDevice, 2), (ataCSetFeatures, 1)]

/-- The row of `smart_cmd_table` whose command is used here. -/
def smartCmdTable : List (UInt16 × UInt8) := [(ataSSmartEnableOperations, 1)]

/-- The arguments of `sceAtaExecCmd`. -/
structure CmdArgs where
  buf : UInt32
  blkcount : UInt32
  feature : UInt16
  nsector : UInt16
  sector : UInt16
  lcyl : UInt16
  hcyl : UInt16
  select : UInt16
  command : UInt16

/-- The search of the tables by the low byte; 0 when there is no such command. -/
def CmdArgs.type (a : CmdArgs) : UInt8 :=
  let (table, searchcmd) :=
    if a.command = ataCSmart then (smartCmdTable, a.feature &&& 0xff) else (ataCmdTable, a.command &&& 0xff)
  ((table.find? fun row => row.1 = searchcmd).map Prod.snd).getD 0

def CmdArgs.device (a : CmdArgs) : Fin 2 := if (a.select >>> 4) &&& 1 = 0 then 0 else 1

def CmdArgs.usingTimeout (a : CmdArgs) : Bool :=
  a.type &&& 0x7f = 1 ∨ a.type &&& 0x7f = 6 ∨ a.type &&& 0x7f = 4

def ataSelLba : UInt16 := 0x40

/-- The high bytes, that only a command with a 48-bit address has. -/
def CmdArgs.firstPass (a : CmdArgs) : List (Reg × UInt8) :=
  [(.feature, (a.feature >>> 8).toUInt8), (.nsector, (a.nsector >>> 8).toUInt8),
    (.sector, (a.sector >>> 8).toUInt8), (.lcyl, (a.lcyl >>> 8).toUInt8), (.hcyl, (a.hcyl >>> 8).toUInt8)]

def CmdArgs.lastPass (a : CmdArgs) : List (Reg × UInt8) :=
  [(.feature, a.feature.toUInt8), (.nsector, a.nsector.toUInt8), (.sector, a.sector.toUInt8),
    (.lcyl, a.lcyl.toUInt8), (.hcyl, a.hcyl.toUInt8), (.select, (a.select ||| ataSelLba).toUInt8),
    (.command, a.command.toUInt8)]

section Commands

variable (hw : Machine)

/-- The direction, and the alarm of a command that needs one. -/
def prepareCmd (a : CmdArgs) : Fn Unit := do
  Prog.when (a.type &&& 0x7f = 4)
    (modify fun s => s.withCmd { s.cmd with dir := a.command ≠ ataCReadDma ∧ a.command ≠ ataCReadDmaExt })
  Prog.when a.usingTimeout do
    let res ← setAlarm hw
    Prog.when (res < 0) (throw res)

def sendCmd (a : CmdArgs) : Fn Unit := do
  writeRegs [(.control, if a.usingTimeout then 0 else 2)]
  Prog.when (a.type &&& 0x80 ≠ 0) (writeRegs a.firstPass)
  writeRegs a.lastPass

def sceAtaExecCmd (a : CmdArgs) : Fn Unit := do
  let s ← get
  Prog.when ((s.devinfo a.device).existing = false) (throw ataResErrNodev)
  let res ← ataDeviceSelect hw a.device
  Prog.when (res ≠ 0) (throw res)
  modify fun s => s.withCmd { s.cmd with type := a.type &&& 0x7f }
  Prog.when (a.type &&& 0x7f = 0) (throw ataResErrCmd)
  modify fun s => s.withCmd { s.cmd with buf := a.buf, blkcount := a.blkcount }
  let control ← readReg hw .control
  -- the other commands that a device need not be ready for are not used here
  Prog.when (control &&& 0x40 = 0 ∧ a.command ≠ ataCIdentifyPacketDevice) (throw ataResErrNotready)
  prepareCmd hw a
  sendCmd a

/-- The result of `sceAtaExecCmd`. -/
def execCmd (a : CmdArgs) : Fn Int := (sceAtaExecCmd hw a).call fun _ => 0

def sceAtaWaitResult : Fn Int := do
  let s ← get
  set { s.add [.wait s.cmd (hw.wait s.log)] with
    param := if s.cmd.type = 2 then hw.data s.log else s.param }
  return hw.wait s.log

theorem sceAtaWaitResult_continues (s : State) :
    (sceAtaWaitResult hw).Continues s (hw.wait s.log) { s.add [.wait s.cmd (hw.wait s.log)] with
      param := if s.cmd.type = 2 then hw.data s.log else s.param } := rfl

/-- A transfer by DMA. -/
theorem sceAtaWaitResult_dma {s : State} (h : s.cmd.type ≠ 2) :
    (sceAtaWaitResult hw).Continues s (hw.wait s.log) (s.add [.wait s.cmd (hw.wait s.log)]) := by
  have hcontinues := sceAtaWaitResult_continues hw s
  rwa [if_neg h] at hcontinues

end Commands

/-! ## What they leave -/

/-- Nothing but the log is changed, and no command is issued or ended. -/
def State.Quiet (s s' : State) : Prop := ∃ es : List Event, (∀ e ∈ es, e.Plain) ∧ s' = s.add es

def Quietly {α : Type} (m : Fn α) : Prop := ∀ s E, m.Ensures s (fun _ s' => s.Quiet s') E

section Quiet

variable {hw : Machine} {α β : Type} {m : Fn α} {f : α → Fn β} {s s' s'' : State}

theorem State.Quiet.refl (s : State) : s.Quiet s := ⟨[], List.forall_mem_nil _, s.add_nil.symm⟩

theorem State.Quiet.trans (h : s.Quiet s') (h' : s'.Quiet s'') : s.Quiet s'' := by
  obtain ⟨es, hplain, rfl⟩ := h
  obtain ⟨es', hplain', rfl⟩ := h'
  refine ⟨es ++ es', fun e he => ?_, State.add_add s es es'⟩
  exact (List.mem_append.mp he).elim (hplain e) (hplain' e)

theorem quietly_pure (a : α) : Quietly (pure a : Fn α) := fun s _ => Prog.ensures_pure (.refl s)

theorem quietly_doing {e : Event} (he : e.Plain) : Quietly (doing e) := by
  intro s E
  exact Prog.continues_modify.ensures ⟨[e], List.forall_mem_singleton.mpr he, rfl⟩

theorem Quietly.bind (hm : Quietly m) (hf : ∀ a, Quietly (f a)) : Quietly (m >>= f) := by
  intro s E
  refine (hm s E).bind fun a s' hs' => ?_
  exact (hf a s' E).mono fun b s'' hs'' => hs'.trans hs''

theorem Quietly.get {f : State → Fn β} (hf : ∀ s, Quietly (f s)) : Quietly (get >>= f) :=
  fun s E => Prog.Ensures.get (hf s s E)

theorem Quietly.ite {p : Prop} [Decidable p] {m' : Fn α} (hm : Quietly m) (hm' : Quietly m') :
    Quietly (if p then m else m') := by
  split
  · exact hm
  · exact hm'

theorem quietly_readReg (r : Reg) : Quietly (readReg hw r) :=
  .get fun _ => (quietly_doing (e := .read r) trivial).bind fun _ => quietly_pure _

theorem quietly_writeRegs {writes : List (Reg × UInt8)} (h : ∀ w ∈ writes, w.1 ≠ .command) :
    Quietly (writeRegs writes) := by
  intro s E
  refine Prog.continues_modify.ensures ⟨_, fun e he => ?_, rfl⟩
  obtain ⟨⟨r, v⟩, hmem, rfl⟩ := List.mem_map.mp he
  cases r with
  | command => exact absurd rfl (h _ hmem)
  | _ => trivial

/-- The alarm, which answers by itself. -/
theorem setAlarm_ensures {E : Int → State → Prop} :
    (setAlarm hw).Ensures s (fun r s' => r = hw.setAlarm s.log ∧ s.Quiet s') E := by
  refine Prog.Ensures.get ((quietly_doing (e := .setAlarm) trivial _ _).bind fun _ s₁ hs₁ => ?_)
  exact Prog.ensures_pure ⟨rfl, hs₁⟩

theorem waitBusyLoop_ensures (bits : UInt16) (n : Nat) {E : Int → State → Prop} :
    (waitBusyLoop hw bits n).Ensures s (fun r s' => (r ≠ 0 → r = ataResErrTimeout) ∧ s.Quiet s') E := by
  induction n generalizing s with
  | zero => exact Prog.ensures_pure ⟨fun _ => rfl, .refl s⟩
  | succ n ih =>
      refine (quietly_readReg .control _ _).bind fun control s₁ hs₁ => ?_
      split
      · exact Prog.ensures_pure ⟨fun h => absurd rfl h, hs₁⟩
      · exact ih.mono fun r s' h => ⟨h.1, hs₁.trans h.2⟩

theorem ataDeviceSelect_ensures (device : Fin 2) {E : Int → State → Prop} :
    (ataDeviceSelect hw device).Ensures s (fun r s' => (r ≠ 0 → r = ataResErrTimeout) ∧ s.Quiet s') E := by
  refine (waitBusyLoop_ensures 0x88 80).bind fun res s₁ ⟨hres, hs₁⟩ => ?_
  split
  · exact Prog.ensures_pure ⟨hres, hs₁⟩
  refine (quietly_readReg .select _ _).bind fun select s₂ hs₂ => ?_
  split
  · exact Prog.ensures_pure ⟨fun h => absurd rfl h, hs₁.trans hs₂⟩
  have hselect : Quietly (writeRegs [(.select, UInt8.ofNat device <<< 4)]) :=
    quietly_writeRegs (List.forall_mem_singleton.mpr (show Reg.select ≠ .command by decide))
  refine (hselect _ _).bind fun _ s₃ hs₃ => ?_
  refine (quietly_readReg .control _ _).bind fun _ s₄ hs₄ => ?_
  refine (quietly_readReg .control _ _).bind fun _ s₅ hs₅ => ?_
  refine (waitBusyLoop_ensures 0x88 80).mono fun r s₆ ⟨hr, hs₆⟩ => ⟨hr, ?_⟩
  exact hs₁.trans (hs₂.trans (hs₃.trans (hs₄.trans (hs₅.trans hs₆))))

theorem quietly_waitBusyLoop (bits : UInt16) (n : Nat) : Quietly (waitBusyLoop hw bits n) :=
  fun _ _ => (waitBusyLoop_ensures bits n).mono fun _ _ h => h.2

theorem quietly_ataDeviceSelect (device : Fin 2) : Quietly (ataDeviceSelect hw device) :=
  fun _ _ => (ataDeviceSelect_ensures device).mono fun _ _ h => h.2

end Quiet

/-- What `sceAtaExecCmd` leaves for `sceAtaWaitResult`. -/
def CmdArgs.cmdState (a : CmdArgs) (cmd : CmdState) : CmdState where
  type := a.type &&& 0x7f
  buf := a.buf
  blkcount := a.blkcount
  dir := if a.type &&& 0x7f = 4 then a.command ≠ ataCReadDma ∧ a.command ≠ ataCReadDmaExt else cmd.dir

def CmdArgs.writes (a : CmdArgs) : List Event :=
  let first := if a.type &&& 0x80 ≠ 0 then a.firstPass else []
  ((Reg.control, if a.usingTimeout then 0 else 2) :: (first ++ a.lastPass)).map fun w => .write w.1 w.2

/-- The command is issued with all of its registers, to a device that was found. -/
def Issued (a : CmdArgs) (s s' : State) : Prop :=
  (s.devinfo a.device).existing = true ∧
    ∃ es : List Event, (∀ e ∈ es, e.Plain) ∧ s' = (s.withCmd (a.cmdState s.cmd)).add (es ++ a.writes)

/-- No command is issued. -/
def NotIssued (s s' : State) : Prop := ∃ cmd, (s.withCmd cmd).Quiet s'

/-- What `sceAtaExecCmd` answers then. The CRC error is not among it, unless the alarm cannot be
set for that reason. -/
inductive Refuses (hw : Machine) : Int → Prop where
  | nodev : Refuses hw ataResErrNodev
  | busy : Refuses hw ataResErrTimeout
  | unknown : Refuses hw ataResErrCmd
  | notready : Refuses hw ataResErrNotready
  | alarm {log : List Event} (h : hw.setAlarm log < 0) : Refuses hw (hw.setAlarm log)

section Exec

variable {hw : Machine} {a : CmdArgs} {s s' : State}

theorem Refuses.ne_zero {res : Int} (h : Refuses hw res) : res ≠ 0 := by
  cases h with
  | alarm h => exact Int.ne_of_lt h
  | _ => decide

theorem NotIssued.of_quiet {cmd : CmdState} {es : List Event} (hplain : ∀ e ∈ es, e.Plain)
    (h : NotIssued ((s.withCmd cmd).add es) s') : NotIssued s s' := by
  obtain ⟨cmd', hquiet⟩ := h
  exact ⟨cmd', State.Quiet.trans ⟨es, hplain, rfl⟩ hquiet⟩

theorem prepareCmd_ensures :
    (prepareCmd hw a).Ensures s
      (fun _ s' => (s.withCmd { s.cmd with dir := (a.cmdState s.cmd).dir }).Quiet s')
      (fun r s' => Refuses hw r ∧ NotIssued s s') := by
  refine Prog.Ensures.bind (R := fun _ s' => s' = s.withCmd { s.cmd with dir := (a.cmdState s.cmd).dir }) ?_ ?_
  · apply Prog.ensures_when
    · intro htype
      refine Prog.continues_modify.ensures ?_
      rw [CmdArgs.cmdState, if_pos htype]
    · intro htype
      rw [CmdArgs.cmdState, if_neg htype]
      rfl
  · rintro _ _ rfl
    apply Prog.ensures_when
    · intro _
      refine setAlarm_ensures.bind ?_
      rintro _ s' ⟨rfl, hs'⟩
      apply Prog.ensures_when
      · exact fun hres => Prog.ensures_throw ⟨.alarm hres, _, hs'⟩
      · exact fun _ => hs'
    · exact fun _ => .refl _

theorem sendCmd_ensures {E : Int → State → Prop} :
    (sendCmd a).Ensures s (fun _ s' => s' = s.add a.writes) E := by
  refine Prog.continues_modify.ensures_bind ?_
  unfold CmdArgs.writes
  by_cases htype : a.type &&& 0x80 ≠ 0
  · rw [Prog.when_pos htype, if_pos htype]
    refine Prog.continues_modify.ensures_bind (Prog.continues_modify.ensures ?_)
    simp only [State.add_add, List.map_cons, List.map_nil, List.map_append, List.cons_append,
      List.nil_append]
  · rw [if_neg htype]
    refine (Prog.continues_when_neg htype).ensures_bind (Prog.continues_modify.ensures ?_)
    simp only [State.add_add, List.map_cons, List.map_nil, List.cons_append, List.nil_append]

theorem sceAtaExecCmd_ensures :
    (sceAtaExecCmd hw a).Ensures s (fun _ s' => Issued a s s')
      (fun r s' => Refuses hw r ∧ NotIssued s s') := by
  apply Prog.Ensures.get
  refine Prog.ensures_check (fun _ => ⟨.nodev, s.cmd, .refl s⟩) fun hexisting => ?_
  have hexisting : (s.devinfo a.device).existing = true := by
    cases h : (s.devinfo a.device).existing with
    | true => rfl
    | false => exact absurd h hexisting
  refine (ataDeviceSelect_ensures a.device).bind ?_
  rintro res _ ⟨hselect, es, hplain, rfl⟩
  refine Prog.ensures_check (fun hres => ⟨hselect hres ▸ .busy, s.cmd, es, hplain, rfl⟩) fun _ => ?_
  refine Prog.continues_modify.ensures_bind ?_
  refine Prog.ensures_check (fun _ => ⟨.unknown, _, es, hplain, rfl⟩) fun _ => ?_
  refine Prog.continues_modify.ensures_bind ?_
  simp only [State.add_cmd, State.add_withCmd, State.withCmd_cmd, State.withCmd_withCmd]
  refine (quietly_readReg .control _ _).bind ?_
  rintro control _ ⟨es₁, hplain₁, rfl⟩
  rw [State.add_add]
  have hplain₂ : ∀ e ∈ es ++ es₁, e.Plain := fun e he =>
    (List.mem_append.mp he).elim (hplain e) (hplain₁ e)
  refine Prog.ensures_check (fun _ => ⟨.notready, _, es ++ es₁, hplain₂, rfl⟩) fun _ => ?_
  refine (prepareCmd_ensures.exits_mono fun r s' h => ⟨h.1, h.2.of_quiet hplain₂⟩).bind ?_
  rintro _ _ ⟨es₂, hplain₃, rfl⟩
  refine sendCmd_ensures.mono ?_
  rintro _ _ rfl
  refine ⟨hexisting, es ++ es₁ ++ es₂, fun e he => ?_, ?_⟩
  · exact (List.mem_append.mp he).elim (hplain₂ e) (hplain₃ e)
  · simp only [State.add_cmd, State.add_withCmd, State.withCmd_cmd, State.withCmd_withCmd, State.add_add]
    rfl

/-- The same of its result. -/
theorem execCmd_ensures {E : Int → State → Prop} :
    (execCmd hw a).Ensures s (fun r s' => (r = 0 ∧ Issued a s s') ∨ (Refuses hw r ∧ NotIssued s s')) E := by
  refine Prog.Ensures.call (R := fun _ s' => Issued a s s') _ ?_ fun _ s' h => .inl ⟨rfl, h⟩
  exact sceAtaExecCmd_ensures.exits_mono fun r s' h => .inr h

/-- A command that succeeds. -/
theorem execCmd_issued {E : Int → State → Prop} (h : ((execCmd hw a).outcome id s).1 = 0) :
    (execCmd hw a).Ensures s (fun r s' => r = 0 ∧ Issued a s s') E := by
  have hensures := @execCmd_ensures hw a s fun _ _ => False
  unfold Prog.outcome at h
  unfold Prog.Ensures at hensures ⊢
  split at hensures
  · rename_i r s' hrun
    rw [hrun] at h
    exact hensures.resolve_right fun hfail => hfail.1.ne_zero h
  · exact absurd hensures id

end Exec

/-! ## What the device takes -/

section Writes

variable {a : CmdArgs} {d : Device}

/-- Both bytes of each register count in a command with a 48-bit address. -/
theorem run_writes_ext (htype : a.type &&& 0x80 ≠ 0)
    (hop : a.command.toUInt8 = opReadDmaExt ∨ a.command.toUInt8 = opWriteDmaExt) :
    (d.run a.writes).issued =
      (let sectors := bigEndian [(a.nsector >>> 8).toUInt8, a.nsector.toUInt8]
      some ⟨a.command.toUInt8, selected (a.select ||| ataSelLba).toUInt8,
        (a.select ||| ataSelLba).toUInt8 &&& 0x40 ≠ 0,
        bigEndian [(a.hcyl >>> 8).toUInt8, (a.lcyl >>> 8).toUInt8, (a.sector >>> 8).toUInt8, a.hcyl.toUInt8,
          a.lcyl.toUInt8, a.sector.toUInt8], if sectors = 0 then 65536 else sectors⟩) := by
  unfold CmdArgs.writes
  rw [if_pos htype]
  show some (TaskFile.command _ _) = _
  rw [TaskFile.command, if_pos hop]
  rfl

theorem run_writes (htype : a.type &&& 0x80 = 0)
    (hop : ¬(a.command.toUInt8 = opReadDmaExt ∨ a.command.toUInt8 = opWriteDmaExt)) :
    (d.run a.writes).issued =
      (let sectors := bigEndian [a.nsector.toUInt8]
      some ⟨a.command.toUInt8, selected (a.select ||| ataSelLba).toUInt8,
        (a.select ||| ataSelLba).toUInt8 &&& 0x40 ≠ 0,
        bigEndian [(a.select ||| ataSelLba).toUInt8 &&& 0xf, a.hcyl.toUInt8, a.lcyl.toUInt8, a.sector.toUInt8],
        if sectors = 0 then 256 else sectors⟩) := by
  unfold CmdArgs.writes
  rw [if_neg (not_not_intro htype)]
  show some (TaskFile.command _ _) = _
  rw [TaskFile.command, if_neg hop]
  rfl

theorem run_writes_transfers : (d.run a.writes).transfers = d.transfers := by
  unfold CmdArgs.writes
  split <;> rfl

end Writes

end BdmAssault.Ata
