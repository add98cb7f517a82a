import BdmAssault.Ata.Probe
import BdmAssault.Lib.Transition

/-! # Connecting disks once

What any sequence of calls of `sceAtaInit` and `atad_probe` connects to BDM, whatever the
hardware answers.
-/

namespace BdmAssault.Ata

open Lib

/-! ## Steps of a call -/

/-- Events within a call, other than those that this is about. -/
def Event.Inner : Event → Prop
  | .connect _ | .busReset => False
  | _ => True

/-- Commands in between: `es` is what they add to the log. -/
structure Within (s s' : State) (es : List Event) : Prop where
  devinfo : s'.devinfo = s.devinfo
  devinfoInit : s'.devinfoInit = s.devinfoInit
  bd : s'.bd = s.bd
  inner : ∀ e ∈ es, e.Inner
  log : s'.log = s.log ++ es

section Within

variable {hw : Machine} {a : CmdArgs} {s s' s'' : State} {es es' : List Event} {E : Int → State → Prop}

theorem Event.Plain.inner {e : Event} (h : e.Plain) : e.Inner := by
  cases e with
  | connect device => exact absurd h id
  | busReset => exact absurd h id
  | _ => trivial

theorem inner_append (h : ∀ e ∈ es, e.Inner) (h' : ∀ e ∈ es', e.Inner) : ∀ e ∈ es ++ es', e.Inner :=
  fun e he => (List.mem_append.mp he).elim (h e) (h' e)

theorem Within.refl (s : State) : Within s s [] :=
  ⟨rfl, rfl, rfl, List.forall_mem_nil _, (List.append_nil _).symm⟩

theorem Within.trans (h : Within s s' es) (h' : Within s' s'' es') : Within s s'' (es ++ es') where
  devinfo := h'.devinfo.trans h.devinfo
  devinfoInit := h'.devinfoInit.trans h.devinfoInit
  bd := h'.bd.trans h.bd
  inner := inner_append h.inner h'.inner
  log := by rw [h'.log, h.log, List.append_assoc]

theorem State.Quiet.within (h : s.Quiet s') : ∃ es, Within s s' es := by
  obtain ⟨es, hplain, rfl⟩ := h
  exact ⟨es, rfl, rfl, rfl, fun e he => (hplain e he).inner, rfl⟩

theorem NotIssued.within (h : NotIssued s s') : ∃ es, Within s s' es := by
  obtain ⟨cmd, es, hplain, rfl⟩ := h
  exact ⟨es, rfl, rfl, rfl, fun e he => (hplain e he).inner, rfl⟩

theorem writes_inner (a : CmdArgs) : ∀ e ∈ a.writes, e.Inner := by
  intro e he
  obtain ⟨w, -, rfl⟩ := List.mem_map.mp he
  trivial

/-- The command, when the result is 0, is among the events. -/
theorem commandResult_ensures :
    (commandResult hw a).Ensures s (fun r s' => ∃ es, Within s s' es ∧
      (r = 0 → ∀ c, (∀ d : Device, (d.run a.writes).issued = some c) → ∃ cmd, Adds es [⟨c, cmd, 0⟩])) E := by
  refine execCmd_ensures.bind ?_
  rintro r s₁ (⟨rfl, -, es, hplain, rfl⟩ | ⟨hr, hnot⟩)
  · rw [if_pos rfl]
    refine (sceAtaWaitResult_continues hw _).ensures ?_
    generalize hw.wait _ = res
    refine ⟨es ++ a.writes ++ [.wait (a.cmdState s.cmd) res], ⟨rfl, rfl, rfl, ?_, ?_⟩, fun hres c hissued => ?_⟩
    · refine inner_append (inner_append (fun e he => (hplain e he).inner) (writes_inner a)) ?_
      exact List.forall_mem_singleton.mpr trivial
    · exact List.append_assoc s.log (es ++ a.writes) [.wait (a.cmdState s.cmd) res]
    · have hadds := @adds_command es [] a.writes c (a.cmdState s.cmd) res hissued (fun d => run_writes_transfers) hplain
        (List.forall_mem_nil _)
      rw [List.append_nil, hres] at hadds
      rw [hres]
      exact ⟨_, hadds⟩
  · rw [if_neg hr.ne_zero]
    obtain ⟨es, hes⟩ := hnot.within
    exact Prog.ensures_pure ⟨es, hes, fun h => absurd h hr.ne_zero⟩

end Within

/-- A step of a call that changes none of the tables. -/
def Uneventful {α : Type} (m : Fn α) : Prop := ∀ s E, m.Ensures s (fun _ s' => ∃ es, Within s s' es) E

section Uneventful

variable {hw : Machine} {α β : Type} {m : Fn α} {f : α → Fn β}

theorem uneventful_pure (a : α) : Uneventful (pure a : Fn α) := fun s _ => Prog.ensures_pure ⟨[], .refl s⟩

theorem Quietly.uneventful (h : Quietly m) : Uneventful m :=
  fun s E => (h s E).mono fun _ _ hquiet => hquiet.within

theorem Uneventful.bind (hm : Uneventful m) (hf : ∀ a, Uneventful (f a)) : Uneventful (m >>= f) := by
  intro s E
  refine (hm s E).bind ?_
  rintro a s' ⟨es, hes⟩
  refine (hf a s' E).mono ?_
  rintro b s'' ⟨es', hes'⟩
  exact ⟨es ++ es', hes.trans hes'⟩

theorem uneventful_commandResult (a : CmdArgs) : Uneventful (commandResult hw a) := by
  intro s E
  refine commandResult_ensures.mono ?_
  rintro r s' ⟨es, hes, -⟩
  exact ⟨es, hes⟩

theorem uneventful_ataDeviceSetTransferMode (device : Fin 2) (mode : UInt16) :
    Uneventful (ataDeviceSetTransferMode hw device mode) := by
  refine (uneventful_commandResult _).bind fun res => ?_
  split
  · exact uneventful_pure res
  · exact (quietly_doing (e := .timing) trivial).uneventful.bind fun _ => uneventful_pure 0

end Uneventful

/-! ## A disk that is connected -/

/-- The entry of `atad_devinfo` of a disk that is connected. -/
def identified (hw : Machine) (param : Nat → UInt16) (d : Devinfo) : Devinfo :=
  let d := { d with lba48 := param 83 &&& 0x0400 ≠ 0, securityStatus := (param 128).toUInt32 }
  if d.lba48 then
    { d with
      totalSectors := if hw.dvrp then totalSectorsNonlba48 param else totalSectorsLba48 param
      totalSectorsLba48 := totalSectorsLba48 param }
  else { d with totalSectors := totalSectorsNonlba48 param, totalSectorsLba48 := totalSectorsNonlba48 param }

def identifiedBd (param : Nat → UInt16) : AtaBd where
  sectorSize := ataGetLogicalSectorSize2 param
  sectorCount := if param 83 &&& 0x0400 ≠ 0 then totalSectorsLba48Bdm param else (totalSectorsNonlba48 param).toUInt64

section Connect

variable {hw : Machine} {i : Fin 2} {param : Nat → UInt16} {s : State} {E : Int → State → Prop}

theorem identified_fields (hw : Machine) (param : Nat → UInt16) (d : Devinfo) :
    (identified hw param d).existing = d.existing ∧ (identified hw param d).hasPacket = d.hasPacket ∧
      (identified hw param d).lba48 = decide (param 83 &&& 0x0400 ≠ 0) := by
  unfold identified
  dsimp only
  by_cases h48 : decide (param 83 &&& 0x0400 ≠ 0) = true
  · rw [if_pos h48]
    exact ⟨rfl, rfl, rfl⟩
  · rw [if_neg h48]
    exact ⟨rfl, rfl, rfl⟩

theorem connectDisk_ensures :
    (connectDisk hw i param).Ensures s (fun _ s' => s'.devinfoInit = s.devinfoInit ∧
      s'.devinfo = Function.update s.devinfo i (identified hw param (s.devinfo i)) ∧
      s'.bd = Function.update s.bd i (identifiedBd param) ∧
      ∃ es, (∀ e ∈ es, e.Inner) ∧ s'.log = s.log ++ (es ++ [.connect i])) E := by
  refine Prog.continues_modify.ensures_bind (Prog.continues_modify.ensures_bind ?_)
  refine (uneventful_ataDeviceSetTransferMode i (udmaMode param) _ _).bind ?_
  rintro _ s₁ ⟨es₁, h₁⟩
  refine (uneventful_commandResult _ _ _).bind ?_
  rintro _ s₂ ⟨es₂, h₂⟩
  refine (uneventful_commandResult _ _ _).bind ?_
  rintro _ s₃ ⟨es₃, h₃⟩
  have h := (h₁.trans h₂).trans h₃
  generalize es₁ ++ es₂ ++ es₃ = es at h
  refine Prog.continues_modify.ensures_bind (Prog.continues_modify.ensures_bind ?_)
  refine Prog.continues_modify.ensures ⟨h.devinfoInit, ?_, ?_, es, h.inner, ?_⟩
  · simp only [State.add, State.setBd, State.setDevinfo, h.devinfo, Function.update_self, Function.update_idem]
    rfl
  · simp only [State.add, State.setBd, State.setDevinfo, h.devinfo, h.bd, Function.update_self, Function.update_idem]
    show Function.update s.bd i ⟨_, if (identified hw param (s.devinfo i)).lba48 = true then _ else _⟩ = _
    simp only [(identified_fields hw param (s.devinfo i)).2.2, decide_eq_true_eq]
    rfl
  · show s₃.log ++ [Event.connect i] = _
    rw [h.log]
    exact List.append_assoc s.log es [.connect i]

theorem ataGetLogicalSectorSize2_blocks (param : Nat → UInt16) :
    0 < (ataGetLogicalSectorSize2 param).toNat ∧ 512 ∣ (ataGetLogicalSectorSize2 param).toNat := by
  unfold ataGetLogicalSectorSize2
  split
  · decide
  dsimp only
  split
  · decide
  split
  · decide
  rename_i hbytes
  rw [not_or, UInt32.not_lt, Decidable.not_not, ← UInt32.toNat_inj, UInt32.toNat_mod] at hbytes
  obtain ⟨hleast, hblocks⟩ := hbytes
  exact ⟨Nat.lt_of_lt_of_le (by decide) (UInt32.le_iff_toNat_le.mp hleast), Nat.dvd_of_mod_eq_zero hblocks⟩

theorem totalSectorsLba48Bdm_le (param : Nat → UInt16) : (totalSectorsLba48Bdm param).toNat ≤ 281474976710656 := by
  unfold totalSectorsLba48Bdm
  dsimp only
  split
  · rw [UInt32.toNat_toUInt64]
    have hsize := (totalSectorsNonlba48 param).toNat_lt_size
    exact hsize.le.trans (by decide)
  · rename_i htotal
    rw [not_or, UInt64.not_lt, UInt64.le_iff_toNat_le] at htotal
    exact htotal.2.trans (by decide)

/-- A disk that reports a 28-bit capacity as it must is one that requests can be made of. -/
theorem identified_disk (hw : Machine) (d : Devinfo) (h : (totalSectorsNonlba48 param).toNat ≤ 268435456) :
    Disk hw (identified hw param d) (identifiedBd param) where
  sectorSize_pos := (ataGetLogicalSectorSize2_blocks param).1
  sectorSize_blocks := (ataGetLogicalSectorSize2_blocks param).2
  small h48 := by
    have hbit : ¬param 83 &&& 0x0400 ≠ 0 := of_decide_eq_false ((identified_fields hw param d).2.2 ▸ h48)
    unfold identifiedBd
    rwa [if_neg hbit, UInt32.toNat_toUInt64]
  large := by
    unfold identifiedBd
    split
    · exact totalSectorsLba48Bdm_le param
    · rw [UInt32.toNat_toUInt64]
      omega
  boundary h48 hdvrp := by
    have hbit : decide (param 83 &&& 0x0400 ≠ 0) = true := (identified_fields hw param d).2.2 ▸ h48
    unfold identified
    dsimp only
    rw [if_pos hbit, hdvrp, if_pos rfl]
    exact h

end Connect

/-! ## The loop over the devices -/

/-- The command that a non-packet device answers. -/
def identifyCommand (i : Fin 2) : Command := ⟨0xec, i, true, 0, 256⟩

/-- In these events, the device answers IDENTIFY DEVICE. -/
def Answered (i : Fin 2) (es : List Event) : Prop :=
  ∃ es₁ es₂ es₃ cmd, es = es₁ ++ es₂ ++ es₃ ∧ Adds es₂ [⟨identifyCommand i, cmd, 0⟩]

/-- The events of a device that is connected, and its entries in the tables. -/
def Connected (hw : Machine) (i : Fin 2) (s : State) (es : List Event) : Prop :=
  (s.devinfo i).Usable ∧ (∃ param d, s.devinfo i = identified hw param d ∧ s.bd i = identifiedBd param) ∧
    ∃ es', (∀ e ∈ es', e.Inner) ∧ es = es' ++ [.connect i] ∧ Answered i es'

/-- What the loop does for one device. -/
def Visited (hw : Machine) (i : Fin 2) (s s' : State) : Prop :=
  s'.devinfoInit = s.devinfoInit ∧ (∀ j ≠ i, s'.devinfo j = s.devinfo j ∧ s'.bd j = s.bd j) ∧
    ∃ es, s'.log = s.log ++ es ∧ ((∀ e ∈ es, e.Inner) ∨ Connected hw i s' es)

/-- What is connected can be read and written, when the disk keeps to 28 bits. -/
theorem Connected.disk {hw : Machine} {i : Fin 2} {s : State} {es : List Event} (h : Connected hw i s es) :
    ∃ param, (totalSectorsNonlba48 param).toNat ≤ 268435456 → Disk hw (s.devinfo i) (s.bd i) := by
  obtain ⟨-, ⟨param, d, hdevinfo, hbd⟩, -⟩ := h
  refine ⟨param, fun hcapacity => ?_⟩
  rw [hdevinfo, hbd]
  exact identified_disk hw d hcapacity

section Loop

variable {hw : Machine} {i : Fin 2} {s s' : State} {E : Int → State → Prop} {es : List Event}

theorem Answered.mono (h : Answered i es) (es' : List Event) : Answered i (es ++ es') := by
  obtain ⟨es₁, es₂, es₃, cmd, rfl, hadds⟩ := h
  exact ⟨es₁, es₂, es₃ ++ es', cmd, List.append_assoc _ _ _, hadds⟩

theorem identify_issued (d : Device) :
    (d.run (deviceArgs i hw.ataParam 0 0 0 0 ataCIdentifyDevice).writes).issued = some (identifyCommand i) := by
  have htype : (deviceArgs i hw.ataParam 0 0 0 0 ataCIdentifyDevice).type = 2 := by
    unfold CmdArgs.type deviceArgs
    dsimp only
    rfl
  have hbyte : (deviceArgs i hw.ataParam 0 0 0 0 ataCIdentifyDevice).type &&& 0x80 = 0 := by
    rw [htype]
    rfl
  have hop : ¬(ataCIdentifyDevice.toUInt8 = opReadDmaExt ∨ ataCIdentifyDevice.toUInt8 = opWriteDmaExt) := by decide
  rw [run_writes hbyte hop]
  unfold deviceArgs
  dsimp only
  simp only [identifyCommand, Option.some.injEq, Command.mk.injEq]
  obtain rfl | rfl : i = 0 ∨ i = 1 := by omega
  · exact ⟨by decide, by decide, decide_eq_true (by decide), by decide, by decide⟩
  · exact ⟨by decide, by decide, decide_eq_true (by decide), by decide, by decide⟩

/-- A device that is usable afterwards has answered. -/
theorem sendIdentify_ensures :
    (sendIdentify hw i (s.devinfo i).hasPacket).Ensures s (fun _ s' => s'.devinfoInit = s.devinfoInit ∧
      (∀ j ≠ i, s'.devinfo j = s.devinfo j) ∧ s'.bd = s.bd ∧
      ∃ es, (∀ e ∈ es, e.Inner) ∧ s'.log = s.log ++ es ∧ ((s'.devinfo i).Usable → Answered i es)) E := by
  unfold sendIdentify
  split
  · refine commandResult_ensures.bind ?_
    rintro res s₁ ⟨es, hes, hanswer⟩
    refine Prog.continues_modify.ensures ⟨hes.devinfoInit, fun j hj => ?_, hes.bd, es, hes.inner, hes.log, fun husable => ?_⟩
    · exact (Function.update_of_ne hj _ _).trans (congrFun hes.devinfo j)
    · have hexisting : decide (res = 0) = true := by
        have hupdated := husable.1
        simp only [State.setDevinfo, Function.update_self] at hupdated
        exact hupdated
      obtain ⟨cmd, hadds⟩ := hanswer (of_decide_eq_true hexisting) (identifyCommand i) identify_issued
      exact ⟨[], es, [], cmd, (List.append_nil es).symm, hadds⟩
  · rename_i hpacket
    split
    · refine (uneventful_commandResult _ _ _).bind ?_
      rintro res s₁ ⟨es, hes⟩
      refine Prog.continues_modify.ensures ⟨hes.devinfoInit, fun j hj => ?_, hes.bd, es, hes.inner, hes.log,
        fun husable => ?_⟩
      · exact (Function.update_of_ne hj _ _).trans (congrFun hes.devinfo j)
      · have hkind := husable.2
        simp only [State.setDevinfo, Function.update_self, hes.devinfo] at hkind
        exact absurd hkind hpacket
    · refine Prog.ensures_pure ⟨rfl, fun _ _ => rfl, rfl, [], List.forall_mem_nil _, (List.append_nil _).symm, ?_⟩
      exact fun husable => absurd husable.2 hpacket

theorem ataInitDevice_ensures : (ataInitDevice hw i).Ensures s (fun _ s' => Visited hw i s s') E := by
  apply Prog.Ensures.get
  split
  · exact Prog.ensures_pure ⟨rfl, fun _ _ => ⟨rfl, rfl⟩, [], (List.append_nil _).symm, .inl (List.forall_mem_nil _)⟩
  refine sendIdentify_ensures.bind ?_
  rintro _ s₁ ⟨hinit, hothers, hbd, es, hinner, hlog, hanswer⟩
  apply Prog.Ensures.get
  by_cases hdone : (s₁.devinfo i).existing = false ∨ (s₁.devinfo i).hasPacket ≠ 0
  · rw [if_pos hdone]
    exact Prog.ensures_pure ⟨hinit, fun j hj => ⟨hothers j hj, by rw [hbd]⟩, es, hlog, .inl hinner⟩
  · rw [if_neg hdone]
    have husable : (s₁.devinfo i).Usable :=
      ⟨Bool.of_not_eq_false fun h => hdone (.inl h), Decidable.of_not_not fun h => hdone (.inr h)⟩
    refine connectDisk_ensures.mono ?_
    rintro _ s₂ ⟨hinit₂, hdevinfo, hbd₂, es₂, hinner₂, hlog₂⟩
    obtain ⟨hexisting, hpacket, -⟩ := identified_fields hw s₁.param (s₁.devinfo i)
    have hentry : s₂.devinfo i = identified hw s₁.param (s₁.devinfo i) := by
      rw [hdevinfo, Function.update_self]
    refine ⟨hinit₂.trans hinit, fun j hj => ⟨?_, ?_⟩, es ++ es₂ ++ [.connect i], ?_, .inr ⟨?_, ?_, ?_⟩⟩
    · rw [hdevinfo, Function.update_of_ne hj, hothers j hj]
    · rw [hbd₂, Function.update_of_ne hj, hbd]
    · rw [hlog₂, hlog, List.append_assoc, List.append_assoc]
    · rw [hentry]
      exact ⟨hexisting.trans husable.1, hpacket.trans husable.2⟩
    · exact ⟨s₁.param, s₁.devinfo i, hentry, by rw [hbd₂, Function.update_self]⟩
    · exact ⟨es ++ es₂, inner_append hinner hinner₂, rfl, (hanswer husable).mono es₂⟩

end Loop

/-! ## A call -/

/-- Nothing is connected. -/
def State.Unconnected (s s' : State) : Prop :=
  s'.devinfoInit = s.devinfoInit ∧ ∃ es, (∀ e ∈ es, e.Inner) ∧ s'.log = s.log ++ es

def ConnectsNothing {α : Type} (m : Fn α) : Prop := ∀ s E, m.Ensures s (fun _ s' => s.Unconnected s') E

section ConnectsNothing

variable {hw : Machine} {α β : Type} {m : Fn α} {f : α → Fn β} {s s' s'' : State}

theorem State.Unconnected.refl (s : State) : s.Unconnected s :=
  ⟨rfl, [], List.forall_mem_nil _, (List.append_nil _).symm⟩

theorem State.Unconnected.trans (h : s.Unconnected s') (h' : s'.Unconnected s'') : s.Unconnected s'' := by
  obtain ⟨hinit, es, hinner, hlog⟩ := h
  obtain ⟨hinit', es', hinner', hlog'⟩ := h'
  exact ⟨hinit'.trans hinit, es ++ es', inner_append hinner hinner', by rw [hlog', hlog, List.append_assoc]⟩

theorem connectsNothing_pure (a : α) : ConnectsNothing (pure a : Fn α) := fun s _ => Prog.ensures_pure (.refl s)

theorem connectsNothing_setDevinfo (i : Fin 2) (g : Devinfo → Devinfo) :
    ConnectsNothing (modify fun s => s.setDevinfo i g : Fn PUnit) :=
  fun s _ => Prog.continues_modify.ensures ⟨rfl, [], List.forall_mem_nil _, (List.append_nil s.log).symm⟩

theorem Quietly.connectsNothing (h : Quietly m) : ConnectsNothing m := by
  intro s E
  refine (h s E).mono ?_
  rintro _ _ ⟨es, hplain, rfl⟩
  exact ⟨rfl, es, fun e he => (hplain e he).inner, rfl⟩

theorem ConnectsNothing.bind (hm : ConnectsNothing m) (hf : ∀ a, ConnectsNothing (f a)) :
    ConnectsNothing (m >>= f) := by
  intro s E
  refine (hm s E).bind fun a s' hs' => ?_
  exact (hf a s' E).mono fun _ _ hs'' => hs'.trans hs''

theorem ConnectsNothing.ite {p : Prop} [Decidable p] {m' : Fn α} (hm : ConnectsNothing m) (hm' : ConnectsNothing m') :
    ConnectsNothing (if p then m else m') := by
  split
  · exact hm
  · exact hm'

theorem connectsNothing_readReg (r : Reg) : ConnectsNothing (readReg hw r) := (quietly_readReg r).connectsNothing

theorem connectsNothing_ataDeviceProbe (device : Fin 2) : ConnectsNothing (ataDeviceProbe hw device) := by
  refine (connectsNothing_setDevinfo _ _).bind fun _ => (connectsNothing_readReg _).bind fun _ => ?_
  refine .ite (connectsNothing_pure ()) ?_
  refine (connectsNothing_readReg _).bind fun _ => (connectsNothing_readReg _).bind fun _ => ?_
  refine (connectsNothing_readReg _).bind fun _ => (connectsNothing_readReg _).bind fun _ => ?_
  refine (connectsNothing_readReg _).bind fun _ => .ite (connectsNothing_pure ()) ?_
  refine (connectsNothing_setDevinfo _ _).bind fun _ => ?_
  refine (quietly_writeRegs (by decide)).connectsNothing.bind fun _ => ?_
  refine (connectsNothing_readReg _).bind fun _ => (connectsNothing_readReg _).bind fun _ => ?_
  exact .ite (connectsNothing_setDevinfo _ _) (connectsNothing_pure ())

theorem quietly_sceAtaSoftReset : Quietly (sceAtaSoftReset hw) := by
  refine (quietly_readReg _).bind fun _ => .ite (quietly_pure _) ?_
  refine (quietly_writeRegs (by decide)).bind fun _ => (quietly_writeRegs (by decide)).bind fun _ => ?_
  exact quietly_waitBusyLoop _ _

end ConnectsNothing

/-- What one device was taken through: either nothing became of it, or it is connected. -/
def Outcome (hw : Machine) (i : Fin 2) (s : State) (es : List Event) : Prop :=
  (∀ e ∈ es, e.Inner) ∨ Connected hw i s es

/-- What `ata_init_devices` does when it returns `res`. -/
def Initialized (hw : Machine) (res : Int) (s s' : State) : Prop :=
  s'.devinfoInit = s.devinfoInit ∧ ∃ es, s'.log = s.log ++ es ∧ (res ≠ 0 → ∀ e ∈ es, e.Inner) ∧
    (res = 0 → ∃ es₀ es₁ es₂, es = es₀ ++ es₁ ++ es₂ ∧ (∀ e ∈ es₀, e.Inner) ∧
      Outcome hw 0 s' es₁ ∧ Outcome hw 1 s' es₂)

/-- What a call of `sceAtaInit` does before it returns `r`. -/
def Called (hw : Machine) (r : Option (Fin 2)) (s s' : State) : Prop :=
  if s.devinfoInit then s' = s ∧ r.isSome
  else ∃ es, s'.log = s.log ++ .busReset :: es ∧
    (r = none → (∀ e ∈ es, e.Inner) ∧ s'.devinfoInit = false ∧ s'.devinfo = fun _ => Devinfo.zero) ∧
    (r ≠ none → s'.devinfoInit = true ∧ ∃ es₀ es₁ es₂, es = es₀ ++ es₁ ++ es₂ ∧ (∀ e ∈ es₀, e.Inner) ∧
      Outcome hw 0 s' es₁ ∧ Outcome hw 1 s' es₂)

section Init

variable {hw : Machine} {i : Fin 2} {s s' : State} {E : Int → State → Prop} {es : List Event}

theorem Outcome.congr (h : Outcome hw i s es) (hdevinfo : s'.devinfo i = s.devinfo i) (hbd : s'.bd i = s.bd i) :
    Outcome hw i s' es := by
  refine h.imp_right fun hconnected => ?_
  unfold Connected at hconnected ⊢
  rwa [hdevinfo, hbd]

theorem Outcome.inner (h : Outcome hw i s es) (hunusable : ¬(s.devinfo i).Usable) : ∀ e ∈ es, e.Inner :=
  h.resolve_right fun hconnected => hunusable hconnected.1

theorem State.Unconnected.initialized (h : s.Unconnected s') {res : Int} (hres : res ≠ 0) :
    Initialized hw res s s' := by
  obtain ⟨hinit, es, hinner, hlog⟩ := h
  exact ⟨hinit, es, hlog, fun _ => hinner, fun hzero => absurd hzero hres⟩

theorem ataInitDevices_ensures : (ataInitDevices hw).Ensures s (fun r s' => Initialized hw r s s') E := by
  refine (quietly_sceAtaSoftReset.connectsNothing _ _).bind fun res s₁ h₁ => ?_
  by_cases hres : res ≠ 0
  · rw [if_pos hres]
    exact Prog.ensures_pure (h₁.initialized hres)
  rw [if_neg hres]
  refine (connectsNothing_ataDeviceProbe 0 _ _).bind fun _ s₂ h₂ => ?_
  have h₂ := h₁.trans h₂
  apply Prog.Ensures.get
  by_cases hexisting : (s₂.devinfo 0).existing = false
  · rw [if_pos hexisting]
    refine (connectsNothing_setDevinfo 1 _ _ _).bind fun _ s₃ h₃ => ?_
    exact Prog.ensures_pure ((h₂.trans h₃).initialized (by decide))
  rw [if_neg hexisting]
  refine ((quietly_ataDeviceSelect 1).connectsNothing _ _).bind fun res s₃ h₃ => ?_
  have h₃ := h₂.trans h₃
  by_cases hres : res ≠ 0
  · rw [if_pos hres]
    exact Prog.ensures_pure (h₃.initialized hres)
  rw [if_neg hres]
  refine (connectsNothing_readReg _ _ _).bind fun control s₄ h₄ => ?_
  have hprobe : ConnectsNothing (if control &&& 0xff ≠ 0 then ataDeviceProbe hw 1
      else modify fun s => s.setDevinfo 1 fun d => { d with existing := false }) :=
    .ite (connectsNothing_ataDeviceProbe 1) (connectsNothing_setDevinfo _ _)
  refine (hprobe _ _).bind fun _ s₅ h₅ => ?_
  refine ((quietly_doing (e := .timing) trivial).connectsNothing _ _).bind fun _ s₆ h₆ => ?_
  obtain ⟨hinit, es₀, hinner, hlog⟩ := ((h₃.trans h₄).trans h₅).trans h₆
  refine ataInitDevice_ensures.bind ?_
  rintro _ s₇ ⟨hinit₇, -, es₁, hlog₇, hvisit₁⟩
  refine ataInitDevice_ensures.bind ?_
  rintro _ s₈ ⟨hinit₈, hkept, es₂, hlog₈, hvisit₂⟩
  refine Prog.ensures_pure ⟨hinit₈.trans (hinit₇.trans hinit), es₀ ++ es₁ ++ es₂, ?_, nofun, fun _ => ?_⟩
  · rw [hlog₈, hlog₇, hlog, List.append_assoc, List.append_assoc, List.append_assoc]
  · obtain ⟨hdevinfo, hbd⟩ := hkept 0 (by decide)
    exact ⟨es₀, es₁, es₂, rfl, hinner, Outcome.congr hvisit₁ hdevinfo hbd, hvisit₂⟩

/-- The way out with NULL. -/
theorem initFailed_ensures {s₀ : State} (hinit₀ : s₀.devinfoInit = false) (hinit : s.devinfoInit = false)
    (hinner : ∀ e ∈ es, e.Inner) (hlog : s.log = s₀.log ++ .busReset :: es) :
    initFailed.Ensures s (fun r s' => Called hw r s₀ s') E := by
  refine Prog.continues_modify.ensures_bind (Prog.ensures_pure ?_)
  unfold Called
  rw [if_neg (hinit₀ ▸ nofun)]
  exact ⟨es, hlog, fun _ => ⟨hinner, hinit, rfl⟩, fun h => absurd rfl h⟩

theorem sceAtaInit_ensures (device : Fin 2) :
    (sceAtaInit hw device).Ensures s (fun r s' => Called hw r s s') E := by
  apply Prog.Ensures.get
  cases hinit : s.devinfoInit with
  | true =>
      rw [if_pos rfl]
      refine Prog.ensures_pure ?_
      unfold Called
      rw [if_pos hinit]
      exact ⟨rfl, rfl⟩
  | false =>
      rw [if_neg nofun]
      refine Prog.continues_modify.ensures_bind (Prog.Ensures.bind (R := fun _ s₁ => s₁.devinfoInit = false ∧
        ∃ es, (∀ e ∈ es, e.Inner) ∧ s₁.log = s.log ++ .busReset :: es) ?_ ?_)
      · refine Prog.continues_modify.ensures_bind ((quietly_waitBusyLoop _ _ _ _).mono ?_)
        rintro _ _ ⟨es, hplain, rfl⟩
        exact ⟨hinit, es, fun e he => (hplain e he).inner, List.append_assoc s.log [.busReset] es⟩
      rintro res s₁ ⟨hinit₁, es, hinner, hlog⟩
      by_cases hres : res ≠ 0
      · rw [if_pos hres]
        exact initFailed_ensures hinit hinit₁ hinner hlog
      rw [if_neg hres]
      refine ataInitDevices_ensures.bind ?_
      rintro res s₂ ⟨hinit₂, es', hlog₂, hfailed, hdone⟩
      have hinit₂ := hinit₂.trans hinit₁
      have hlog₂ : s₂.log = s.log ++ .busReset :: (es ++ es') := by
        rw [hlog₂, hlog, List.append_assoc, List.cons_append]
      by_cases hres : res ≠ 0
      · rw [if_pos hres]
        exact initFailed_ensures hinit hinit₂ (inner_append hinner (hfailed hres)) hlog₂
      rw [if_neg hres]
      obtain ⟨es₀, es₁, es₂, rfl, hinner₀, hout₁, hout₂⟩ := hdone (Decidable.of_not_not hres)
      apply Prog.Ensures.get
      by_cases husable : ¬(s₂.devinfo 0).Usable ∧ ¬(s₂.devinfo 1).Usable
      · rw [if_pos husable]
        refine initFailed_ensures hinit hinit₂ (inner_append hinner ?_) hlog₂
        exact inner_append (inner_append hinner₀ (hout₁.inner husable.1)) (hout₂.inner husable.2)
      · rw [if_neg husable]
        refine Prog.continues_modify.ensures_bind (Prog.ensures_pure ?_)
        unfold Called
        rw [if_neg (hinit ▸ nofun)]
        refine ⟨es ++ (es₀ ++ es₁ ++ es₂), hlog₂, nofun, fun _ => ⟨rfl, es ++ es₀, es₁, es₂, ?_, ?_, hout₁, hout₂⟩⟩
        · rw [List.append_assoc, List.append_assoc, List.append_assoc]
        · exact inner_append hinner hinner₀

end Init

/-! ## Runs -/

/-- A call of `sceAtaInit`, which never exits early. -/
def callInit (hw : Machine) (device : Fin 2) (s : State) : Option (Fin 2) × State :=
  match (sceAtaInit hw device).run.run s with
  | (.ok r, s') => (r, s')
  | (.error _, s') => (none, s')

/-- What the modules that use ATA disks call, and the interrupt of a new card. -/
inductive Call where
  | init (device : Fin 2)
  | probe
  | newCard

def Call.run (hw : Machine) : Call → State → State
  | .init device, s => (callInit hw device s).2
  | .probe, s => ((atadProbe hw).run.run s).2
  | .newCard, s => s.clearDevinfo

/-- When the module has been loaded. -/
def State.Fresh (s : State) : Prop := s.devinfoInit = false ∧ ∀ i, .connect i ∉ s.log

def probing (hw : Machine) : System State Call where
  init := State.Fresh
  step s call s' := s' = call.run hw s

/-- No disk is connected before the latch is set. -/
structure State.Latched (s : State) : Prop where
  once : ∀ i, s.log.count (.connect i) ≤ 1
  unset : s.devinfoInit = false → ∀ i, .connect i ∉ s.log

section Runs

variable {hw : Machine} {device i : Fin 2} {s s' : State} {es : List Event} {r : Option (Fin 2)}

theorem callInit_called (hw : Machine) (device : Fin 2) (s : State) :
    Called hw (callInit hw device s).1 s (callInit hw device s).2 := by
  have hensures := @sceAtaInit_ensures hw s (fun _ _ => False) device
  unfold Prog.Ensures at hensures
  unfold callInit
  split at hensures
  · rename_i r s' hrun
    rw [hrun]
    exact hensures
  · exact absurd hensures id

theorem atadProbe_run (hw : Machine) (s : State) : (atadProbe hw).run.run s =
    (.ok (if (callInit hw 0 s).1.isSome then 0 else -1), (callInit hw 0 s).2) := by
  have hensures := @sceAtaInit_ensures hw s (fun _ _ => False) 0
  unfold Prog.Ensures at hensures
  unfold callInit
  split at hensures
  · rename_i r s' hrun
    rw [hrun]
    exact Prog.Continues.run_bind hrun
  · exact absurd hensures id

/-- Nothing that an earlier call left in `atad_devinfo` counts. -/
theorem callInit_clearDevinfo (hw : Machine) (device : Fin 2) (h : s.devinfoInit = false) :
    callInit hw device s = callInit hw device s.clearDevinfo := by
  unfold callInit sceAtaInit
  rw [Prog.continues_get.run_bind, Prog.continues_get.run_bind, if_neg (h ▸ nofun),
    if_neg (show ¬s.clearDevinfo.devinfoInit = true from h ▸ nofun), Prog.continues_modify.run_bind,
    Prog.continues_modify.run_bind]
  rfl

theorem not_mem_of_inner (h : ∀ e ∈ es, e.Inner) (i : Fin 2) : .connect i ∉ es := fun hmem => h _ hmem

theorem Outcome.count (h : Outcome hw i s es) (j : Fin 2) : es.count (.connect j) ≤ if j = i then 1 else 0 := by
  obtain hinner | ⟨-, -, es', hinner, rfl, -⟩ := h
  · rw [List.count_eq_zero_of_not_mem (not_mem_of_inner hinner j)]
    exact Nat.zero_le _
  · rw [List.count_append, List.count_eq_zero_of_not_mem (not_mem_of_inner hinner j), Nat.zero_add]
    by_cases hj : j = i
    · rw [if_pos hj]
      exact List.count_le_length
    · rw [if_neg hj, List.count_cons_of_ne fun h => hj (Event.connect.inj h).symm]
      rfl

theorem Called.latched (h : Called hw r s s') (hs : s.Latched) : s'.Latched := by
  unfold Called at h
  split at h
  · rw [h.1]
    exact hs
  rename_i hinit
  have hunset := hs.unset (Bool.of_not_eq_true hinit)
  obtain ⟨es, hlog, hnull, hdone⟩ := h
  have hold (i : Fin 2) : (s.log ++ [Event.busReset]).count (Event.connect i) = 0 := by
    refine List.count_eq_zero_of_not_mem fun hmem => ?_
    exact (List.mem_append.mp hmem).elim (hunset i) (fun h => Event.noConfusion (List.mem_singleton.mp h))
  have hlog : s'.log = s.log ++ [.busReset] ++ es := by
    rw [hlog, List.append_assoc]
    rfl
  cases r with
  | none =>
      obtain ⟨hinner, -, -⟩ := hnull rfl
      have hzero (i : Fin 2) : s'.log.count (.connect i) = 0 := by
        rw [hlog, List.count_append, hold, List.count_eq_zero_of_not_mem (not_mem_of_inner hinner i)]
      exact ⟨fun i => (hzero i).le.trans (Nat.zero_le 1), fun _ i => List.count_eq_zero.mp (hzero i)⟩
  | some device =>
      obtain ⟨hset, es₀, es₁, es₂, rfl, hinner, hout₁, hout₂⟩ := hdone nofun
      refine ⟨fun i => ?_, fun hclear => absurd (hset.symm.trans hclear) nofun⟩
      have hcount₁ := hout₁.count i
      have hcount₂ := hout₂.count i
      rw [hlog, List.count_append, hold, List.count_append, List.count_append,
        List.count_eq_zero_of_not_mem (not_mem_of_inner hinner i)]
      obtain rfl | rfl : i = 0 ∨ i = 1 := by omega
      · rw [if_pos rfl] at hcount₁
        rw [if_neg (by decide)] at hcount₂
        omega
      · rw [if_neg (by decide)] at hcount₁
        rw [if_pos rfl] at hcount₂
        omega

theorem latched_invariant (hw : Machine) : (probing hw).Invariant (fun _ _ => True) State.Latched where
  init s h := by
    refine ⟨fun i => ?_, fun _ => h.2⟩
    rw [List.count_eq_zero_of_not_mem (h.2 i)]
    exact Nat.zero_le 1
  step s call s' _ hs _ hstep := by
    subst hstep
    cases call with
    | init device => exact (callInit_called hw device s).latched hs
    | probe =>
        show ((atadProbe hw).run.run s).2.Latched
        rw [atadProbe_run]
        exact (callInit_called hw 0 s).latched hs
    | newCard => exact ⟨hs.once, hs.unset⟩

/-- Each disk that was connected had answered before. -/
def Sourced (s : State) (es : List Event) : Prop :=
  ∀ i before after, es = before ++ .connect i :: after → Answered i before ∧ (s.devinfo i).Usable

theorem Answered.after (h : Answered i es) (es' : List Event) : Answered i (es' ++ es) := by
  obtain ⟨es₁, es₂, es₃, cmd, rfl, hadds⟩ := h
  exact ⟨es' ++ es₁, es₂, es₃, cmd, by simp only [List.append_assoc], hadds⟩

theorem Sourced.append {es' : List Event} (h : Sourced s es) (h' : Sourced s es') : Sourced s (es ++ es') := by
  intro i before after heq
  obtain ⟨mid, rfl, hmid⟩ | ⟨mid, hmid, hafter⟩ := List.append_eq_append_iff.mp heq
  · obtain ⟨hanswered, husable⟩ := h' i mid after hmid
    exact ⟨hanswered.after es, husable⟩
  · cases mid with
    | nil =>
        obtain ⟨hanswered, husable⟩ := h' i [] after hafter.symm
        rw [List.append_nil] at hmid
        have hbefore := hanswered.after before
        rw [List.append_nil] at hbefore
        exact ⟨hbefore, husable⟩
    | cons e mid =>
        obtain ⟨rfl, rfl⟩ := List.cons.inj hafter
        exact h i before mid hmid

theorem sourced_of_not_mem (h : ∀ i, .connect i ∉ es) : Sourced s es :=
  fun i before _ heq => absurd (heq ▸ List.mem_append_right before List.mem_cons_self) (h i)

theorem Outcome.sourced (h : Outcome hw i s es) : Sourced s es := by
  obtain hinner | ⟨husable, -, es', hinner, rfl, hanswered⟩ := h
  · exact sourced_of_not_mem (not_mem_of_inner hinner)
  intro j before after heq
  -- a connection is the last event
  obtain ⟨mid, rfl, hmid⟩ | ⟨mid, rfl, hafter⟩ := List.append_eq_append_iff.mp heq
  · cases mid with
    | nil =>
        obtain ⟨hj, -⟩ := List.cons.inj hmid
        obtain rfl := Event.connect.inj hj
        rw [List.append_nil]
        exact ⟨hanswered, husable⟩
    | cons e mid => exact absurd (List.cons.inj hmid).2.symm (List.append_ne_nil_of_right_ne_nil _ (List.cons_ne_nil _ _))
  · cases mid with
    | nil =>
        obtain ⟨hj, -⟩ := List.cons.inj hafter
        obtain rfl := Event.connect.inj hj
        rw [List.append_nil] at hanswered
        exact ⟨hanswered, husable⟩
    | cons e mid =>
        obtain ⟨rfl, -⟩ := List.cons.inj hafter
        exact absurd (List.mem_append_right before List.mem_cons_self) (not_mem_of_inner hinner j)

/-- What a call that returns `r` has added to the log. -/
structure Sound (r : Option (Fin 2)) (s s' : State) (es : List Event) : Prop where
  log : s'.log = s.log ++ es
  answered : Sourced s' es
  null : r = none → (∀ i, .connect i ∉ es) ∧ s'.devinfoInit = false ∧ s'.devinfo = fun _ => Devinfo.zero
  anew : s.devinfoInit = false → ∃ es', es = .busReset :: es'

theorem Called.sound (h : Called hw r s s') : ∃ es, Sound r s s' es := by
  unfold Called at h
  split at h
  · rename_i hinit
    refine ⟨[], ?_, sourced_of_not_mem fun _ => List.not_mem_nil, fun hr => ?_, fun h => absurd (hinit.symm.trans h) nofun⟩
    · rw [h.1, List.append_nil]
    · rw [hr] at h
      exact absurd h.2 nofun
  · obtain ⟨es, hlog, hnull, hdone⟩ := h
    have hreset : Sourced s' [.busReset] :=
      sourced_of_not_mem fun i hmem => Event.noConfusion (List.mem_singleton.mp hmem)
    refine ⟨.busReset :: es, hlog, ?_, fun hr => ?_, fun _ => ⟨es, rfl⟩⟩
    · refine hreset.append ?_
      cases r with
      | none => exact sourced_of_not_mem (not_mem_of_inner (hnull rfl).1)
      | some device =>
          obtain ⟨-, es₀, es₁, es₂, rfl, hinner, hout₁, hout₂⟩ := hdone nofun
          exact ((sourced_of_not_mem (not_mem_of_inner hinner)).append hout₁.sourced).append hout₂.sourced
    · obtain ⟨hinner, hunset, hzero⟩ := hnull hr
      refine ⟨fun i hmem => ?_, hunset, hzero⟩
      exact (List.mem_cons.mp hmem).elim Event.noConfusion (not_mem_of_inner hinner i)

end Runs

/-- In every state that calls lead to, each disk has been connected at most once, whatever the
hardware has answered, and a further call is sound. -/
theorem ata_connects_once (hw : Machine) (s : State) (h : (probing hw).Reachable (fun _ _ => True) s) :
    (∀ i, s.log.count (.connect i) ≤ 1) ∧
      (∀ device, ∃ es, Sound (callInit hw device s).1 s (callInit hw device s).2 es) ∧
      (s.devinfoInit = false → ∀ device, callInit hw device s = callInit hw device s.clearDevinfo) ∧
      (atadProbe hw).run.run s = (.ok (if (callInit hw 0 s).1.isSome then 0 else -1), (callInit hw 0 s).2) :=
  ⟨((latched_invariant hw).holds h).once, fun device => (callInit_called hw device s).sound,
    fun hunset device => callInit_clearDevinfo hw device hunset, atadProbe_run hw s⟩

section Machines

/-- One disk, whose registers hold its signature until they are written. -/
def singleDisk : Machine where
  dvrp := false
  gamestar := false
  ataParam := 0
  reg es r :=
    match r with
    | .nsector | .sector => 1
    | .lcyl => if .write .lcyl 0x55 ∈ es then 0x55 else 0
    | .hcyl => if .write .hcyl 0xaa ∈ es then 0xaa else 0
    | .select => if .write .select 0x10 ∈ es then 0x10 else 0
    | _ => 0x50
  setAlarm _ := 0
  wait _ := 0
  data _ _ := 0

def loaded : State where
  devinfo _ := Devinfo.zero
  cmd := ⟨0, 0, 0, false⟩
  param _ := 0
  bd _ := ⟨0, 0⟩
  devinfoInit := false
  log := []

/-- After a call that has connected the disk. -/
theorem ata_connects_once_single :
    (callInit singleDisk 0 loaded).2.log.count (.connect 0) = 1 ∧
      ∃ es, Sound (callInit singleDisk 1 (callInit singleDisk 0 loaded).2).1 (callInit singleDisk 0 loaded).2
        (callInit singleDisk 1 (callInit singleDisk 0 loaded).2).2 es :=
  have hloaded : (probing singleDisk).Reachable (fun _ _ => True) loaded := .init ⟨rfl, fun _ => List.not_mem_nil⟩
  have hreach : (probing singleDisk).Reachable (fun _ _ => True) (callInit singleDisk 0 loaded).2 :=
    hloaded.next (a := .init 0) trivial rfl
  ⟨by decide +kernel, (ata_connects_once singleDisk _ hreach).2.1 1⟩

end Machines

end BdmAssault.Ata
