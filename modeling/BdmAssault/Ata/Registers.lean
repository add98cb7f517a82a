import BdmAssault.Lib.BigEndian

/-! # The registers of an ATA device

What the driver of `ps2atad.c` does to the hardware, as a list of events, and what a device
takes from it: the task file, the commands, and what became of them.
-/

namespace BdmAssault.Ata

open Lib

/-- The controller has two devices. -/
theorem two_devices_ne_zero : (2 : Nat) ≠ 0 := by decide

scoped instance (priority := high) neZeroTwo : @NeZero Nat Zero.ofOfNat0 2 := ⟨two_devices_ne_zero⟩

inductive Reg where
  | control
  | feature
  | nsector
  | sector
  | lcyl
  | hcyl
  | select
  | command
deriving DecidableEq

/-- `ata_cmd_state_t`. The buffer is an address. -/
structure CmdState where
  type : UInt8
  buf : UInt32
  blkcount : UInt32
  dir : Bool
deriving DecidableEq

/-- Accesses to the hardware, latest last. `wait` is a call of `sceAtaWaitResult`, and `setDir`
is `ata_set_dir`; `dmaOff` clears the DMA bit of the interface, `timing` sets a mode of it, and
`connect` is `bdm_connect_bd`. -/
inductive Event where
  | read (r : Reg)
  | write (r : Reg) (v : UInt8)
  | setAlarm
  | setDir (dir : Int)
  | dmaOff
  | wait (cmd : CmdState) (res : Int)
  | busReset
  | timing
  | connect (device : Fin 2)
deriving DecidableEq

/-! ## The device -/

/-- The last value of each register, and the one before it where the device keeps two. -/
structure TaskFile where
  nsector : UInt8 × UInt8
  sector : UInt8 × UInt8
  lcyl : UInt8 × UInt8
  hcyl : UInt8 × UInt8
  select : UInt8

def TaskFile.write (t : TaskFile) (v : UInt8) : Reg → TaskFile
  | .nsector => { t with nsector := (v, t.nsector.1) }
  | .sector => { t with sector := (v, t.sector.1) }
  | .lcyl => { t with lcyl := (v, t.lcyl.1) }
  | .hcyl => { t with hcyl := (v, t.hcyl.1) }
  | .select => { t with select := v }
  | .control | .feature | .command => t

/-- A command as the device takes it; `byLba` is that its address is a sector number. -/
structure Command where
  opcode : UInt8
  device : Fin 2
  byLba : Bool
  lba : Nat
  sectors : Nat
deriving DecidableEq

def opReadDma : UInt8 := 0xc8
def opWriteDma : UInt8 := 0xca
def opReadDmaExt : UInt8 := 0x25
def opWriteDmaExt : UInt8 := 0x35

/-- The bit of the device register that selects a device. -/
def selected (select : UInt8) : Fin 2 := if select &&& 0x10 = 0 then 0 else 1

/-- A length of 0 stands for the largest one of each form. -/
def TaskFile.command (t : TaskFile) (opcode : UInt8) : Command :=
  if opcode = opReadDmaExt ∨ opcode = opWriteDmaExt then
    let sectors := bigEndian [t.nsector.2, t.nsector.1]
    ⟨opcode, selected t.select, t.select &&& 0x40 ≠ 0,
      bigEndian [t.hcyl.2, t.lcyl.2, t.sector.2, t.hcyl.1, t.lcyl.1, t.sector.1],
      if sectors = 0 then 65536 else sectors⟩
  else
    let sectors := bigEndian [t.nsector.1]
    ⟨opcode, selected t.select, t.select &&& 0x40 ≠ 0,
      bigEndian [t.select &&& 0xf, t.hcyl.1, t.lcyl.1, t.sector.1],
      if sectors = 0 then 256 else sectors⟩

/-- A command that was waited for, with the state of the driver and the result. -/
structure Transfer where
  command : Command
  cmd : CmdState
  res : Int
deriving DecidableEq

structure Device where
  taskFile : TaskFile
  issued : Option Command
  transfers : List Transfer

def Device.event (d : Device) : Event → Device
  | .write .command v => { d with issued := some (d.taskFile.command v) }
  | .write r v => { d with taskFile := d.taskFile.write v r }
  | .wait cmd res =>
      match d.issued with
      | some c => { d with issued := none, transfers := d.transfers ++ [⟨c, cmd, res⟩] }
      | none => d
  | _ => d

def Device.run (d : Device) (es : List Event) : Device := es.foldl Device.event d

/-- Events that neither issue nor end a command. -/
def Event.Plain : Event → Prop
  | .write .command _ | .wait _ _ | .busReset | .connect _ => False
  | _ => True

section Device

variable {d : Device} {es es' : List Event}

theorem Device.run_append (d : Device) (es es' : List Event) : d.run (es ++ es') = (d.run es).run es' :=
  List.foldl_append

theorem Device.event_plain {e : Event} (he : e.Plain) :
    (d.event e).issued = d.issued ∧ (d.event e).transfers = d.transfers := by
  cases e with
  | write r v =>
      cases r with
      | command => exact absurd he id
      | _ => exact ⟨rfl, rfl⟩
  | wait cmd res => exact absurd he id
  | _ => exact ⟨rfl, rfl⟩

theorem Device.run_plain (h : ∀ e ∈ es, e.Plain) :
    (d.run es).issued = d.issued ∧ (d.run es).transfers = d.transfers := by
  induction es generalizing d with
  | nil => exact ⟨rfl, rfl⟩
  | cons e es ih =>
      obtain ⟨hissued, htransfers⟩ := @event_plain d e (h e List.mem_cons_self)
      obtain ⟨hissued', htransfers'⟩ := @ih (d.event e) fun e he => h e (List.mem_cons_of_mem _ he)
      exact ⟨hissued'.trans hissued, htransfers'.trans htransfers⟩

/-- What the events add to the transfers of any device. -/
def Adds (es : List Event) (ts : List Transfer) : Prop := ∀ d : Device, (d.run es).transfers = d.transfers ++ ts

theorem Adds.append {ts ts' : List Transfer} (h : Adds es ts) (h' : Adds es' ts') : Adds (es ++ es') (ts ++ ts') := by
  intro d
  rw [Device.run_append, h', h, List.append_assoc]

theorem adds_nil : Adds [] [] := fun d => (List.append_nil d.transfers).symm

/-- A command that is waited for. -/
theorem adds_command {ws : List Event} {c : Command} {cmd : CmdState} {res : Int}
    (hissued : ∀ d : Device, (d.run ws).issued = some c) (hkeeps : ∀ d : Device, (d.run ws).transfers = d.transfers)
    (h : ∀ e ∈ es, e.Plain) (h' : ∀ e ∈ es', e.Plain) :
    Adds (es ++ ws ++ es' ++ [.wait cmd res]) [⟨c, cmd, res⟩] := by
  intro d
  obtain ⟨hlast, htransfers⟩ := @Device.run_plain ((d.run es).run ws) es' h'
  rw [hissued] at hlast
  rw [hkeeps, (Device.run_plain h).2] at htransfers
  rw [Device.run_append, Device.run_append, Device.run_append]
  generalize ((d.run es).run ws).run es' = d' at hlast htransfers
  show (d'.event (.wait cmd res)).transfers = _
  rw [Device.event, hlast, htransfers]

theorem adds_plain (h : ∀ e ∈ es, e.Plain) : Adds es [] := by
  intro d
  rw [(Device.run_plain h).2, List.append_nil]

end Device

end BdmAssault.Ata
