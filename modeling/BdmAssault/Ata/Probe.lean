import BdmAssault.Ata.BdIo

/-! # Probing for ATA disks

`sceAtaInit` with `ata_init_devices` and `ata_device_probe` of `ps2atad.c`.
-/

namespace BdmAssault.Ata

open Lib

/-! ## Commands without a transfer -/

section Commands

variable (hw : Machine)

/-- `if (!(res = sceAtaExecCmd(...))) res = sceAtaWaitResult();` -/
def commandResult (a : CmdArgs) : Fn Int := do
  let res ← execCmd hw a
  if res = 0 then sceAtaWaitResult hw else return res

/-- A command to a device, with its block or without one. -/
def deviceArgs (device : Fin 2) (buf : UInt32) (feature nsector lcyl hcyl command : UInt16) : CmdArgs :=
  ⟨buf, 1, feature, nsector, 0, lcyl, hcyl, UInt16.ofNat device <<< 4, command⟩

def ataDeviceIdentify (device : Fin 2) : Fn Int :=
  commandResult hw (deviceArgs device hw.ataParam 0 0 0 0 ataCIdentifyDevice)

def ataDevicePktIdentify (device : Fin 2) : Fn Int :=
  commandResult hw (deviceArgs device hw.ataParam 0 0 0 0 ataCIdentifyPacketDevice)

def ataDeviceSmartEnable (device : Fin 2) : Fn Int :=
  commandResult hw (deviceArgs device 0 ataSSmartEnableOperations 0 0x4f 0xc2 ataCSmart)

def sceAtaIdle (device : Fin 2) (period : UInt16) : Fn Int :=
  commandResult hw (deviceArgs device 0 0 (period &&& 0xff) 0 0 ataCIdle)

def ataXferModeUdma : UInt16 := 0x40

/-- For Ultra DMA, whose timing is set when the device has accepted the mode. -/
def ataDeviceSetTransferMode (device : Fin 2) (mode : UInt16) : Fn Int := do
  let res ← commandResult hw (deviceArgs device 0 3 ((ataXferModeUdma ||| mode) &&& 0xff) 0 0 ataCSetFeatures)
  if res ≠ 0 then return res
  else
    doing .timing
    return 0

def sceAtaSoftReset : Fn Int := do
  let control ← readReg hw .control
  if control &&& 0x80 ≠ 0 then return ataResErrNotready
  else
    writeRegs [(.control, 6)]
    writeRegs [(.control, 2)]
    ataWaitBusy hw

def ataBusReset : Fn Int := do
  doing .busReset
  ataWaitBusy hw

end Commands

/-! ## Devices -/

def State.setDevinfo (s : State) (device : Fin 2) (f : Devinfo → Devinfo) : State :=
  { s with devinfo := Function.update s.devinfo device (f (s.devinfo device)) }

def State.setBd (s : State) (device : Fin 2) (f : AtaBd → AtaBd) : State :=
  { s with bd := Function.update s.bd device (f (s.bd device)) }

/-- `memset` of `atad_devinfo`. -/
def State.clearDevinfo (s : State) : State := { s with devinfo := fun _ => Devinfo.zero }

section Probe

variable (hw : Machine)

def ataDeviceProbe (device : Fin 2) : Fn Unit := do
  modify fun s => s.setDevinfo device fun d => { d with existing := false, hasPacket := 2 }
  let control ← readReg hw .control
  if control &&& 0x88 ≠ 0 then return ()
  else
    let nsector ← readReg hw .nsector
    let sector ← readReg hw .sector
    let lcyl ← readReg hw .lcyl
    let hcyl ← readReg hw .hcyl
    let _ ← readReg hw .select
    if nsector &&& 0xff ≠ 1 ∨ sector &&& 0xff ≠ 1 then return ()
    else
      modify fun s => s.setDevinfo device fun d => { d with
        existing := true
        hasPacket :=
          if lcyl &&& 0xff = 0 ∧ hcyl &&& 0xff = 0 then 0
          else if lcyl &&& 0xff = 0x14 ∧ hcyl &&& 0xff = 0xeb then 1 else d.hasPacket }
      writeRegs [(.lcyl, 0x55), (.hcyl, 0xaa)]
      let lcyl ← readReg hw .lcyl
      let hcyl ← readReg hw .hcyl
      Prog.when (lcyl &&& 0xff ≠ 0x55 ∨ hcyl &&& 0xff ≠ 0xaa)
        (modify fun s => s.setDevinfo device fun d => { d with existing := false })

/-- `ata_get_logical_sector_size_2`. -/
def ataGetLogicalSectorSize2 (param : Nat → UInt16) : UInt32 :=
  if param 106 &&& 0xc000 ≠ 0x4000 ∨ param 106 &&& 0x1000 = 0 then ataBdSectorSize
  else
    let words := (param 117).toUInt32 ||| (param 118).toUInt32 <<< 16
    if words < 256 ∨ 0x7fffffff < words then ataBdSectorSize
    else if words * 2 < ataBdSectorSize ∨ words * 2 % ataBdSectorSize ≠ 0 then ataBdSectorSize
    else words * 2

/-! The capacities in the answer to IDENTIFY DEVICE. -/

def totalSectorsNonlba48 (param : Nat → UInt16) : UInt32 := (param 61).toUInt32 <<< 16 ||| (param 60).toUInt32

def totalSectorsLba48 (param : Nat → UInt16) : UInt32 :=
  if param 102 ≠ 0 ∨ param 103 ≠ 0 then 0xffffffff else (param 101).toUInt32 <<< 16 ||| (param 100).toUInt32

def totalSectorsLba48Bdm (param : Nat → UInt16) : UInt64 :=
  let total := (param 100).toUInt64 ||| (param 101).toUInt64 <<< 16 ||| (param 102).toUInt64 <<< 32 |||
    (param 103).toUInt64 <<< 48
  if total = 0 ∨ 0x0000ffffffffffff < total then (totalSectorsNonlba48 param).toUInt64 else total

/-- The search from the fastest mode down, which leaves mode 4 when there is none. -/
def udmaMode (param : Nat → UInt16) : UInt16 :=
  let supported (j : UInt16) : Bool :=
    let bit : UInt16 := 1 <<< j
    param 88 &&& 0xff &&& bit ≠ 0
  ([4, 3, 2, 1, 0].find? supported).getD 4

/-- The section of `ata_init_devices` for a disk that was identified. -/
def connectDisk (i : Fin 2) (param : Nat → UInt16) : Fn Unit := do
  modify fun s => s.setDevinfo i fun d =>
    { d with lba48 := param 83 &&& 0x0400 ≠ 0, securityStatus := (param 128).toUInt32 }
  modify fun s => s.setBd i fun bd => { bd with sectorSize := ataGetLogicalSectorSize2 param }
  let _ ← ataDeviceSetTransferMode hw i (udmaMode param)
  let _ ← ataDeviceSmartEnable hw i
  let _ ← sceAtaIdle hw i 0xff
  modify fun s => s.setDevinfo i fun d =>
    if d.lba48 then
      { d with
        totalSectors := if hw.dvrp then totalSectorsNonlba48 param else totalSectorsLba48 param
        totalSectorsLba48 := totalSectorsLba48 param }
    else { d with totalSectors := totalSectorsNonlba48 param, totalSectorsLba48 := totalSectorsNonlba48 param }
  modify fun s => s.setBd i fun bd => { bd with
    sectorCount :=
      if (s.devinfo i).lba48 then totalSectorsLba48Bdm param else (totalSectorsNonlba48 param).toUInt64 }
  doing (.connect i)

/-- The command that identifies a device of its kind; it does not exist if it does not answer. -/
def sendIdentify (i : Fin 2) (hasPacket : Nat) : Fn Unit :=
  if hasPacket = 0 then do
    let res ← ataDeviceIdentify hw i
    modify fun s => s.setDevinfo i fun d => { d with existing := res = 0 }
  else if hasPacket = 1 then do
    let res ← ataDevicePktIdentify hw i
    modify fun s => s.setDevinfo i fun d => { d with existing := res = 0 }
  else return ()

/-- The body of the loop over the devices. -/
def ataInitDevice (i : Fin 2) : Fn Unit := do
  let s ← get
  if (s.devinfo i).existing = false then return ()
  else
    sendIdentify hw i (s.devinfo i).hasPacket
    let s ← get
    if (s.devinfo i).existing = false ∨ (s.devinfo i).hasPacket ≠ 0 then return ()
    else connectDisk hw i s.param

def ataInitDevices : Fn Int := do
  let res ← sceAtaSoftReset hw
  if res ≠ 0 then return res
  else
    ataDeviceProbe hw 0
    let s ← get
    if (s.devinfo 0).existing = false then
      modify fun s => s.setDevinfo 1 fun d => { d with existing := false }
      return ataResErrNodev
    else
      let res ← ataDeviceSelect hw 1
      if res ≠ 0 then return res
      else
        let control ← readReg hw .control
        (if control &&& 0xff ≠ 0 then ataDeviceProbe hw 1
          else modify fun s => s.setDevinfo 1 fun d => { d with existing := false })
        doing .timing
        ataInitDevice hw 0
        ataInitDevice hw 1
        return 0

/-- A disk that `sceAtaInit` counts. -/
def Devinfo.Usable (d : Devinfo) : Prop := d.existing = true ∧ d.hasPacket = 0

instance (d : Devinfo) : Decidable d.Usable := inferInstanceAs (Decidable (_ ∧ _))

def initFailed : Fn (Option (Fin 2)) := do
  modify State.clearDevinfo
  return none

/-- `none` is NULL; otherwise the entry of `atad_devinfo`. -/
def sceAtaInit (device : Fin 2) : Fn (Option (Fin 2)) := do
  let s ← get
  if s.devinfoInit then return some device
  else
    modify State.clearDevinfo
    let res ← ataBusReset hw
    if res ≠ 0 then initFailed
    else
      let res ← ataInitDevices hw
      if res ≠ 0 then initFailed
      else
        let s ← get
        if ¬(s.devinfo 0).Usable ∧ ¬(s.devinfo 1).Usable then initFailed
        else
          modify fun s => { s with devinfoInit := true }
          return some device

def atadProbe : Fn Int := do
  let devinfo ← sceAtaInit hw 0
  return if devinfo.isSome then 0 else -1

end Probe

end BdmAssault.Ata
