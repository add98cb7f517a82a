import Mathlib.Data.Fintype.Basic
import BdmAssault.Lib.Transition
import BdmAssault.Usb.BulkOnly

/-! # Mass-storage devices

The two threads that share `g_mass_device` and `g_scsi_bd`: the USB stack's, which calls
the driver when a device comes or goes, and the driver's own, which sets a new device up.
Each call and each wait for an answer is one step, so the threads interleave there.
-/

namespace BdmAssault.Usb

open Lib

/-! ## Descriptors -/

structure EndpointDescriptor where
  bmAttributes : Nat
  bEndpointAddress : Nat

structure InterfaceDescriptor where
  bInterfaceNumber : Nat
  bAlternateSetting : Nat
  bNumEndpoints : Nat
  bInterfaceClass : Nat
  bInterfaceSubClass : Nat
  bInterfaceProtocol : Nat

/-- A configuration, its first interface, and the endpoints in the order they are met. -/
structure ConfigDescriptor where
  bNumInterfaces : Nat
  wTotalLength : Nat
  bConfigurationValue : Nat
  intf : InterfaceDescriptor
  endpoint : Nat → EndpointDescriptor

/-- What `sceUsbdScanStaticDescriptor` finds; of the device descriptor only
`bNumConfigurations` is read. -/
structure Descriptors where
  device : Option Nat
  config : Option ConfigDescriptor

/-! ## State -/

abbrev numDevices : Nat := 2

scoped instance (priority := high) : NeZero numDevices := ⟨by decide⟩

/-- `mass_dev`, with the bits of `status` that tell how far its set-up is. -/
structure MassDev where
  controlEp : Int
  bulkEpI : Int
  bulkEpO : Int
  devId : Int
  configId : Nat
  conn : Bool
  conf : Bool
  interfaceNumber : Nat
  interfaceAlt : Nat
  ioSema : Int

/-- One of `g_scsi_bd`. Its `priv` is the interface of a slot of `g_mass_device`, and
`connected` says whether BDM knows the device. -/
structure ScsiBd where
  priv : Option (Fin numDevices)
  connected : Bool
  sectorSize : UInt32
  sectorCount : UInt64

inductive Command where
  | getMaxLun
  | inquiry
  | testUnitReady
  | requestSense
  | startStopUnit
  | readCapacity
  | readCapacity16
deriving DecidableEq

/-- Where `usb_mass_update` stands, with the slots of `new_devs` that are still to come. -/
inductive Phase where
  | idle
  | configuring (k : Fin numDevices) (rest : List (Fin numDevices))
  | interfacing (k : Fin numDevices) (rest : List (Fin numDevices))
  | claiming (k : Fin numDevices) (rest : List (Fin numDevices))
  | warmup (k i : Fin numDevices) (cmd : Command) (rest : List (Fin numDevices))
  | connecting (k i : Fin numDevices) (rest : List (Fin numDevices))
deriving DecidableEq

/-- `pipes` and `semas` are those that the driver opened and has not closed, each with the
device it was opened for; `fault` is set by a use of an interface that is not there. -/
structure MassState where
  dev : Fin numDevices → MassDev
  pipes : List (Int × Int)
  semas : List (Int × Int)
  updateSema : Bool
  thread : Phase
  bd : Fin numDevices → ScsiBd
  fault : Bool

/-! ## Connecting and disconnecting -/

def usbMassFindDevice (dev : Fin numDevices → MassDev) (d : Int) (create : Bool) :
    Option (Fin numDevices) :=
  (List.finRange numDevices).find? fun k => (dev k).devId = d || create && (dev k).devId = -1

/-- The checks of `usb_mass_probe` on the descriptors: a mass-storage interface with the
bulk-only transport and two endpoints at least. -/
def acceptable (desc : Descriptors) : Bool :=
  match desc.device, desc.config with
  | some bNumConfigurations, some config =>
      decide (1 ≤ bNumConfigurations) &&
      decide (1 ≤ config.bNumInterfaces ∧ 9 + 9 ≤ config.wTotalLength) &&
      decide (config.intf.bInterfaceClass = 0x08 ∧
        (config.intf.bInterfaceSubClass = 0x06 ∨ config.intf.bInterfaceSubClass = 0x05) ∧
        config.intf.bInterfaceProtocol = 0x50 ∧ 2 ≤ config.intf.bNumEndpoints)
  | _, _ => false

def usbMassProbe (d : Int) (desc : Descriptors) (s : MassState) : Bool :=
  if (usbMassFindDevice s.dev d false).any fun k => (s.dev k).conn then false else acceptable desc

def openPipe (p d : Int) (pipes : List (Int × Int)) : List (Int × Int) :=
  if 0 ≤ p then (p, d) :: pipes else pipes

def closePipe (p : Int) (pipes : List (Int × Int)) : List (Int × Int) :=
  if 0 ≤ p then pipes.filter fun e => e.1 ≠ p else pipes

/-- `answer` is the result of opening the pipe. -/
def usbBulkProbeEndpoint (d : Int) (endpoint : EndpointDescriptor) (answer : Int)
    (r : MassDev × List (Int × Int)) : MassDev × List (Int × Int) :=
  if endpoint.bmAttributes = 2 then
    if endpoint.bEndpointAddress &&& 0x80 = 0 ∧ r.1.bulkEpO < 0 then
      ({ r.1 with bulkEpO := answer }, openPipe answer d r.2)
    else if endpoint.bEndpointAddress &&& 0x80 = 0x80 ∧ r.1.bulkEpI < 0 then
      ({ r.1 with bulkEpI := answer }, openPipe answer d r.2)
    else r
  else r

/-- The results of opening the default pipe and those of the endpoints, and of creating the
semaphore. -/
structure Resources where
  control : Int
  pipe : Nat → Int
  sema : Int

/-- The first endpoint is looked at whatever their number is. -/
def probeEndpoints (d : Int) (config : ConfigDescriptor) (env : Resources)
    (r : MassDev × List (Int × Int)) : MassDev × List (Int × Int) :=
  (List.range (max 1 config.intf.bNumEndpoints)).foldl
    (fun r i => usbBulkProbeEndpoint d (config.endpoint i) (env.pipe i) r) r

/-- The slot before its endpoints are looked at. -/
def prepared (config : ConfigDescriptor) (env : Resources) (dev : MassDev) : MassDev :=
  { dev with
    conn := false, conf := false, bulkEpI := -1, bulkEpO := -1, controlEp := env.control,
    interfaceNumber := config.intf.bInterfaceNumber,
    interfaceAlt := config.intf.bAlternateSetting }

def usbMassRelease (k : Fin numDevices) (s : MassState) : MassState :=
  { s with
    pipes := closePipe (s.dev k).bulkEpO (closePipe (s.dev k).bulkEpI s.pipes)
    dev := Function.update s.dev k
      { s.dev k with bulkEpI := -1, bulkEpO := -1, controlEp := -1, conn := false, conf := false } }

/-- The part of `usb_mass_connect` that follows the endpoints. -/
def finishConnect (d : Int) (config : ConfigDescriptor) (env : Resources) (k : Fin numDevices)
    (r : MassDev × List (Int × Int)) (s : MassState) : Int × MassState :=
  if r.1.bulkEpI < 0 ∨ r.1.bulkEpO < 0 then
    (-1, usbMassRelease k { s with dev := Function.update s.dev k r.1, pipes := r.2 })
  else if env.sema < 0 then
    (-1, { s with dev := Function.update s.dev k { r.1 with ioSema := env.sema }, pipes := r.2 })
  else
    (0, { s with
      dev := Function.update s.dev k
        { r.1 with
          ioSema := env.sema, configId := config.bConfigurationValue, conn := true, devId := d }
      pipes := r.2
      semas := (env.sema, d) :: s.semas
      updateSema := true })

def usbMassConnect (d : Int) (config : ConfigDescriptor) (env : Resources) (s : MassState) :
    Int × MassState :=
  match usbMassFindDevice s.dev d true with
  | none => (1, s)
  | some k =>
      if (s.dev k).devId ≠ -1 then (1, s)
      else finishConnect d config env k
        (probeEndpoints d config env (prepared config env (s.dev k), s.pipes)) s

/-- `connectNewDevice` of the USB stack, which does not look at what `connect` returns. -/
def connectNewDevice (d : Int) (desc : Descriptors) (env : Resources) (s : MassState) : MassState :=
  match desc.config with
  | some config => if usbMassProbe d desc s then (usbMassConnect d config env s).2 else s
  | none => s

/-- `bdm_disconnect_bd` forgets a device it knows. -/
def scsiDisconnect (k : Fin numDevices) (s : MassState) : MassState :=
  match (List.finRange numDevices).find? fun i => (s.bd i).priv = some k with
  | none => s
  | some i =>
      { s with bd := Function.update s.bd i { s.bd i with connected := false, priv := none } }

/-- The slot is freed and its semaphore deleted. -/
def freeSlot (k : Fin numDevices) (s : MassState) : MassState :=
  { s with
    dev := Function.update s.dev k { s.dev k with devId := -1 }
    semas := s.semas.filter fun e => e.1 ≠ (s.dev k).ioSema }

def usbMassDisconnect (d : Int) (s : MassState) : MassState :=
  match usbMassFindDevice s.dev d false with
  | none => s
  | some k =>
      if (s.dev k).conn then scsiDisconnect k (freeSlot k (usbMassRelease k s)) else s

/-! ## The update thread -/

/-- The next device of `new_devs`. -/
def Phase.next : List (Fin numDevices) → Phase
  | [] => .idle
  | k :: rest => .configuring k rest

def newDevs (s : MassState) : List (Fin numDevices) :=
  (List.finRange numDevices).filter fun k =>
    (s.dev k).devId ≠ -1 && (s.dev k).conn && !(s.dev k).conf

def wake (s : MassState) : MassState := { s with updateSema := false, thread := .next (newDevs s) }

def setConfiguration (ret : Int) (k : Fin numDevices) (rest : List (Fin numDevices))
    (s : MassState) : MassState :=
  if ret ≠ usbRcOk then { usbMassRelease k s with thread := .next rest }
  else { s with thread := .interfacing k rest }

def usbRcStall : Int := 4

/-- After a stall the halt state of the pipes is cleared, whatever comes of that. -/
def setInterface (ret : Int) (k : Fin numDevices) (rest : List (Fin numDevices)) (s : MassState) :
    MassState :=
  if ret ≠ usbRcOk ∧ ret ≠ usbRcStall then { usbMassRelease k s with thread := .next rest }
  else
    { s with
      dev := Function.update s.dev k { s.dev k with conf := true }
      thread := .claiming k rest }

/-- `scsi_connect` takes the first free block device, and does nothing if there is none. -/
def claim (k : Fin numDevices) (rest : List (Fin numDevices)) (s : MassState) : MassState :=
  match (List.finRange numDevices).find? fun i => (s.bd i).priv = none with
  | none => { s with thread := .next rest }
  | some i =>
      { s with
        bd := Function.update s.bd i { s.bd i with priv := some k }
        thread := .warmup k i .getMaxLun rest }

structure SenseData where
  errorCode : UInt8
  senseKey : UInt8
  addSenseCode : UInt8
  addSenseQual : UInt8

/-- The result of a command and the buffer that it fills, if it does. -/
structure Answer where
  stat : Int
  sense : SenseData
  lastLba : UInt32
  lastLba16 : UInt64
  blockLength : UInt32

def SenseData.needsStart (sd : SenseData) : Bool :=
  (sd.errorCode = 0x70 && sd.senseKey ≠ 0) &&
    (sd.senseKey = 0x02 && sd.addSenseCode = 0x04 && sd.addSenseQual = 0x02)

inductive Outcome where
  | more (cmd : Command)
  | failed
  | ready

/-- What `scsi_warmup` makes of the answer to a command. -/
def scsiWarmup (ans : Answer) (bd : ScsiBd) : Command → Outcome × ScsiBd
  | .getMaxLun => (.more .inquiry, bd)
  | .inquiry => if ans.stat < 0 then (.failed, bd) else (.more .testUnitReady, bd)
  | .testUnitReady =>
      if ans.stat ≠ 0 then (.more .requestSense, bd) else (.more .readCapacity, bd)
  | .requestSense =>
      if ans.sense.needsStart then (.more .startStopUnit, bd) else (.more .testUnitReady, bd)
  | .startStopUnit => if ans.stat ≠ 0 then (.failed, bd) else (.more .testUnitReady, bd)
  | .readCapacity =>
      if ans.stat ≠ 0 then (.failed, bd)
      else if ans.lastLba = 0xffffffff then
        (.more .readCapacity16, { bd with sectorSize := ans.blockLength })
      else
        (.ready, { bd with
          sectorSize := ans.blockLength, sectorCount := ans.lastLba.toUInt64 + 1 })
  | .readCapacity16 =>
      if ans.stat ≠ 0 then (.ready, { bd with sectorCount := 0xffffffff + 1 })
      else
        (.ready, { bd with sectorSize := ans.blockLength, sectorCount := ans.lastLba16 + 1 })

/-- A command goes to the interface that `priv` points to, which has to be that of the
device being set up. -/
def command (ans : Answer) (k i : Fin numDevices) (cmd : Command) (rest : List (Fin numDevices))
    (s : MassState) : MassState :=
  { s with
    fault := s.fault || (s.bd i).priv ≠ some k
    bd := Function.update s.bd i
      (match (scsiWarmup ans (s.bd i) cmd).1 with
        | .failed => { (scsiWarmup ans (s.bd i) cmd).2 with priv := none }
        | _ => (scsiWarmup ans (s.bd i) cmd).2)
    thread := match (scsiWarmup ans (s.bd i) cmd).1 with
      | .more cmd => .warmup k i cmd rest
      | .failed => .next rest
      | .ready => .connecting k i rest }

def bdmConnectBd (i : Fin numDevices) (rest : List (Fin numDevices)) (s : MassState) : MassState :=
  { s with
    bd := Function.update s.bd i { s.bd i with connected := true }
    thread := .next rest }

/-! ## Runs -/

inductive Event where
  | plug (d : Int) (desc : Descriptors) (env : Resources)
  | unplug (d : Int)
  | wake
  | configured (ret : Int)
  | interfaced (ret : Int)
  | claim
  | command (ans : Answer)
  | connect

/-- Device ids are positive. The stack has no pipe with a negative id, so a command to a
slot without pipes fails. -/
inductive Step : MassState → Event → MassState → Prop where
  | plug {s : MassState} {d : Int} {desc : Descriptors} {env : Resources} (hd : 0 < d) :
      Step s (.plug d desc env) (connectNewDevice d desc env s)
  | unplug {s : MassState} {d : Int} (hd : 0 < d) : Step s (.unplug d) (usbMassDisconnect d s)
  | wake {s : MassState} (ht : s.thread = .idle) (hsema : s.updateSema = true) :
      Step s .wake (wake s)
  | configured {s : MassState} {ret : Int} {k : Fin numDevices} {rest : List (Fin numDevices)}
      (ht : s.thread = .configuring k rest) :
      Step s (.configured ret) (setConfiguration ret k rest s)
  | interfaced {s : MassState} {ret : Int} {k : Fin numDevices} {rest : List (Fin numDevices)}
      (ht : s.thread = .interfacing k rest) :
      Step s (.interfaced ret) (setInterface ret k rest s)
  | claim {s : MassState} {k : Fin numDevices} {rest : List (Fin numDevices)}
      (ht : s.thread = .claiming k rest) : Step s .claim (claim k rest s)
  | command {s : MassState} {ans : Answer} {k i : Fin numDevices} {cmd : Command}
      {rest : List (Fin numDevices)} (ht : s.thread = .warmup k i cmd rest)
      (hans : ∀ j, (s.bd i).priv = some j → (s.dev j).bulkEpO < 0 → cmd ≠ .getMaxLun →
        ans.stat = -eio) :
      Step s (.command ans) (command ans k i cmd rest s)
  | connect {s : MassState} {k i : Fin numDevices} {rest : List (Fin numDevices)}
      (ht : s.thread = .connecting k i rest) : Step s .connect (bdmConnectBd i rest s)

/-- After `usb_mass_init` and `scsi_init`. -/
structure Started (s : MassState) : Prop where
  dev : ∀ k, (s.dev k).devId = -1 ∧ (s.dev k).conn = false ∧ (s.dev k).conf = false
  pipes : s.pipes = []
  semas : s.semas = []
  thread : s.thread = .idle
  bd : ∀ i, (s.bd i).priv = none ∧ (s.bd i).connected = false
  fault : s.fault = false

def massStorage : System MassState Event := ⟨Started, Step⟩

end BdmAssault.Usb
