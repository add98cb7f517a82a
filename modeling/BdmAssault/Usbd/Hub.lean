import Mathlib.Logic.Function.Basic
import BdmAssault.Lib.Transition

/-! # Ports and devices

The device tree of the USB stack. Only one device may be without an address of its own, so
`memPool.delayResets` holds up the port resets of the others; it is taken and given back by
the callbacks of ports, timers and transfers.
-/

namespace BdmAssault.Usbd

open Lib

inductive DeviceStatus where
  | notConnected
  | connected
  | resetPending
  | resetDelayed
  | resetComplete
  | ready
deriving DecidableEq

/-- What the timer of a device will call. -/
inductive TimerProc where
  | resetDevice
  | setFuncAddress
  | peekDeviceDescriptor
deriving DecidableEq

/-- What the request of a device on its default pipe is for. -/
inductive IoProc where
  | setAddress
  | deviceDescriptor
  | configDescriptor
deriving DecidableEq

/-- `descEnd` is the offset of `staticDeviceDescEndPtr`, and `controlEp` says whether the
default pipe is open. -/
structure Device where
  deviceStatus : DeviceStatus
  resetFlag : Bool
  timer : Option TimerProc
  ioRequest : Option IoProc
  controlEp : Bool
  functionDelay : Nat
  fetchDescriptorCounter : Nat
  descEnd : Nat
  children : List Nat

structure UsbConfig where
  maxDevices : Nat
  maxStaticDescSize : Nat

structure DeviceTree where
  dev : Nat → Device
  rootPorts : List Nat
  delayResets : Bool

def DeviceTree.modify (d : Nat) (f : Device → Device) (s : DeviceTree) : DeviceTree :=
  { s with dev := Function.update s.dev d (f (s.dev d)) }

def DeviceTree.setDelayResets (b : Bool) (s : DeviceTree) : DeviceTree := { s with delayResets := b }

/-- A timer that runs is not set again. -/
def addTimerCallback (d : Nat) (proc : TimerProc) (s : DeviceTree) : DeviceTree :=
  s.modify d fun dev => { dev with timer := some (dev.timer.getD proc) }

/-- A request that is busy is not used again. -/
def doControlTransfer (d : Nat) (proc : IoProc) (s : DeviceTree) : DeviceTree :=
  s.modify d fun dev => { dev with ioRequest := some (dev.ioRequest.getD proc) }

/-! ## Resets -/

def Device.delayReset (dev : Device) : Device := { dev with deviceStatus := .resetDelayed }

/-- The reset itself is a command to the port, which answers with a status change. -/
def Device.startReset (dev : Device) : Device :=
  { dev with deviceStatus := .resetPending, resetFlag := true }

def hubResetDevice (d : Nat) (s : DeviceTree) : DeviceTree :=
  if s.delayResets then s.modify d Device.delayReset
  else (s.modify d Device.startReset).setDelayResets true

/-- The device that `checkDelayedResetsTree` resets. The depth of the tree is less than the
number of devices. -/
def delayedIn (s : DeviceTree) : Nat → List Nat → Option Nat
  | 0, _ => none
  | depth + 1, ports => ports.findSome? fun d =>
      if (s.dev d).deviceStatus = .resetDelayed then some d
      else if (s.dev d).deviceStatus = .ready then delayedIn s depth (s.dev d).children
      else none

/-- The first half of `checkDelayedResets`. -/
def releaseReset (d : Nat) (s : DeviceTree) : DeviceTree :=
  (s.modify d fun dev => { dev with resetFlag := false }).setDelayResets false

variable (cfg : UsbConfig)

def checkDelayedResets (d : Nat) (s : DeviceTree) : DeviceTree :=
  match delayedIn (releaseReset d s) cfg.maxDevices (releaseReset d s).rootPorts with
  | some e => hubResetDevice e (releaseReset d s)
  | none => releaseReset d s

def killDevice (d : Nat) (s : DeviceTree) : DeviceTree :=
  hubResetDevice d (checkDelayedResets cfg d (s.modify d fun dev => { dev with controlEp := false }))

/-- Without its pipes a device gets no more answers. -/
def Device.flushed (dev : Device) : Device :=
  { dev with deviceStatus := .notConnected, timer := none, ioRequest := none, controlEp := false }

def unlinkChild (d c : Nat) (s : DeviceTree) : DeviceTree :=
  s.modify d fun dev => { dev with children := dev.children.erase c }

/-- The end of `flushPort`. -/
def flushReset (d : Nat) (s : DeviceTree) : DeviceTree :=
  if (s.dev d).resetFlag then checkDelayedResets cfg d s else s

/-- The tree below a port is less deep than there are devices, so at the last level there
are no more children. -/
def flushPort : Nat → Nat → DeviceTree → DeviceTree
  | 0, d, s =>
      flushReset cfg d
        (if (s.dev d).deviceStatus = .notConnected then s else s.modify d Device.flushed)
  | depth + 1, d, s =>
      flushReset cfg d
        (if (s.dev d).deviceStatus = .notConnected then s
        else (s.dev d).children.foldl (fun s c => flushPort depth c (unlinkChild d c s))
          (s.modify d Device.flushed))

/-! ## Ports -/

/-- `attachChildDevice` takes a device `c` from the free list. -/
def attachChildDevice (d c : Nat) (s : DeviceTree) : DeviceTree :=
  (s.modify c fun dev =>
    { dev with
      deviceStatus := .notConnected, resetFlag := false, controlEp := false, children := [] }).modify d
    fun dev => { dev with children := dev.children ++ [c] }

def portConnected (d : Nat) (s : DeviceTree) : DeviceTree :=
  addTimerCallback d .resetDevice (s.modify d fun dev => { dev with deviceStatus := .connected })

/-- `opened` says whether there was an endpoint left for the default pipe. -/
def resetDone (d : Nat) (opened : Bool) (s : DeviceTree) : DeviceTree :=
  if opened then
    addTimerCallback d .setFuncAddress (s.modify d fun dev =>
      { dev with deviceStatus := .resetComplete, controlEp := true, functionDelay := 20 })
  else s.modify d fun dev => { dev with deviceStatus := .resetComplete }

/-- The bits of a port's status that are looked at. -/
structure PortStatus where
  connection : Bool
  connectionChange : Bool
  reset : Bool
  enable : Bool

/-- What `handleRhsc` does for one port of the root hub, after the port was flushed. -/
def rootPortUp (d : Nat) (st : PortStatus) (opened : Bool) (s : DeviceTree) : DeviceTree :=
  match (s.dev d).deviceStatus with
  | .notConnected => portConnected d s
  | .resetPending => if st.reset then s else resetDone d opened s
  | _ => s

def handleRhsc (d : Nat) (st : PortStatus) (opened : Bool) (s : DeviceTree) : DeviceTree :=
  if st.connection then
    if (s.dev d).deviceStatus ≠ .notConnected ∧ st.connectionChange = true then
      rootPortUp d st opened (flushPort cfg cfg.maxDevices d s)
    else rootPortUp d st opened s
  else flushPort cfg cfg.maxDevices d s

/-- The end of `hubGetPortStatusCallback`, when the changes have been acknowledged. -/
def hubPortStatus (d : Nat) (st : PortStatus) (opened : Bool) (s : DeviceTree) : DeviceTree :=
  if st.connection then
    match (s.dev d).deviceStatus with
    | .notConnected => portConnected d s
    | .resetPending => if st.enable then resetDone d opened s else s
    | _ => s
  else flushPort cfg cfg.maxDevices d s

/-! ## Addresses and descriptors -/

/-- A finished transfer, with what the callbacks read from the descriptors: the total length
of the configuration that is being fetched, and the number of configurations. -/
structure Transferred where
  resultCode : Nat
  transferedBytes : Nat
  wTotalLength : Nat
  bNumConfigurations : Nat

def usbRcOk : Nat := 0

def usbRcNoResponse : Nat := 5

def hubSetFuncAddressCB (d : Nat) (r : Transferred) (s : DeviceTree) : DeviceTree :=
  if r.resultCode = usbRcNoResponse then
    if (s.dev d).functionDelay * 2 ≤ 0x500 then
      addTimerCallback d .setFuncAddress (s.modify d fun dev =>
        { dev with functionDelay := dev.functionDelay * 2 })
    else
      killDevice cfg d (s.modify d fun dev => { dev with functionDelay := dev.functionDelay * 2 })
  else
    addTimerCallback d .peekDeviceDescriptor (s.modify d fun dev => { dev with deviceStatus := .ready })

/-- The descriptors of a configuration are fetched in two parts, the second as long as the
first says. When all are there, drivers are looked for. -/
def fetchNext (d : Nat) (r : Transferred) (counter : Nat) (s : DeviceTree) : DeviceTree :=
  let fetchDesc := counter % 2 = 1
  let curDescNum := counter / 2
  let descEnd := (s.dev d).descEnd + if 0 < curDescNum ∧ ¬ fetchDesc then r.wTotalLength else 0
  let readLen := if fetchDesc then r.wTotalLength else 4
  let s := s.modify d fun dev =>
    { dev with fetchDescriptorCounter := counter + 1, descEnd := descEnd }
  if cfg.maxStaticDescSize < descEnd + readLen then s
  else if curDescNum < r.bNumConfigurations then doControlTransfer d .configDescriptor s
  else s

def fetchConfigDescriptors (d : Nat) (r : Transferred) (s : DeviceTree) : DeviceTree :=
  if r.resultCode = usbRcOk ∨ (s.dev d).fetchDescriptorCounter = 0 then
    fetchNext cfg d r (s.dev d).fetchDescriptorCounter s
  else killDevice cfg d s

def requestDevDescrptCb (d : Nat) (r : Transferred) (s : DeviceTree) : DeviceTree :=
  if r.resultCode = usbRcOk then
    if r.transferedBytes < 18 then
      doControlTransfer d .deviceDescriptor (s.modify d fun dev => { dev with descEnd := 0 })
    else fetchConfigDescriptors cfg d r (s.modify d fun dev =>
      { dev with fetchDescriptorCounter := 0, descEnd := dev.descEnd + 18 })
  else killDevice cfg d s

/-- The request is no longer busy when its callback runs. -/
def transferDone (d : Nat) (proc : IoProc) (r : Transferred) (s : DeviceTree) : DeviceTree :=
  let s := s.modify d fun dev => { dev with ioRequest := none }
  match proc with
  | .setAddress => hubSetFuncAddressCB cfg d r s
  | .deviceDescriptor => requestDevDescrptCb cfg d r s
  | .configDescriptor => fetchConfigDescriptors cfg d r s

def timerExpired (d : Nat) (proc : TimerProc) (s : DeviceTree) : DeviceTree :=
  let s := s.modify d fun dev => { dev with timer := none }
  match proc with
  | .resetDevice => hubResetDevice d s
  | .setFuncAddress => doControlTransfer d .setAddress s
  | .peekDeviceDescriptor =>
      checkDelayedResets cfg d
        (doControlTransfer d .deviceDescriptor (s.modify d fun dev => { dev with descEnd := 0 }))

/-! ## Runs -/

inductive Event where
  | rootPort (d : Nat) (st : PortStatus) (opened : Bool)
  | hubPort (h d : Nat) (st : PortStatus) (opened : Bool)
  | newPort (h d : Nat)
  | timer (d : Nat)
  | transfer (d : Nat) (r : Transferred)

/-- A hub has an address before its ports are set up and report anything. What is in the
free list is not in the tree, and was flushed when it left it. -/
inductive Step : DeviceTree → Event → DeviceTree → Prop where
  | rootPort {s : DeviceTree} {d : Nat} {st : PortStatus} {opened : Bool} (hd : d ∈ s.rootPorts) :
      Step s (.rootPort d st opened) (handleRhsc cfg d st opened s)
  | hubPort {s : DeviceTree} {h d : Nat} {st : PortStatus} {opened : Bool}
      (hub : (s.dev h).deviceStatus = .ready) (hd : d ∈ (s.dev h).children) :
      Step s (.hubPort h d st opened) (hubPortStatus cfg d st opened s)
  | newPort {s : DeviceTree} {h d : Nat} (hub : (s.dev h).deviceStatus = .ready)
      (hfree : d ∉ s.rootPorts ∧ ∀ e, d ∉ (s.dev e).children)
      (hd : (s.dev d).deviceStatus = .notConnected) :
      Step s (.newPort h d) (attachChildDevice h d s)
  | timer {s : DeviceTree} {d : Nat} {proc : TimerProc} (hproc : (s.dev d).timer = some proc) :
      Step s (.timer d) (timerExpired cfg d proc s)
  | transfer {s : DeviceTree} {d : Nat} {r : Transferred} {proc : IoProc}
      (hproc : (s.dev d).ioRequest = some proc) :
      Step s (.transfer d r) (transferDone cfg d proc r s)

structure Powered (s : DeviceTree) : Prop where
  idle : ∀ d, (s.dev d).deviceStatus = .notConnected ∧ (s.dev d).resetFlag = false ∧
    (s.dev d).timer = none ∧ (s.dev d).ioRequest = none
  delayResets : s.delayResets = false

def deviceTree : System DeviceTree Event := ⟨Powered, Step cfg⟩

end BdmAssault.Usbd
