import BdmAssault.Usbd.Hub

/-! # The descriptors of a device

`requestDeviceDescriptor` and `fetchConfigDescriptors`, which read the descriptors of a new
device into its buffer, and `doGetDeviceStaticDescriptor`, which looks for them there. What the
device sends in a transfer is up to it.
-/

namespace BdmAssault.Usbd.Static

open Lib

/-! ## Reading the descriptors -/

/-- A control transfer into the buffer, with the `value` of its request. -/
structure Request where
  proc : IoProc
  value : Nat
  length : Nat
  dest : Nat

/-- `mem` is the memory from `staticDeviceDescPtr` on, and `descEnd` the offset of
`staticDeviceDescEndPtr`. -/
structure Enumeration where
  mem : Nat → UInt8
  descEnd : Nat
  fetchDescriptorCounter : Nat
  maxPacketSize : UInt16
  ioRequest : Option Request
  connected : Bool

def usbDtDevice : Nat := 1
def usbDtConfig : Nat := 2
def sizeofDeviceDescriptor : Nat := 18

/-- `READ_UINT16`. -/
def readUint16 (mem : Nat → UInt8) (pos : Nat) : Nat := (mem pos).toNat + (mem (pos + 1)).toNat * 256

namespace Enumeration

/-- Of the configuration descriptor at the end. -/
def wTotalLength (s : Enumeration) : Nat := readUint16 s.mem (s.descEnd + 2)

def bMaxPacketSize0 (s : Enumeration) : UInt8 := s.mem 7

def bNumConfigurations (s : Enumeration) : Nat := (s.mem 17).toNat

end Enumeration

/-- A request that is busy is not used again. -/
def doControlTransfer (r : Request) (s : Enumeration) : Enumeration :=
  match s.ioRequest with
  | some _ => s
  | none => { s with ioRequest := some r }

def requestDeviceDescriptor (length : Nat) (s : Enumeration) : Enumeration :=
  let s := { s with descEnd := 0 }
  doControlTransfer ⟨.deviceDescriptor, usbDtDevice * 256, length, s.descEnd⟩ s

def hubPeekDeviceDescriptor (s : Enumeration) : Enumeration := requestDeviceDescriptor 8 s

def connectNewDevice (s : Enumeration) : Enumeration := { s with connected := true }

variable (cfg : UsbConfig)

/-- After an error the port is reset, and nothing more is read. -/
def fetchConfigDescriptors (resultCode : Nat) (s : Enumeration) : Enumeration :=
  if resultCode = usbRcOk ∨ s.fetchDescriptorCounter = 0 then
    let fetchDesc := s.fetchDescriptorCounter % 2 = 1
    let curDescNum := s.fetchDescriptorCounter / 2
    let s := { s with fetchDescriptorCounter := s.fetchDescriptorCounter + 1 }
    let s := if 0 < curDescNum ∧ ¬fetchDesc then { s with descEnd := s.descEnd + s.wTotalLength } else s
    let readLen := if fetchDesc then s.wTotalLength else 4
    if cfg.maxStaticDescSize < s.descEnd + readLen then s
    else if curDescNum < s.bNumConfigurations then
      doControlTransfer ⟨.configDescriptor, usbDtConfig * 256 + curDescNum, readLen, s.descEnd⟩ s
    else connectNewDevice s
  else s

def requestDevDescrptCb (resultCode transferedBytes : Nat) (s : Enumeration) : Enumeration :=
  if resultCode = usbRcOk then
    if transferedBytes < sizeofDeviceDescriptor then
      requestDeviceDescriptor sizeofDeviceDescriptor
        { s with maxPacketSize := (s.maxPacketSize &&& 0xf800) ||| s.bMaxPacketSize0.toUInt16 }
    else
      fetchConfigDescriptors cfg resultCode
        { s with fetchDescriptorCounter := 0, descEnd := s.descEnd + sizeofDeviceDescriptor }
  else s

/-- What the device has sent. -/
def writeBytes (mem : Nat → UInt8) (dest : Nat) (bytes : List UInt8) : Nat → UInt8 :=
  fun pos => if dest ≤ pos then (bytes[pos - dest]?).getD (mem pos) else mem pos

/-- The request is no longer busy when its callback runs. -/
def transferDone (r : Request) (resultCode : Nat) (bytes : List UInt8) (s : Enumeration) : Enumeration :=
  let s := { s with mem := writeBytes s.mem r.dest bytes, ioRequest := none }
  match r.proc with
  | .deviceDescriptor => requestDevDescrptCb cfg resultCode bytes.length s
  | .configDescriptor => fetchConfigDescriptors cfg resultCode s
  | .setAddress => s

/-! ## Looking for a descriptor -/

section Scan

variable (s : Enumeration) (type : UInt8)

def Enumeration.bLength (pos : Nat) : Nat := (s.mem pos).toNat

def Enumeration.bDescriptorType (pos : Nat) : UInt8 := s.mem (pos + 1)

/-- The loop; `none` when the fuel is used up. -/
def scanDescriptors : Nat → Nat → Option (Option Nat)
  | 0, _ => none
  | fuel + 1, descBuf =>
      if descBuf < s.descEnd ∧ 2 ≤ s.bLength descBuf then
        if s.bDescriptorType descBuf = type then some (some descBuf)
        else scanDescriptors fuel (descBuf + s.bLength descBuf)
      else some none

/-- Where the search begins: behind the descriptor `data`, or in front. -/
def Enumeration.scanStart (data : Option Nat) : Nat :=
  match data with
  | some data => data + s.bLength data
  | none => 0

/-- The device with the id, when there is one, is `dev`. -/
def doGetDeviceStaticDescriptor (fuel : Nat) (dev : Option Enumeration) (data : Option Nat) (type : UInt8) :
    Option (Option Nat) :=
  match dev with
  | none => some none
  | some s => if type = 0 then some (some (s.scanStart data)) else scanDescriptors s type fuel (s.scanStart data)

end Scan

/-! ## Runs -/

/-- `elsewhere` is what happens to the memory behind the buffer. -/
inductive Event where
  | peek
  | transfer (resultCode : Nat) (bytes : List UInt8)
  | flush
  | elsewhere (mem : Nat → UInt8)

def Enumeration.next (s : Enumeration) : Event → Enumeration → Prop
  | .peek, s' => s' = hubPeekDeviceDescriptor s
  | .transfer resultCode bytes, s' => ∃ r, s.ioRequest = some r ∧ bytes.length ≤ r.length ∧
      s' = transferDone cfg r resultCode bytes s
  | .flush, s' => s' = { s with ioRequest := none }
  | .elsewhere mem, s' => (∀ pos < cfg.maxStaticDescSize, mem pos = s.mem pos) ∧ s' = { s with mem }

/-- Nothing has been read. The end at 0 stands for the NULL there is before the first request, too. -/
def enumeration : System Enumeration Event where
  init s := s.descEnd = 0 ∧ s.ioRequest = none
  step s e s' := s.next cfg e s'

/-! ## The buffer -/

/-- What is read by a request ends in the buffer. -/
def Request.Inside (r : Request) : Prop := r.dest + r.length ≤ cfg.maxStaticDescSize

/-- The end and the transfers are inside of the buffer. -/
structure InBuffer (s : Enumeration) : Prop where
  descEnd : s.descEnd ≤ cfg.maxStaticDescSize
  request : ∀ r, s.ioRequest = some r → r.Inside cfg

/-- While the device descriptor is read, the end is in front. -/
structure Kept (s : Enumeration) : Prop extends InBuffer cfg s where
  front : ∀ r, s.ioRequest = some r → r.proc = .deviceDescriptor → r.dest = 0 ∧ s.descEnd = 0

/-- There is room for what a step adds: for the device descriptor, when it is requested, and for
a configuration, whose length in the buffer is then the one it was sent with. -/
def Roomy (s : Enumeration) : Event → Prop
  | .peek => s.ioRequest = none → 8 ≤ cfg.maxStaticDescSize
  | .transfer resultCode bytes => ∀ r, s.ioRequest = some r → resultCode = usbRcOk →
      match r.proc with
      | .deviceDescriptor => bytes.length < sizeofDeviceDescriptor → sizeofDeviceDescriptor ≤ cfg.maxStaticDescSize
      | .configDescriptor => 0 < s.fetchDescriptorCounter / 2 → ¬s.fetchDescriptorCounter % 2 = 1 →
          s.descEnd + readUint16 (writeBytes s.mem r.dest bytes) (s.descEnd + 2) ≤ cfg.maxStaticDescSize
      | .setAddress => True
  | _ => True

section Bounds

variable {cfg : UsbConfig} {s s' : Enumeration} {r : Request} {resultCode : Nat} {bytes : List UInt8}

theorem Kept.doControlTransfer (h : Kept cfg s) (hinside : s.ioRequest = none → r.Inside cfg)
    (hfront : r.proc = .deviceDescriptor → r.dest = 0 ∧ s.descEnd = 0) : Kept cfg (doControlTransfer r s) := by
  unfold Static.doControlTransfer
  split
  · exact h
  · rename_i hidle
    refine ⟨⟨h.descEnd, fun r' hr' => ?_⟩, fun r' hr' => ?_⟩
    · obtain rfl := Option.some.inj hr'
      exact hinside hidle
    · obtain rfl := Option.some.inj hr'
      exact hfront

/-- Nothing is in flight. -/
theorem Kept.of_idle (hidle : s.ioRequest = none) (hend : s.descEnd ≤ cfg.maxStaticDescSize) : Kept cfg s := by
  refine ⟨⟨hend, fun r hr => ?_⟩, fun r hr => ?_⟩
  · exact absurd (hidle.symm.trans hr) nofun
  · exact absurd (hidle.symm.trans hr) nofun

theorem Kept.requestDeviceDescriptor (h : Kept cfg s) {length : Nat}
    (hroom : s.ioRequest = none → length ≤ cfg.maxStaticDescSize) : Kept cfg (requestDeviceDescriptor length s) := by
  have hfront : Kept cfg { s with descEnd := 0 } :=
    ⟨⟨Nat.zero_le _, h.request⟩, fun r hr hproc => ⟨(h.front r hr hproc).1, rfl⟩⟩
  refine hfront.doControlTransfer (fun hidle => ?_) fun _ => ⟨rfl, rfl⟩
  show 0 + length ≤ _
  rw [Nat.zero_add]
  exact hroom hidle

theorem Kept.fetchConfigDescriptors (hidle : s.ioRequest = none) (hend : s.descEnd ≤ cfg.maxStaticDescSize)
    (hroom : resultCode = usbRcOk → 0 < s.fetchDescriptorCounter / 2 → ¬s.fetchDescriptorCounter % 2 = 1 →
      s.descEnd + s.wTotalLength ≤ cfg.maxStaticDescSize) : Kept cfg (fetchConfigDescriptors cfg resultCode s) := by
  unfold Static.fetchConfigDescriptors
  split
  · rename_i hgo
    dsimp only
    -- the state with the end advanced
    generalize hs' : (if 0 < s.fetchDescriptorCounter / 2 ∧ ¬s.fetchDescriptorCounter % 2 = 1 then _ else _) = s'
    generalize (if s.fetchDescriptorCounter % 2 = 1 then s'.wTotalLength else 4) = readLen
    have hkept : Kept cfg s' := by
      rw [← hs']
      split
      · rename_i hadvance
        have hok : resultCode = usbRcOk := hgo.resolve_right fun hzero => by omega
        exact .of_idle hidle (hroom hok hadvance.1 hadvance.2)
      · exact .of_idle hidle hend
    split
    · exact hkept
    · rename_i hfits
      split
      · exact hkept.doControlTransfer (fun _ => Nat.not_lt.mp hfits) nofun
      · exact ⟨⟨hkept.descEnd, hkept.request⟩, hkept.front⟩
  · exact .of_idle hidle hend

theorem Kept.transferDone (h : Kept cfg s) (hr : s.ioRequest = some r) (hlength : bytes.length ≤ r.length)
    (hroom : Roomy cfg s (.transfer resultCode bytes)) : Kept cfg (transferDone cfg r resultCode bytes s) := by
  have hinside : r.dest + r.length ≤ cfg.maxStaticDescSize := h.request r hr
  have hroom := hroom r hr
  unfold Static.transferDone
  dsimp only
  generalize hs' : ({ s with mem := writeBytes s.mem r.dest bytes, ioRequest := none } : Enumeration) = s'
  have hidle : s'.ioRequest = none := hs' ▸ rfl
  have hend : s'.descEnd = s.descEnd := hs' ▸ rfl
  cases hproc : r.proc with
  | setAddress => exact .of_idle hidle (hend ▸ h.descEnd)
  | configDescriptor =>
      rw [hproc] at hroom
      refine Kept.fetchConfigDescriptors hidle (hend ▸ h.descEnd) fun hok => ?_
      rw [← hs']
      exact hroom hok
  | deviceDescriptor =>
      rw [hproc] at hroom
      obtain ⟨hdest, hfront⟩ := h.front r hr hproc
      dsimp only
      unfold requestDevDescrptCb
      split
      · rename_i hok
        split
        · rename_i hshort
          have hkept : Kept cfg { s' with
              maxPacketSize := (s'.maxPacketSize &&& 0xf800) ||| s'.bMaxPacketSize0.toUInt16 } :=
            .of_idle hidle (hend ▸ h.descEnd)
          exact hkept.requestDeviceDescriptor fun _ => hroom hok hshort
        · rename_i hlong
          refine Kept.fetchConfigDescriptors hidle ?_ fun _ hpos => absurd (show 0 < 0 / 2 from hpos) (by decide)
          show s'.descEnd + sizeofDeviceDescriptor ≤ _
          omega
      · exact .of_idle hidle (hend ▸ h.descEnd)

/-- In every run whose steps have room, the end stays inside of the buffer, and so does what is read. -/
theorem run_inBuffer {events : List Event} (h : (enumeration cfg).Run (Roomy cfg) events s) : Kept cfg s := by
  induction h with
  | start hinit => exact .of_idle hinit.2 (hinit.1 ▸ Nat.zero_le _)
  | @step events e s s' _ hok hnext ih =>
      cases e with
      | peek =>
          obtain rfl : s' = hubPeekDeviceDescriptor s := hnext
          exact ih.requestDeviceDescriptor hok
      | transfer resultCode bytes =>
          obtain ⟨r, hr, hlength, rfl⟩ := hnext
          exact ih.transferDone hr hlength hok
      | flush =>
          obtain rfl : s' = { s with ioRequest := none } := hnext
          exact .of_idle rfl ih.descEnd
      | elsewhere mem =>
          obtain ⟨-, rfl⟩ := hnext
          exact ⟨⟨ih.descEnd, ih.request⟩, ih.front⟩

end Bounds

/-! ## In the device tree -/

/-- The device of the tree is read as `s` says. -/
structure Shows (s : Enumeration) (dev : Device) : Prop where
  descEnd : dev.descEnd = s.descEnd
  fetchDescriptorCounter : dev.fetchDescriptorCounter = s.fetchDescriptorCounter
  ioRequest : dev.ioRequest = s.ioRequest.map Request.proc

section Tree

variable {cfg : UsbConfig} {s : Enumeration} {tree : DeviceTree} {d resultCode : Nat}

theorem modify_dev (d : Nat) (f : Device → Device) (tree : DeviceTree) : (tree.modify d f).dev d = f (tree.dev d) :=
  Function.update_self _ _ _

theorem Shows.doControlTransfer (h : Shows s (tree.dev d)) (r : Request) :
    Shows (doControlTransfer r s) ((Usbd.doControlTransfer d r.proc tree).dev d) := by
  unfold Static.doControlTransfer Usbd.doControlTransfer
  rw [modify_dev]
  cases hr : s.ioRequest with
  | some r' =>
      refine ⟨h.descEnd, h.fetchDescriptorCounter, ?_⟩
      dsimp only
      rw [h.ioRequest, hr]
      rfl
  | none =>
      refine ⟨h.descEnd, h.fetchDescriptorCounter, ?_⟩
      dsimp only
      rw [h.ioRequest, hr]
      rfl

/-- The next read, with the end at `descEnd`. -/
theorem Shows.fetchNext {s' : Enumeration} {tree' : DeviceTree} {descEnd readLen curDescNum : Nat}
    (h : Shows s' (tree'.dev d)) (hend : s'.descEnd = descEnd) :
    Shows (if cfg.maxStaticDescSize < s'.descEnd + readLen then s'
        else if curDescNum < s'.bNumConfigurations then
          Static.doControlTransfer ⟨.configDescriptor, usbDtConfig * 256 + curDescNum, readLen, s'.descEnd⟩ s'
        else connectNewDevice s')
      ((if cfg.maxStaticDescSize < descEnd + readLen then tree'
        else if curDescNum < s'.bNumConfigurations then Usbd.doControlTransfer d .configDescriptor tree'
        else tree').dev d) := by
  rw [hend]
  split
  · exact h
  · split
    · exact h.doControlTransfer _
    · exact ⟨h.descEnd, h.fetchDescriptorCounter, h.ioRequest⟩

/-- What the tree takes to be in the descriptors is what the buffer holds. -/
theorem Shows.fetchConfigDescriptors (h : Shows s (tree.dev d))
    (hgo : resultCode = usbRcOk ∨ s.fetchDescriptorCounter = 0) (transferedBytes : Nat) :
    Shows (fetchConfigDescriptors cfg resultCode s) ((Usbd.fetchConfigDescriptors cfg d
      ⟨resultCode, transferedBytes, s.wTotalLength, s.bNumConfigurations⟩ tree).dev d) := by
  have hgo' : resultCode = usbRcOk ∨ (tree.dev d).fetchDescriptorCounter = 0 := h.fetchDescriptorCounter ▸ hgo
  unfold Static.fetchConfigDescriptors Usbd.fetchConfigDescriptors Usbd.fetchNext
  rw [if_pos hgo, if_pos hgo', h.fetchDescriptorCounter, h.descEnd]
  dsimp only
  have hnext (descEnd : Nat) : Shows { s with
      descEnd := descEnd, fetchDescriptorCounter := s.fetchDescriptorCounter + 1 } ((tree.modify d fun dev => { dev with
        fetchDescriptorCounter := s.fetchDescriptorCounter + 1, descEnd := descEnd }).dev d) := by
    rw [modify_dev]
    exact ⟨rfl, rfl, h.ioRequest⟩
  by_cases hadvance : 0 < s.fetchDescriptorCounter / 2 ∧ ¬s.fetchDescriptorCounter % 2 = 1
  · rw [if_pos hadvance, if_pos hadvance, if_neg hadvance.2, if_neg hadvance.2]
    exact (hnext (s.descEnd + s.wTotalLength)).fetchNext rfl
  · rw [if_neg hadvance, if_neg hadvance]
    exact (hnext s.descEnd).fetchNext rfl

end Tree

/-! ## What a search returns -/

/-- The descriptors that a search meets. -/
def Enumeration.chain (s : Enumeration) : Nat → Nat → List Nat
  | 0, _ => []
  | fuel + 1, pos =>
      if pos < s.descEnd ∧ 2 ≤ s.bLength pos then pos :: s.chain fuel (pos + s.bLength pos) else []

/-- A descriptor that lies completely before the end. -/
def Enumeration.Complete (s : Enumeration) (pos : Nat) : Prop := pos < s.descEnd ∧ pos + s.bLength pos ≤ s.descEnd

/-- The last descriptor that is met runs over the end, and it is the first of the type. -/
def Enumeration.Overruns (s : Enumeration) (type : UInt8) (start : Nat) : Prop :=
  ∃ front last, s.chain (s.descEnd + 1) start = front ++ [last] ∧ s.descEnd < last + s.bLength last ∧
    s.bDescriptorType last = type ∧ ∀ pos ∈ front, s.bDescriptorType pos ≠ type

/-- Type 0 asks for the next descriptor, whatever it is. -/
def Enumeration.Whole (s : Enumeration) (data : Option Nat) (type : UInt8) : Prop :=
  if type = 0 then s.Complete (s.scanStart data) else ¬s.Overruns type (s.scanStart data)

section Scan

variable {s : Enumeration} {type : UInt8} {fuel pos start : Nat}

/-- The search returns the first descriptor of the type. -/
theorem scanDescriptors_eq (hfuel : s.descEnd < pos + fuel) (hpos : 0 < fuel) :
    scanDescriptors s type fuel pos = some ((s.chain fuel pos).find? fun pos => s.bDescriptorType pos = type) := by
  induction fuel generalizing pos with
  | zero => exact absurd hpos (Nat.lt_irrefl 0)
  | succ fuel ih =>
      unfold scanDescriptors Enumeration.chain
      by_cases hgo : pos < s.descEnd ∧ 2 ≤ s.bLength pos
      · rw [if_pos hgo, if_pos hgo]
        by_cases htype : s.bDescriptorType pos = type
        · rw [if_pos htype]
          simp only [List.find?_cons, htype, decide_true]
        · rw [if_neg htype, ih (by omega) (by omega)]
          simp only [List.find?_cons, htype, decide_false]
      · rw [if_neg hgo, if_neg hgo]
        rfl

theorem chain_fuel {n : Nat} (hfuel : s.descEnd < pos + fuel) (hpos : 0 < fuel) (hfuel' : s.descEnd < pos + n)
    (hpos' : 0 < n) : s.chain fuel pos = s.chain n pos := by
  induction fuel generalizing pos n with
  | zero => exact absurd hpos (Nat.lt_irrefl 0)
  | succ fuel ih =>
      obtain ⟨n, rfl⟩ := Nat.exists_eq_add_one_of_ne_zero (Nat.ne_of_gt hpos')
      unfold Enumeration.chain
      by_cases hgo : pos < s.descEnd ∧ 2 ≤ s.bLength pos
      · rw [if_pos hgo, if_pos hgo]
        exact congrArg _ (ih (by omega) (by omega) (by omega) (by omega))
      · rw [if_neg hgo, if_neg hgo]

theorem chain_lt (h : start ∈ s.chain fuel pos) : start < s.descEnd := by
  induction fuel generalizing pos with
  | zero => exact absurd h List.not_mem_nil
  | succ fuel ih =>
      unfold Enumeration.chain at h
      split at h
      · rename_i hgo
        rcases List.mem_cons.mp h with rfl | hmem
        · exact hgo.1
        · exact ih hmem
      · exact absurd h List.not_mem_nil

/-- Only the last descriptor that is met may run over the end. -/
theorem chain_complete {front back : List Nat} {last : Nat} (h : s.chain fuel pos = front ++ last :: back)
    (hback : back ≠ []) : s.Complete last := by
  induction fuel generalizing pos front with
  | zero => exact absurd h.symm (List.append_ne_nil_of_right_ne_nil _ (List.cons_ne_nil _ _))
  | succ fuel ih =>
      unfold Enumeration.chain at h
      split at h
      · rename_i hgo
        cases front with
        | nil =>
            obtain ⟨rfl, hrest⟩ := List.cons.inj h
            obtain ⟨after, hafter⟩ := List.exists_mem_of_ne_nil _ hback
            refine ⟨hgo.1, ?_⟩
            -- the one behind it is met, too
            cases fuel with
            | zero => exact absurd (hrest ▸ hafter) List.not_mem_nil
            | succ fuel =>
                unfold Enumeration.chain at hrest
                split at hrest
                · rename_i hnext
                  exact Nat.le_of_lt hnext.1
                · exact absurd (hrest ▸ hafter) List.not_mem_nil
        | cons first front => exact ih (List.cons.inj h).2
      · exact absurd h.symm (List.append_ne_nil_of_right_ne_nil _ (List.cons_ne_nil _ _))

theorem scan_complete_iff : (∀ pos, (s.chain (s.descEnd + 1) start).find? (fun pos => s.bDescriptorType pos = type) = some pos →
    s.Complete pos) ↔ ¬s.Overruns type start := by
  constructor
  · rintro hall ⟨front, last, hchain, hover, htype, hfront⟩
    refine absurd (hall last ?_).2 (Nat.not_le.mpr hover)
    rw [hchain, List.find?_append, List.find?_eq_none.mpr fun pos hpos h => hfront pos hpos (of_decide_eq_true h)]
    simp only [List.find?_cons, htype, decide_true, Option.none_or]
  · intro hwhole pos hfind
    obtain ⟨htype, front, back, hchain, hfront⟩ := List.find?_eq_some_iff_append.mp hfind
    by_cases hback : back = []
    · subst hback
      have hlt : pos < s.descEnd := chain_lt (hchain ▸ List.mem_append_right front (List.mem_singleton_self pos))
      refine ⟨hlt, Nat.not_lt.mp fun hover => hwhole ⟨front, pos, hchain, hover, of_decide_eq_true htype, ?_⟩⟩
      intro p hp heq
      have hno := hfront p hp
      rw [decide_eq_true heq] at hno
      exact absurd hno nofun
    · exact chain_complete hchain hback

/-- A search ends, and it returns no descriptor that runs over the end exactly when it meets none of
the type. -/
theorem doGetDeviceStaticDescriptor_spec (s : Enumeration) (data : Option Nat) (type : UInt8) :
    ∃ result, (∀ fuel, s.descEnd < fuel → doGetDeviceStaticDescriptor fuel (some s) data type = some result) ∧
      ((∀ pos, result = some pos → s.Complete pos) ↔ s.Whole data type) := by
  unfold doGetDeviceStaticDescriptor Enumeration.Whole
  dsimp only
  by_cases htype : type = 0
  · simp only [if_pos htype]
    refine ⟨some (s.scanStart data), fun _ _ => rfl, fun h => h _ rfl, fun h pos hpos => ?_⟩
    obtain rfl := Option.some.inj hpos
    exact h
  · simp only [if_neg htype]
    refine ⟨_, fun fuel hfuel => ?_, scan_complete_iff⟩
    rw [scanDescriptors_eq (by omega) (by omega), chain_fuel (by omega) (by omega) (n := s.descEnd + 1) (by omega)
      (Nat.succ_pos _)]

end Scan

/-- In every run whose steps have room, the end and the transfers stay inside of the buffer; and in
every state, a search ends, and returns a complete descriptor exactly when the buffer has one for it. -/
theorem descriptors_inBuffer (cfg : UsbConfig) (events : List Event) (s : Enumeration)
    (h : (enumeration cfg).Run (Roomy cfg) events s) : InBuffer cfg s ∧ ∀ data type, ∃ result,
      (∀ fuel, s.descEnd < fuel → doGetDeviceStaticDescriptor fuel (some s) data type = some result) ∧
      ((∀ pos, result = some pos → s.Complete pos) ↔ s.Whole data type) :=
  ⟨(run_inBuffer h).toInBuffer, doGetDeviceStaticDescriptor_spec s⟩

section Examples

variable {ok : Enumeration → Event → Prop} {events : List Event} {s : Enumeration}

def usbConfig : UsbConfig := ⟨0x20, 0x200⟩

def blank : Enumeration := ⟨fun _ => 0, 0, 0, 0, none, false⟩

/-- A device with one configuration. -/
def deviceDescriptor : List UInt8 := [18, 1, 0, 2, 0, 0, 0, 64, 0, 0, 0, 0, 0, 1, 0, 0, 0, 1]

/-- A transfer that succeeds. -/
def received (bytes : List UInt8) (s : Enumeration) : Enumeration :=
  match s.ioRequest with
  | some r => transferDone usbConfig r usbRcOk bytes s
  | none => s

theorem run_received (h : (enumeration usbConfig).Run ok events s) (bytes : List UInt8) {r : Request}
    (hr : s.ioRequest = some r) (hlength : bytes.length ≤ r.length) (hok : ok s (.transfer usbRcOk bytes)) :
    (enumeration usbConfig).Run ok (.transfer usbRcOk bytes :: events) (received bytes s) := by
  refine h.step hok ⟨r, hr, hlength, ?_⟩
  unfold received
  rw [hr]

/-- The device descriptor, and 4 bytes of the configuration descriptor. -/
def begun : Enumeration :=
  received [9, 2, 9, 0] (received deviceDescriptor (received (deviceDescriptor.take 8) (hubPeekDeviceDescriptor blank)))

theorem run_begun (hpeek : ok blank .peek)
    (hok : ∀ s r bytes, s.ioRequest = some r → s.fetchDescriptorCounter < 2 → ok s (.transfer usbRcOk bytes)) :
    ∃ events, (enumeration usbConfig).Run ok events begun := by
  have hpeeked : (enumeration usbConfig).Run ok [.peek] (hubPeekDeviceDescriptor blank) :=
    .step (.start ⟨rfl, rfl⟩) hpeek rfl
  have hfirst := run_received hpeeked (deviceDescriptor.take 8) rfl (by decide) (hok _ _ _ rfl (by decide))
  have hdevice := run_received hfirst deviceDescriptor rfl (by decide) (hok _ _ _ rfl (by decide))
  exact ⟨_, run_received hdevice [9, 2, 9, 0] rfl (by decide) (hok _ _ _ rfl (by decide))⟩

/-- The same configuration descriptor is sent twice. -/
theorem descriptors_inBuffer_steady : InBuffer usbConfig (received [9, 2, 9, 0, 0, 0, 0, 0, 0] begun) := by
  obtain ⟨events, hbegun⟩ := @run_begun (Roomy usbConfig) (fun _ => by decide) fun s r bytes hr hcounter r' hr' _ => by
    cases r'.proc with
    | deviceDescriptor => exact fun _ => by decide
    | configDescriptor => exact fun hpos => absurd hpos (by omega)
    | setAddress => trivial
  refine (descriptors_inBuffer usbConfig _ _ (run_received hbegun _ rfl (by decide) fun r hr _ => ?_)).1
  obtain rfl := Option.some.inj hr
  exact fun _ _ => by decide

/-- The second time it has another length. -/
theorem descEnd_leaves : ¬∀ events s, (enumeration usbConfig).Run (fun _ _ => True) events s →
    InBuffer usbConfig s ∧ ∀ data type, ∃ result,
      (∀ fuel, s.descEnd < fuel → doGetDeviceStaticDescriptor fuel (some s) data type = some result) ∧
      (∀ pos, result = some pos → s.Complete pos) := by
  intro hall
  obtain ⟨events, hbegun⟩ := @run_begun (fun _ _ => True) trivial fun _ _ _ _ _ => trivial
  have hrun := run_received hbegun [9, 2, 255, 255, 0, 0, 0, 0, 0] rfl (by decide) trivial
  exact absurd (hall _ _ hrun).1.descEnd (by decide)

end Examples

end BdmAssault.Usbd.Static
