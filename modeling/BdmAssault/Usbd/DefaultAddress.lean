import BdmAssault.Usbd.Hub

/-! # The default address

A device answers at the default address from its port reset until it has been given an
address of its own. The device for which `memPool.delayResets` is set is marked by its
`resetFlag`. The flag is given up by the device that is marked, except when the descriptors
of a device that has its address cannot be read: `killDevice` then gives it up for whichever
device has it.
-/

namespace BdmAssault.Usbd

open Lib

variable {cfg : UsbConfig} {s t : DeviceTree} {d : Nat}

@[simp] theorem DeviceTree.modify_self (d : Nat) (f : Device → Device) (s : DeviceTree) :
    (s.modify d f).dev d = f (s.dev d) := Function.update_self _ _ _

theorem DeviceTree.modify_ne {e : Nat} (f : Device → Device) (s : DeviceTree) (h : e ≠ d) :
    (s.modify d f).dev e = s.dev e := Function.update_of_ne h _ _

@[simp] theorem DeviceTree.setDelayResets_dev (b : Bool) (s : DeviceTree) : (s.setDelayResets b).dev = s.dev := rfl

@[simp] theorem DeviceTree.setDelayResets_delayResets (b : Bool) (s : DeviceTree) :
    (s.setDelayResets b).delayResets = b := rfl

/-! ## The invariant -/

def Device.AtDefault (dev : Device) : Prop :=
  dev.deviceStatus = .resetPending ∨ dev.deviceStatus = .resetComplete

/-- A device that answers at the default address is marked, and its timer and its request
belong to the status it has. -/
structure Device.Ok (dev : Device) (delayResets : Bool) : Prop where
  held : dev.AtDefault → dev.resetFlag = true
  flag : dev.resetFlag = true → delayResets = true
  reset : dev.timer = some .resetDevice → dev.deviceStatus = .connected
  setAddress : dev.timer = some .setFuncAddress → dev.deviceStatus = .resetComplete
  peek : dev.timer = some .peekDeviceDescriptor → dev.deviceStatus = .ready ∧ dev.resetFlag = true
  addressing : dev.ioRequest = some .setAddress → dev.deviceStatus = .resetComplete
  reading : dev.ioRequest = some .deviceDescriptor ∨ dev.ioRequest = some .configDescriptor →
    dev.deviceStatus = .ready
  single : dev.ioRequest ≠ none → dev.timer = none

structure Exclusive (s : DeviceTree) : Prop where
  ok : ∀ d, (s.dev d).Ok s.delayResets
  unique : ∀ d e, (s.dev d).resetFlag = true → (s.dev e).resetFlag = true → d = e

/-- The invariant while the status of `d` is about to be overwritten. -/
structure ExclusiveBut (d : Nat) (s : DeviceTree) : Prop where
  ok : ∀ e, e ≠ d → (s.dev e).Ok s.delayResets
  flag : (s.dev d).resetFlag = true → s.delayResets = true
  unique : ∀ d e, (s.dev d).resetFlag = true → (s.dev e).resetFlag = true → d = e

section Device

variable {dev : Device}

/-- A device without a timer and a request that does not answer at the default address. -/
theorem Device.Ok.quiet {lock : Bool} (ht : dev.timer = none) (hr : dev.ioRequest = none)
    (hd : dev.AtDefault → dev.resetFlag = true) (hf : dev.resetFlag = true → lock = true) :
    dev.Ok lock where
  held := hd
  flag := hf
  reset h := by
    rw [ht] at h
    cases h
  setAddress h := by
    rw [ht] at h
    cases h
  peek h := by
    rw [ht] at h
    cases h
  addressing h := by
    rw [hr] at h
    cases h
  reading h := by
    rw [hr] at h
    rcases h with h | h <;> cases h
  single _ := ht

theorem Device.Ok.relock {lock lock' : Bool} (h : dev.Ok lock) (hf : dev.resetFlag = true → lock' = true) :
    dev.Ok lock' :=
  { h with flag := hf }

/-- Only these statuses go with a timer or a request. -/
theorem Device.Ok.idle {lock : Bool} {status : DeviceStatus} (h : dev.Ok lock)
    (hstatus : dev.deviceStatus = status)
    (hidle : status ≠ .connected ∧ status ≠ .resetComplete ∧ status ≠ .ready) :
    dev.timer = none ∧ dev.ioRequest = none := by
  subst hstatus
  obtain ⟨hc, hrc, hr⟩ := hidle
  constructor
  · cases ht : dev.timer with
    | none => rfl
    | some proc =>
        cases proc with
        | resetDevice => exact absurd (h.reset ht) hc
        | setFuncAddress => exact absurd (h.setAddress ht) hrc
        | peekDeviceDescriptor => exact absurd (h.peek ht).1 hr
  · cases ht : dev.ioRequest with
    | none => rfl
    | some proc =>
        cases proc with
        | setAddress => exact absurd (h.addressing ht) hrc
        | deviceDescriptor => exact absurd (h.reading (.inl ht)) hr
        | configDescriptor => exact absurd (h.reading (.inr ht)) hr

end Device

theorem Exclusive.modify {f : Device → Device} (h : Exclusive s) (hok : (f (s.dev d)).Ok s.delayResets)
    (hflag : (f (s.dev d)).resetFlag = true → (s.dev d).resetFlag = true) :
    Exclusive (s.modify d f) := by
  have hsame : ∀ e, ((s.modify d f).dev e).resetFlag = true → (s.dev e).resetFlag = true := by
    intro e he
    by_cases hed : e = d
    · subst hed
      rw [DeviceTree.modify_self] at he
      exact hflag he
    · rwa [DeviceTree.modify_ne f s hed] at he
  constructor
  · intro e
    by_cases hed : e = d
    · subst hed
      rw [DeviceTree.modify_self]
      exact hok
    · rw [DeviceTree.modify_ne f s hed]
      exact h.ok e
  · intro e e' he he'
    exact h.unique e e' (hsame e he) (hsame e' he')

theorem ExclusiveBut.exclusive (h : ExclusiveBut d s) (hd : (s.dev d).Ok s.delayResets) : Exclusive s where
  ok e := by
    by_cases hed : e = d
    · subst hed
      exact hd
    · exact h.ok e hed
  unique := h.unique

/-- The flag of an unlocked state marks nothing. -/
theorem ExclusiveBut.unmarked (h : ExclusiveBut d s) (hlock : s.delayResets = false) (e : Nat) :
    (s.dev e).resetFlag = false := by
  rw [Bool.eq_false_iff]
  intro he
  have hl : s.delayResets = true := by
    by_cases hed : e = d
    · subst hed
      exact h.flag he
    · exact (h.ok e hed).flag he
  rw [hlock] at hl
  cases hl

/-! ## Resets -/

theorem ExclusiveBut.hubResetDevice (h : ExclusiveBut d s) (ht : (s.dev d).timer = none)
    (hr : (s.dev d).ioRequest = none) : Exclusive (hubResetDevice d s) := by
  unfold Usbd.hubResetDevice
  split
  · rename_i hlock
    constructor
    · intro e
      by_cases hed : e = d
      · subst hed
        rw [DeviceTree.modify_self]
        exact .quiet ht hr (fun hdef => by rcases hdef with hdef | hdef <;> cases hdef) h.flag
      · rw [DeviceTree.modify_ne _ s hed]
        exact h.ok e hed
    · have hsame : ∀ x, ((s.modify d Device.delayReset).dev x).resetFlag = (s.dev x).resetFlag := by
        intro x
        by_cases hxd : x = d
        · subst hxd
          rw [DeviceTree.modify_self]
          rfl
        · rw [DeviceTree.modify_ne _ s hxd]
      intro e e' he he'
      rw [hsame] at he he'
      exact h.unique e e' he he'
  · rename_i hlock
    have hnone := h.unmarked (Bool.eq_false_iff.mpr hlock)
    constructor
    · intro e
      rw [DeviceTree.setDelayResets_dev, DeviceTree.setDelayResets_delayResets]
      by_cases hed : e = d
      · subst hed
        rw [DeviceTree.modify_self]
        exact .quiet ht hr (fun _ => rfl) (fun _ => rfl)
      · rw [DeviceTree.modify_ne _ s hed]
        exact (h.ok e hed).relock fun _ => rfl
    · have hmarked : ∀ x, ((s.modify d Device.startReset).dev x).resetFlag = true → x = d := by
        intro x hx
        by_contra hxd
        rw [DeviceTree.modify_ne _ s hxd, hnone x] at hx
        cases hx
      intro e e' he he'
      exact (hmarked e he).trans (hmarked e' he').symm

/-- What is found is waiting for its reset. -/
theorem delayedIn_status {depth : Nat} {ports : List Nat} {e : Nat} (h : delayedIn s depth ports = some e) :
    (s.dev e).deviceStatus = .resetDelayed := by
  induction depth generalizing ports with
  | zero => cases h
  | succ depth ih =>
      obtain ⟨x, -, hx⟩ := List.exists_of_findSome?_eq_some h
      split at hx
      · cases hx
        assumption
      · split at hx
        · exact ih hx
        · cases hx

theorem releaseReset_self (d : Nat) (s : DeviceTree) :
    (releaseReset d s).dev d = { s.dev d with resetFlag := false } := by
  simp [releaseReset]

theorem releaseReset_ne {e : Nat} (s : DeviceTree) (h : e ≠ d) : (releaseReset d s).dev e = s.dev e :=
  Function.update_of_ne h _ _

/-- After `d` gave up the flag it is free, or another device has got it. -/
theorem checkDelayedResets_but (cfg : UsbConfig) (hok : ∀ e, e ≠ d → (s.dev e).Ok s.delayResets)
    (hothers : ∀ e, e ≠ d → (s.dev e).resetFlag = false)
    (hd : (s.dev d).deviceStatus ≠ .resetDelayed) :
    ExclusiveBut d (checkDelayedResets cfg d s) ∧
      (checkDelayedResets cfg d s).dev d = { s.dev d with resetFlag := false } := by
  have hnone : ∀ e, ((releaseReset d s).dev e).resetFlag = false := by
    intro e
    by_cases hed : e = d
    · subst hed
      rw [releaseReset_self]
    · rw [releaseReset_ne s hed]
      exact hothers e hed
  have hfree : ∀ e, e ≠ d → ((releaseReset d s).dev e).Ok false := by
    intro e hed
    have hunmarked := hnone e
    rw [releaseReset_ne s hed] at hunmarked ⊢
    refine (hok e hed).relock fun he => ?_
    rw [hunmarked] at he
    cases he
  have hreleased : ExclusiveBut d (releaseReset d s) := by
    refine ⟨hfree, fun h => ?_, fun e e' h => ?_⟩
    · rw [hnone d] at h
      cases h
    · rw [hnone e] at h
      cases h
  unfold checkDelayedResets
  cases hfind : delayedIn (releaseReset d s) cfg.maxDevices (releaseReset d s).rootPorts with
  | none => exact ⟨hreleased, releaseReset_self d s⟩
  | some e =>
      have hstatus := delayedIn_status hfind
      have hed : e ≠ d := by
        rintro rfl
        rw [releaseReset_self] at hstatus
        exact hd hstatus
      have hidle := (hfree e hed).idle hstatus (by decide)
      have hreset : hubResetDevice e (releaseReset d s) =
          ((releaseReset d s).modify e Device.startReset).setDelayResets true := if_neg nofun
      have hmarked : ∀ x, (((releaseReset d s).modify e Device.startReset).dev x).resetFlag = true →
          x = e := by
        intro x hx
        by_contra hxe
        rw [DeviceTree.modify_ne _ _ hxe, hnone x] at hx
        cases hx
      show ExclusiveBut d (hubResetDevice e (releaseReset d s)) ∧
        (hubResetDevice e (releaseReset d s)).dev d = _
      rw [hreset]
      refine ⟨⟨?_, fun _ => rfl, ?_⟩, ?_⟩
      · intro x hxd
        rw [DeviceTree.setDelayResets_dev, DeviceTree.setDelayResets_delayResets]
        by_cases hxe : x = e
        · subst hxe
          rw [DeviceTree.modify_self]
          exact .quiet hidle.1 hidle.2 (fun _ => rfl) (fun _ => rfl)
        · rw [DeviceTree.modify_ne _ _ hxe]
          exact (hfree x hxd).relock fun _ => rfl
      · intro x x' hx hx'
        exact (hmarked x hx).trans (hmarked x' hx').symm
      · rw [DeviceTree.setDelayResets_dev, DeviceTree.modify_ne _ _ (Ne.symm hed)]
        exact releaseReset_self d s

/-- The device that has the flag may give it up when it no longer answers at the default
address. -/
theorem Exclusive.checkDelayedResets (h : Exclusive s) (hflag : (s.dev d).resetFlag = true)
    (hdef : ¬ (s.dev d).AtDefault) (hdelayed : (s.dev d).deviceStatus ≠ .resetDelayed)
    (htimer : (s.dev d).timer = none) : Exclusive (checkDelayedResets cfg d s) := by
  have hothers : ∀ e, e ≠ d → (s.dev e).resetFlag = false := by
    intro e hed
    rw [Bool.eq_false_iff]
    exact fun he => hed (h.unique e d he hflag)
  obtain ⟨hbut, hself⟩ := checkDelayedResets_but cfg (fun e _ => h.ok e) hothers hdelayed
  refine hbut.exclusive ?_
  rw [hself]
  have hd := h.ok d
  exact
    { held := fun hat => absurd hat hdef
      flag := nofun
      reset := hd.reset
      setAddress := hd.setAddress
      peek := fun ht => by
        rw [show (s.dev d).timer = none from htimer] at ht
        cases ht
      addressing := hd.addressing
      reading := hd.reading
      single := hd.single }

/-- A device may be reset again when the flag is its own, or nobody's. -/
theorem Exclusive.killDevice (h : Exclusive s)
    (hothers : ∀ e, e ≠ d → (s.dev e).resetFlag = false)
    (hdelayed : (s.dev d).deviceStatus ≠ .resetDelayed) (htimer : (s.dev d).timer = none)
    (hreq : (s.dev d).ioRequest = none) : Exclusive (killDevice cfg d s) := by
  have hne : ∀ e, e ≠ d → (s.modify d fun dev => { dev with controlEp := false }).dev e = s.dev e :=
    fun e hed => DeviceTree.modify_ne _ s hed
  obtain ⟨hbut, hself⟩ := checkDelayedResets_but cfg (d := d)
    (s := s.modify d fun dev => { dev with controlEp := false })
    (fun e hed => by rw [hne e hed]; exact h.ok e) (fun e hed => by rw [hne e hed]; exact hothers e hed)
    (by rw [DeviceTree.modify_self]; exact hdelayed)
  rw [DeviceTree.modify_self] at hself
  apply hbut.hubResetDevice
  · rw [hself]
    exact htimer
  · rw [hself]
    exact hreq

/-! ## Unplugging -/

/-- Nothing that happens when the flag is given up brings a flushed port back. -/
theorem checkDelayedResets_notConnected {e : Nat} (h : (s.dev e).deviceStatus = .notConnected) :
    ((checkDelayedResets cfg d s).dev e).deviceStatus = .notConnected := by
  have hreleased : ((releaseReset d s).dev e).deviceStatus = .notConnected := by
    by_cases hed : e = d
    · subst hed
      rw [releaseReset_self]
      exact h
    · rw [releaseReset_ne s hed]
      exact h
  unfold checkDelayedResets
  cases hfind : delayedIn (releaseReset d s) cfg.maxDevices (releaseReset d s).rootPorts with
  | none => exact hreleased
  | some x =>
      have hne : e ≠ x := by
        rintro rfl
        rw [delayedIn_status hfind] at hreleased
        cases hreleased
      show ((hubResetDevice x (releaseReset d s)).dev e).deviceStatus = .notConnected
      unfold hubResetDevice
      split
      · rw [DeviceTree.modify_ne _ _ hne]
        exact hreleased
      · rw [DeviceTree.setDelayResets_dev, DeviceTree.modify_ne _ _ hne]
        exact hreleased

theorem flushReset_notConnected {e : Nat} (h : (s.dev e).deviceStatus = .notConnected) :
    ((flushReset cfg d s).dev e).deviceStatus = .notConnected := by
  unfold flushReset
  split
  · exact checkDelayedResets_notConnected h
  · exact h

theorem modify_notConnected {e : Nat} {f : Device → Device} (h : (s.dev e).deviceStatus = .notConnected)
    (hf : ∀ dev : Device, dev.deviceStatus = .notConnected → (f dev).deviceStatus = .notConnected) :
    ((s.modify d f).dev e).deviceStatus = .notConnected := by
  by_cases hed : e = d
  · subst hed
    rw [DeviceTree.modify_self]
    exact hf _ h
  · rw [DeviceTree.modify_ne _ s hed]
    exact h

theorem flushPort_notConnected (depth d : Nat) {e : Nat} (h : (s.dev e).deviceStatus = .notConnected) :
    ((flushPort cfg depth d s).dev e).deviceStatus = .notConnected := by
  induction depth generalizing d s with
  | zero =>
      unfold flushPort
      apply flushReset_notConnected
      split
      · exact h
      · exact modify_notConnected h fun _ _ => rfl
  | succ depth ih =>
      unfold flushPort
      apply flushReset_notConnected
      split
      · exact h
      · refine List.foldlRecOn (motive := fun t : DeviceTree => (t.dev e).deviceStatus = .notConnected)
          _ _ ?_ ?_
        · exact modify_notConnected h fun _ _ => rfl
        · intro t ht c _
          exact ih c (modify_notConnected ht fun _ hc => hc)

theorem Exclusive.flushed (h : Exclusive s) : Exclusive (s.modify d Device.flushed) := by
  refine h.modify ?_ id
  exact .quiet rfl rfl (fun hat => by rcases hat with hat | hat <;> cases hat) (h.ok d).flag

theorem Exclusive.flushReset (h : Exclusive s) (hd : (s.dev d).deviceStatus = .notConnected) :
    Exclusive (flushReset cfg d s) := by
  unfold Usbd.flushReset
  split
  · rename_i hflag
    refine h.checkDelayedResets hflag ?_ (by rw [hd]; exact nofun) ?_
    · rintro (hat | hat) <;> rw [hd] at hat <;> cases hat
    · exact ((h.ok d).idle hd (by decide)).1
  · exact h

theorem Exclusive.unlinkChild {c : Nat} (h : Exclusive s) : Exclusive (unlinkChild d c s) :=
  h.modify { h.ok d with } id

theorem Exclusive.flushPort (h : Exclusive s) (depth d : Nat) : Exclusive (flushPort cfg depth d s) := by
  induction depth generalizing d s with
  | zero =>
      unfold Usbd.flushPort
      split
      · exact h.flushReset ‹_›
      · exact h.flushed.flushReset (by rw [DeviceTree.modify_self]; rfl)
  | succ depth ih =>
      unfold Usbd.flushPort
      split
      · exact h.flushReset ‹_›
      · -- the port stays disconnected while its children go one after the other
        have hrun : Exclusive ((s.dev d).children.foldl
              (fun s c => Usbd.flushPort cfg depth c (Usbd.unlinkChild d c s)) (s.modify d Device.flushed)) ∧
            (((s.dev d).children.foldl (fun s c => Usbd.flushPort cfg depth c (Usbd.unlinkChild d c s))
              (s.modify d Device.flushed)).dev d).deviceStatus = .notConnected := by
          refine List.foldlRecOn
            (motive := fun t => Exclusive t ∧ (t.dev d).deviceStatus = .notConnected) _ _ ?_ ?_
          · exact ⟨h.flushed, by rw [DeviceTree.modify_self]; rfl⟩
          · intro t ht c _
            exact ⟨ih ht.1.unlinkChild c,
              flushPort_notConnected depth c (modify_notConnected ht.2 fun _ hc => hc)⟩
        exact hrun.1.flushReset hrun.2

/-! ## Ports -/

/-- The status in which a timer is set. -/
def Device.Suits (dev : Device) : TimerProc → Prop
  | .resetDevice => dev.deviceStatus = .connected
  | .setFuncAddress => dev.deviceStatus = .resetComplete
  | .peekDeviceDescriptor => dev.deviceStatus = .ready ∧ dev.resetFlag = true

theorem Exclusive.addTimerCallback {proc : TimerProc} (h : Exclusive s) (ht : (s.dev d).timer = none)
    (hr : (s.dev d).ioRequest = none) (hproc : (s.dev d).Suits proc) :
    Exclusive (addTimerCallback d proc s) := by
  have hok := h.ok d
  have hset : ∀ proc', some ((s.dev d).timer.getD proc) = some proc' → (s.dev d).Suits proc' := by
    intro proc' he
    rw [ht] at he
    cases he
    exact hproc
  refine h.modify ?_ id
  exact
    { held := hok.held
      flag := hok.flag
      reset := fun he => hset _ he
      setAddress := fun he => hset _ he
      peek := fun he => hset _ he
      addressing := hok.addressing
      reading := hok.reading
      single := fun hne => absurd hr hne }

theorem Exclusive.portConnected (h : Exclusive s) (hd : (s.dev d).deviceStatus = .notConnected) :
    Exclusive (portConnected d s) := by
  have hidle := (h.ok d).idle hd (by decide)
  have hconn : Exclusive (s.modify d fun dev => { dev with deviceStatus := .connected }) := by
    refine h.modify ?_ id
    exact .quiet hidle.1 hidle.2 (fun hat => by rcases hat with hat | hat <;> cases hat) (h.ok d).flag
  apply hconn.addTimerCallback
  · rw [DeviceTree.modify_self]
    exact hidle.1
  · rw [DeviceTree.modify_self]
    exact hidle.2
  · rw [DeviceTree.modify_self]
    rfl

theorem Exclusive.resetDone {opened : Bool} (h : Exclusive s)
    (hd : (s.dev d).deviceStatus = .resetPending) : Exclusive (resetDone d opened s) := by
  have hidle := (h.ok d).idle hd (by decide)
  have hflag : (s.dev d).resetFlag = true := (h.ok d).held (.inl hd)
  unfold Usbd.resetDone
  split
  · have hmod : Exclusive (s.modify d fun dev =>
        { dev with deviceStatus := .resetComplete, controlEp := true, functionDelay := 20 }) :=
      h.modify (.quiet hidle.1 hidle.2 (fun _ => hflag) (h.ok d).flag) id
    apply hmod.addTimerCallback
    · rw [DeviceTree.modify_self]
      exact hidle.1
    · rw [DeviceTree.modify_self]
      exact hidle.2
    · rw [DeviceTree.modify_self]
      rfl
  · exact h.modify (.quiet hidle.1 hidle.2 (fun _ => hflag) (h.ok d).flag) id

theorem Exclusive.rootPortUp {st : PortStatus} {opened : Bool} (h : Exclusive s) :
    Exclusive (rootPortUp d st opened s) := by
  unfold Usbd.rootPortUp
  split
  · exact h.portConnected ‹_›
  · split
    · exact h
    · exact h.resetDone ‹_›
  · exact h

theorem Exclusive.handleRhsc {st : PortStatus} {opened : Bool} (h : Exclusive s) :
    Exclusive (handleRhsc cfg d st opened s) := by
  unfold Usbd.handleRhsc
  split
  · split
    · exact (h.flushPort _ d).rootPortUp
    · exact h.rootPortUp
  · exact h.flushPort _ d

theorem Exclusive.hubPortStatus {st : PortStatus} {opened : Bool} (h : Exclusive s) :
    Exclusive (hubPortStatus cfg d st opened s) := by
  unfold Usbd.hubPortStatus
  split
  · split
    · exact h.portConnected ‹_›
    · split
      · exact h.resetDone ‹_›
      · exact h
    · exact h
  · exact h.flushPort _ d

theorem Exclusive.attachChildDevice {c : Nat} (h : Exclusive s)
    (hc : (s.dev c).deviceStatus = .notConnected) : Exclusive (attachChildDevice d c s) := by
  have hidle := (h.ok c).idle hc (by decide)
  have hnew : Exclusive (s.modify c fun dev =>
      { dev with
        deviceStatus := .notConnected, resetFlag := false, controlEp := false, children := [] }) :=
    h.modify (.quiet hidle.1 hidle.2 (fun hat => by rcases hat with hat | hat <;> cases hat) nofun) nofun
  exact hnew.modify { hnew.ok d with } id

/-! ## Addresses and descriptors -/

theorem Exclusive.hubSetFuncAddressCB {r : Transferred} (h : Exclusive s) (ht : (s.dev d).timer = none)
    (hr : (s.dev d).ioRequest = none) (hd : (s.dev d).deviceStatus = .resetComplete) :
    Exclusive (hubSetFuncAddressCB cfg d r s) := by
  have hflag : (s.dev d).resetFlag = true := (h.ok d).held (.inr hd)
  have hslow : Exclusive (s.modify d fun dev => { dev with functionDelay := dev.functionDelay * 2 }) :=
    h.modify { h.ok d with } id
  unfold Usbd.hubSetFuncAddressCB
  split
  · split
    · apply hslow.addTimerCallback
      · rw [DeviceTree.modify_self]
        exact ht
      · rw [DeviceTree.modify_self]
        exact hr
      · rw [DeviceTree.modify_self]
        exact hd
    · apply hslow.killDevice
      · intro e hed
        rw [DeviceTree.modify_ne _ s hed, Bool.eq_false_iff]
        exact fun he => hed (h.unique e d he hflag)
      · rw [DeviceTree.modify_self]
        exact fun he => by cases hd.symm.trans he
      · rw [DeviceTree.modify_self]
        exact ht
      · rw [DeviceTree.modify_self]
        exact hr
  · have hready : Exclusive (s.modify d fun dev => { dev with deviceStatus := .ready }) :=
      h.modify (.quiet ht hr (fun hat => by rcases hat with hat | hat <;> cases hat) (h.ok d).flag) id
    apply hready.addTimerCallback
    · rw [DeviceTree.modify_self]
      exact ht
    · rw [DeviceTree.modify_self]
      exact hr
    · rw [DeviceTree.modify_self]
      exact ⟨rfl, hflag⟩

theorem Exclusive.doControlTransfer {proc : IoProc} (h : Exclusive s) (ht : (s.dev d).timer = none)
    (hr : (s.dev d).ioRequest = none)
    (hproc : (s.dev d).deviceStatus = if proc = .setAddress then .resetComplete else .ready) :
    Exclusive (doControlTransfer d proc s) := by
  have hok := h.ok d
  have hset : ∀ proc', some ((s.dev d).ioRequest.getD proc) = some proc' → proc = proc' := by
    intro proc' he
    rw [hr] at he
    exact Option.some.inj he
  refine h.modify ?_ id
  exact
    { held := hok.held
      flag := hok.flag
      reset := hok.reset
      setAddress := hok.setAddress
      peek := hok.peek
      addressing := fun he => by
        obtain rfl := hset _ he
        exact hproc
      reading := fun he => by
        rcases he with he | he
        · obtain rfl := hset _ he
          exact hproc
        · obtain rfl := hset _ he
          exact hproc
      single := fun _ => ht }

/-- The device has its address and nothing else is under way for it. -/
structure Reading (d : Nat) (s : DeviceTree) : Prop where
  timer : (s.dev d).timer = none
  ioRequest : (s.dev d).ioRequest = none
  ready : (s.dev d).deviceStatus = .ready

theorem Reading.modify {f : Device → Device} (h : Reading d s)
    (hf : ∀ dev : Device, (f dev).timer = dev.timer ∧ (f dev).ioRequest = dev.ioRequest ∧
      (f dev).deviceStatus = dev.deviceStatus) : Reading d (s.modify d f) := by
  obtain ⟨htimer, hreq, hstatus⟩ := hf (s.dev d)
  constructor
  · rw [DeviceTree.modify_self, htimer]
    exact h.timer
  · rw [DeviceTree.modify_self, hreq]
    exact h.ioRequest
  · rw [DeviceTree.modify_self, hstatus]
    exact h.ready

/-- With the flag free, a device whose descriptors cannot be read is reset like any other. -/
theorem Exclusive.killReading (h : Exclusive s) (hd : Reading d s) (hlock : s.delayResets = false) :
    Exclusive (Usbd.killDevice cfg d s) := by
  apply h.killDevice
  · intro e _
    rw [Bool.eq_false_iff]
    intro he
    have hl := (h.ok e).flag he
    rw [hlock] at hl
    cases hl
  · rw [hd.ready]
    exact nofun
  · exact hd.timer
  · exact hd.ioRequest

theorem Exclusive.fetchNext {r : Transferred} {counter : Nat} (h : Exclusive s) (hd : Reading d s) :
    Exclusive (fetchNext cfg d r counter s) := by
  unfold Usbd.fetchNext
  extract_lets fetchDesc curDescNum descEnd readLen s'
  have hs' : Exclusive s' := h.modify { h.ok d with } id
  have hd' : Reading d s' := hd.modify fun _ => ⟨rfl, rfl, rfl⟩
  split
  · exact hs'
  · split
    · exact hs'.doControlTransfer hd'.timer hd'.ioRequest hd'.ready
    · exact hs'

theorem Exclusive.fetchConfigDescriptors {r : Transferred} (h : Exclusive s) (hd : Reading d s)
    (hlock : r.resultCode ≠ usbRcOk → s.delayResets = false) :
    Exclusive (fetchConfigDescriptors cfg d r s) := by
  unfold Usbd.fetchConfigDescriptors
  split
  · exact h.fetchNext hd
  · rename_i hfailed
    exact h.killReading hd (hlock fun e => hfailed (.inl e))

theorem Exclusive.requestDevDescrptCb {r : Transferred} (h : Exclusive s) (hd : Reading d s)
    (hlock : r.resultCode ≠ usbRcOk → s.delayResets = false) :
    Exclusive (requestDevDescrptCb cfg d r s) := by
  unfold Usbd.requestDevDescrptCb
  split
  · split
    · have hs' : Exclusive (s.modify d fun dev => { dev with descEnd := 0 }) := h.modify { h.ok d with } id
      have hd' : Reading d (s.modify d fun dev => { dev with descEnd := 0 }) :=
        hd.modify fun _ => ⟨rfl, rfl, rfl⟩
      exact hs'.doControlTransfer hd'.timer hd'.ioRequest hd'.ready
    · exact (h.modify { h.ok d with } id).fetchConfigDescriptors (hd.modify fun _ => ⟨rfl, rfl, rfl⟩) hlock
  · exact h.killReading hd (hlock ‹_›)

/-- The descriptors of a device cannot be read only while no device is being reset or
addressed. -/
def Unhurried (s : DeviceTree) : Event → Prop
  | .transfer d r => r.resultCode = usbRcOk ∨ (s.dev d).ioRequest = some .setAddress ∨
      s.delayResets = false
  | _ => True

theorem Exclusive.transferDone {proc : IoProc} {r : Transferred} (h : Exclusive s)
    (hproc : (s.dev d).ioRequest = some proc)
    (hlock : r.resultCode ≠ usbRcOk → proc ≠ .setAddress → s.delayResets = false) :
    Exclusive (transferDone cfg d proc r s) := by
  have hok := h.ok d
  have htimer : (s.dev d).timer = none := hok.single (by rw [hproc]; exact nofun)
  have hfree : Exclusive (s.modify d fun dev => { dev with ioRequest := none }) := by
    refine h.modify ?_ id
    exact .quiet htimer rfl hok.held hok.flag
  have hread : (s.dev d).deviceStatus = .ready →
      Reading d (s.modify d fun dev => { dev with ioRequest := none }) := by
    intro hready
    constructor
    · rw [DeviceTree.modify_self]
      exact htimer
    · rw [DeviceTree.modify_self]
    · rw [DeviceTree.modify_self]
      exact hready
  unfold Usbd.transferDone
  cases proc with
  | setAddress =>
      apply hfree.hubSetFuncAddressCB
      · rw [DeviceTree.modify_self]
        exact htimer
      · rw [DeviceTree.modify_self]
      · rw [DeviceTree.modify_self]
        exact hok.addressing hproc
  | deviceDescriptor =>
      exact hfree.requestDevDescrptCb (hread (hok.reading (.inl hproc))) fun e => hlock e nofun
  | configDescriptor =>
      exact hfree.fetchConfigDescriptors (hread (hok.reading (.inr hproc))) fun e => hlock e nofun

theorem Exclusive.timerExpired {proc : TimerProc} (h : Exclusive s)
    (hproc : (s.dev d).timer = some proc) : Exclusive (timerExpired cfg d proc s) := by
  have hok := h.ok d
  have hreq : (s.dev d).ioRequest = none := by
    by_contra hne
    have htimer := hok.single hne
    rw [hproc] at htimer
    cases htimer
  have hfree : Exclusive (s.modify d fun dev => { dev with timer := none }) := by
    refine h.modify ?_ id
    exact .quiet rfl hreq hok.held hok.flag
  unfold Usbd.timerExpired
  cases proc with
  | resetDevice =>
      have hbut : ExclusiveBut d (s.modify d fun dev => { dev with timer := none }) :=
        ⟨fun e _ => hfree.ok e, (hfree.ok d).flag, hfree.unique⟩
      apply hbut.hubResetDevice
      · rw [DeviceTree.modify_self]
      · rw [DeviceTree.modify_self]
        exact hreq
  | setFuncAddress =>
      apply hfree.doControlTransfer
      · rw [DeviceTree.modify_self]
      · rw [DeviceTree.modify_self]
        exact hreq
      · rw [DeviceTree.modify_self]
        exact hok.setAddress hproc
  | peekDeviceDescriptor =>
      obtain ⟨hready, hflag⟩ := hok.peek hproc
      have hd : Reading d (s.modify d fun dev => { dev with timer := none }) := by
        constructor
        · rw [DeviceTree.modify_self]
        · rw [DeviceTree.modify_self]
          exact hreq
        · rw [DeviceTree.modify_self]
          exact hready
      have hd' := hd.modify (f := fun dev => { dev with descEnd := 0 }) fun _ => ⟨rfl, rfl, rfl⟩
      have hs' : Exclusive ((s.modify d fun dev => { dev with timer := none }).modify d
          fun dev => { dev with descEnd := 0 }) := hfree.modify { hfree.ok d with } id
      have hsent : Exclusive (Usbd.doControlTransfer d .deviceDescriptor _) :=
        hs'.doControlTransfer hd'.timer hd'.ioRequest hd'.ready
      apply hsent.checkDelayedResets
      · simpa [Usbd.doControlTransfer] using hflag
      · simp [Usbd.doControlTransfer, Device.AtDefault, hready]
      · simp [Usbd.doControlTransfer, hready]
      · simp [Usbd.doControlTransfer]

/-! ## Every run -/

theorem exclusive_invariant : (deviceTree cfg).Invariant Unhurried Exclusive where
  init := by
    intro s h
    have hflag : ∀ d, (s.dev d).resetFlag ≠ true := fun d e => by cases (h.idle d).2.1.symm.trans e
    constructor
    · intro d
      obtain ⟨hstatus, -, htimer, hreq⟩ := h.idle d
      refine .quiet htimer hreq ?_ fun e => absurd e (hflag d)
      rintro (hat | hat) <;> rw [hstatus] at hat <;> cases hat
    · intro d e he
      exact absurd he (hflag d)
  step := by
    intro s e t _ h ok hstep
    cases hstep with
    | rootPort hd => exact h.handleRhsc
    | hubPort hub hd => exact h.hubPortStatus
    | newPort hub hfree hd => exact h.attachChildDevice hd
    | timer hproc => exact h.timerExpired hproc
    | @transfer d r proc hproc =>
        refine h.transferDone hproc fun hfailed hother => ?_
        rcases ok with hok | hok | hok
        · exact absurd hok hfailed
        · rw [hproc] at hok
          exact absurd (Option.some.inj hok) hother
        · exact hok

theorem single_default_address (h : (deviceTree cfg).Reachable Unhurried s) :
    (∀ d e, (s.dev d).AtDefault → (s.dev e).AtDefault → d = e) ∧
      ∀ d, (s.dev d).AtDefault → s.delayResets = true := by
  have hex := exclusive_invariant.holds h
  constructor
  · intro d e hd he
    exact hex.unique d e ((hex.ok d).held hd) ((hex.ok e).held he)
  · intro d hd
    exact (hex.ok d).flag ((hex.ok d).held hd)

/-! ## Two ports -/

def smallConfig : UsbConfig := ⟨4, 512⟩

def emptyPort : Device := ⟨.notConnected, false, none, none, false, 0, 0, 0, []⟩

def twoPorts : DeviceTree := ⟨fun _ => emptyPort, [1, 2], false⟩

theorem twoPorts_powered : Powered twoPorts := ⟨fun _ => ⟨rfl, rfl, rfl, rfl⟩, rfl⟩

def portUp : PortStatus := ⟨true, false, false, true⟩

def answered (code : Nat) : Transferred := ⟨code, 18, 0, 1⟩

/-- The device in port 1 has been given its address. -/
def firstAddressed : DeviceTree :=
  transferDone smallConfig 1 .setAddress (answered 0) (timerExpired smallConfig 1 .setFuncAddress
    (handleRhsc smallConfig 1 portUp true (timerExpired smallConfig 1 .resetDevice
      (handleRhsc smallConfig 1 portUp true twoPorts))))

/-- The device in port 2 is waiting for its reset. -/
def secondWaiting : DeviceTree :=
  timerExpired smallConfig 2 .resetDevice (handleRhsc smallConfig 2 portUp true firstAddressed)

/-- The descriptor of the first device is asked for, and the second device is reset. -/
def secondReset : DeviceTree := timerExpired smallConfig 1 .peekDeviceDescriptor secondWaiting

theorem secondReset_reachable : (deviceTree smallConfig).Reachable Unhurried secondReset := by
  have hup : ∀ (s : DeviceTree) (d : Nat), s.rootPorts = [1, 2] → d = 1 ∨ d = 2 →
      (deviceTree smallConfig).Reachable Unhurried s →
      (deviceTree smallConfig).Reachable Unhurried (handleRhsc smallConfig d portUp true s) := by
    intro s d hroot hd h
    have hstep : Step smallConfig s (.rootPort d portUp true) (handleRhsc smallConfig d portUp true s) :=
      .rootPort (by rw [hroot]; simpa using hd)
    exact h.next (show Unhurried s (.rootPort d portUp true) from trivial) hstep
  have htimer : ∀ (s : DeviceTree) (d : Nat) (proc : TimerProc), (s.dev d).timer = some proc →
      (deviceTree smallConfig).Reachable Unhurried s →
      (deviceTree smallConfig).Reachable Unhurried (timerExpired smallConfig d proc s) := by
    intro s d proc hproc h
    have hstep : Step smallConfig s (.timer d) (timerExpired smallConfig d proc s) := .timer hproc
    exact h.next (show Unhurried s (.timer d) from trivial) hstep
  have haddress : ∀ s : DeviceTree, (s.dev 1).ioRequest = some .setAddress →
      (deviceTree smallConfig).Reachable Unhurried s → (deviceTree smallConfig).Reachable Unhurried
        (transferDone smallConfig 1 .setAddress (answered 0) s) := by
    intro s hreq h
    have hstep : Step smallConfig s (.transfer 1 (answered 0))
        (transferDone smallConfig 1 .setAddress (answered 0) s) := .transfer hreq
    exact h.next (show Unhurried s (.transfer 1 (answered 0)) from .inl rfl) hstep
  apply htimer _ _ _ (by decide)
  apply htimer _ _ _ (by decide)
  apply hup _ _ (by decide) (by decide)
  apply haddress _ (by decide)
  apply htimer _ _ _ (by decide)
  apply hup _ _ (by decide) (by decide)
  apply htimer _ _ _ (by decide)
  apply hup _ _ (by decide) (by decide)
  exact .init twoPorts_powered

theorem single_default_address_second : (secondReset.dev 2).AtDefault ∧
    (∀ d e, (secondReset.dev d).AtDefault → (secondReset.dev e).AtDefault → d = e) ∧
    ∀ d, (secondReset.dev d).AtDefault → secondReset.delayResets = true :=
  ⟨.inl (by decide), single_default_address secondReset_reachable⟩

/-- The descriptor of the first device cannot be read while the second one is being reset:
now both answer at the default address. -/
theorem two_at_default : ∃ s, (deviceTree smallConfig).Reachable (fun _ _ => True) s ∧
    (s.dev 1).AtDefault ∧ (s.dev 2).AtDefault := by
  have hstep : Step smallConfig secondReset (.transfer 1 (answered 4))
      (transferDone smallConfig 1 .deviceDescriptor (answered 4) secondReset) := .transfer (by decide)
  refine ⟨_, (secondReset_reachable.weaken fun _ _ _ => trivial).next trivial hstep, ?_, ?_⟩
  · exact .inl (by decide)
  · exact .inl (by decide)

end BdmAssault.Usbd
