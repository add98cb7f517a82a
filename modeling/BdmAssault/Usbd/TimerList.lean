import BdmAssault.Lib.DeltaList
import BdmAssault.Lib.LinkedList

/-! # The timer list

`addTimerCallback`, `cancelTimerCallback` and `handleTimerList` of the USB stack. A timer is in
one doubly linked list, with a count of frames from the timer before it.
-/

namespace BdmAssault.Usbd.Timers

open Lib

/-- `TimerCbStruct`; `callback` is the function with its argument. -/
structure TimerCb (T C : Type) where
  isActive : Bool
  prev : Option T
  next : Option T
  callback : C
  delayCount : UInt32

/-- `sofInterrupt` is the interrupt of each frame, in which the list is handled. -/
structure TimerPool (T C : Type) where
  timer : T → TimerCb T C
  timerListStart : Option T
  timerListEnd : Option T
  sofInterrupt : Bool

section Model

variable {T C : Type} [DecidableEq T]

namespace TimerPool

def modify (t : T) (f : TimerCb T C → TimerCb T C) (s : TimerPool T C) : TimerPool T C :=
  { s with timer := Function.update s.timer t (f (s.timer t)) }

/-- `if (a) a->next = v; else memPool.timerListStart = v;` -/
def setNext (a v : Option T) (s : TimerPool T C) : TimerPool T C :=
  match a with
  | some t => s.modify t fun cb => { cb with next := v }
  | none => { s with timerListStart := v }

/-- `if (a) a->prev = v; else memPool.timerListEnd = v;` -/
def setPrev (a v : Option T) (s : TimerPool T C) : TimerPool T C :=
  match a with
  | some t => s.modify t fun cb => { cb with prev := v }
  | none => { s with timerListEnd := v }

/-- `delayCount -= delay`. -/
def shorten (t : T) (delay : UInt32) (s : TimerPool T C) : TimerPool T C :=
  s.modify t fun cb => { cb with delayCount := cb.delayCount - delay }

end TimerPool

open TimerPool

def cancelTimerCallback (arg : T) (s : TimerPool T C) : Int × TimerPool T C :=
  if (s.timer arg).isActive then
    let s := s.setPrev (s.timer arg).next (s.timer arg).prev
    let s := s.setNext (s.timer arg).prev (s.timer arg).next
    (0, s.modify arg fun cb => { cb with prev := none, next := none, isActive := false })
  else (-1, s)

/-- The loop that looks for the timer to insert before. -/
def findTimer (s : TimerPool T C) : Nat → Option T → UInt32 → Option (Option T × UInt32)
  | 0, _, _ => none
  | _ + 1, none, delay => some (none, delay)
  | fuel + 1, some pos, delay =>
      if (s.timer pos).delayCount < delay then
        findTimer s fuel (s.timer pos).next (delay - (s.timer pos).delayCount)
      else some (some pos, delay)

/-- Before `pos`, or behind the last timer. -/
def linkTimer (arg : T) (pos : Option T) (delay : UInt32) (s : TimerPool T C) : TimerPool T C :=
  match pos with
  | some pos =>
      let s := s.setPrev arg (s.timer pos).prev
      let s := s.setNext (s.timer pos).prev arg
      let s := s.setNext arg (some pos)
      let s := s.setPrev (some pos) arg
      s.shorten pos delay
  | none =>
      let s := s.setPrev arg s.timerListEnd
      let s := s.setNext s.timerListEnd arg
      let s := { s with timerListEnd := some arg }
      s.setNext arg none

/-- `none` is a search that has not come to its end. -/
def addTimerCallback (fuel : Nat) (arg : T) (callback : C) (delay : UInt32) (s : TimerPool T C) :
    Option (Int × TimerPool T C) :=
  if (s.timer arg).isActive then some (-1, s)
  else do
    let s := s.modify arg fun cb => { cb with isActive := true, callback }
    let (pos, delay) ← findTimer s fuel s.timerListStart delay
    let s := linkTimer arg pos delay s
    let s := s.modify arg fun cb => { cb with delayCount := delay }
    return (0, { s with sofInterrupt := true })

/-! ## The tick -/

/-- What `handleTimerList` does first. -/
def countDown (s : TimerPool T C) : TimerPool T C :=
  match s.timerListStart with
  | some timer => if 0 < (s.timer timer).delayCount then s.shorten timer 1 else s
  | none => s

/-- The condition of its loop. -/
def expired (s : TimerPool T C) : Option T :=
  match s.timerListStart with
  | some timer => if (s.timer timer).delayCount = 0 then some timer else none
  | none => none

/-- The body of its loop, without the call of the callback. -/
def takeTimer (timer : T) (s : TimerPool T C) : TimerPool T C :=
  let s := s.setNext none (s.timer timer).next
  let s := s.setPrev (s.timer timer).next none
  s.modify timer fun cb => { cb with prev := none, next := none, isActive := false }

/-- What it does last. -/
def stopTicks (s : TimerPool T C) : TimerPool T C :=
  if s.timerListStart = none then { s with sofInterrupt := false } else s

def timerLoop (call : C → TimerPool T C → Option (TimerPool T C)) : Nat → TimerPool T C → Option (TimerPool T C)
  | 0, _ => none
  | fuel + 1, s =>
      match expired s with
      | some timer => do
          let s := takeTimer timer s
          let s ← call (s.timer timer).callback s
          timerLoop call fuel s
      | none => some s

/-- `call` is what the callbacks do to the list. -/
def handleTimerList (call : C → TimerPool T C → Option (TimerPool T C)) (fuel : Nat) (s : TimerPool T C) :
    Option (TimerPool T C) := do
  let s ← timerLoop call fuel (countDown s)
  return stopTicks s

/-! ## The list -/

def TimerPool.nextOf (s : TimerPool T C) : Option T → Option T
  | some t => (s.timer t).next
  | none => s.timerListStart

def TimerPool.prevOf (s : TimerPool T C) : Option T → Option T
  | some t => (s.timer t).prev
  | none => s.timerListEnd

/-- The links of the timers, with those of the pool for the list itself. -/
def TimerPool.links (s : TimerPool T C) : Links T := ⟨s.nextOf, s.prevOf⟩

/-- The counts along a list. -/
def TimerPool.entries (s : TimerPool T C) (l : List T) : List (T × Nat) :=
  l.map fun t => (t, (s.timer t).delayCount.toNat)

/-- The timers are the ones in `l`, and ticks come as long as there are any. -/
structure TimerPool.Holds (s : TimerPool T C) (l : List T) : Prop where
  chains : s.links.Chains l
  active : ∀ t, (s.timer t).isActive = true ↔ t ∈ l
  ticks : l ≠ [] → s.sofInterrupt = true

section Links

variable {s : TimerPool T C} {l : List T} {t u : T} {f : TimerCb T C → TimerCb T C} {a v : Option T}

theorem modify_timer (t : T) (f : TimerCb T C → TimerCb T C) (s : TimerPool T C) (u : T) :
    (s.modify t f).timer u = if u = t then f (s.timer t) else s.timer u := Function.update_apply _ _ _ _

/-- A field that `f` leaves as it is. -/
theorem modify_field {β : Type} {g : TimerCb T C → β} (hg : ∀ cb, g (f cb) = g cb) (u : T) :
    g ((s.modify t f).timer u) = g (s.timer u) := by
  rw [modify_timer]
  split
  · rename_i hu
    rw [hg, hu]
  · rfl

theorem links_modify (hnext : ∀ cb, (f cb).next = cb.next) (hprev : ∀ cb, (f cb).prev = cb.prev) :
    (s.modify t f).links = s.links := by
  unfold TimerPool.links
  congr 1
  · funext b
    cases b with
    | none => rfl
    | some u => exact modify_field hnext u
  · funext b
    cases b with
    | none => rfl
    | some u => exact modify_field hprev u

theorem links_setNext (a v : Option T) (s : TimerPool T C) : (s.setNext a v).links = s.links.setNext a v := by
  unfold TimerPool.links Links.setNext
  congr 1
  · funext b
    rw [Function.update_apply]
    cases a with
    | none => cases b <;> rfl
    | some t =>
        cases b with
        | none => rfl
        | some u =>
            show ((s.modify t fun cb => { cb with next := v }).timer u).next = _
            rw [modify_timer, apply_ite TimerCb.next]
            simp only [Option.some.injEq]
            rfl
  · funext b
    cases a with
    | none => cases b <;> rfl
    | some t =>
        cases b with
        | none => rfl
        | some u => exact modify_field (f := fun cb => { cb with next := v }) (g := TimerCb.prev) (fun _ => rfl) u

theorem links_setPrev (a v : Option T) (s : TimerPool T C) : (s.setPrev a v).links = s.links.setPrev a v := by
  unfold TimerPool.links Links.setPrev
  congr 1
  · funext b
    cases a with
    | none => cases b <;> rfl
    | some t =>
        cases b with
        | none => rfl
        | some u => exact modify_field (f := fun cb => { cb with prev := v }) (g := TimerCb.next) (fun _ => rfl) u
  · funext b
    rw [Function.update_apply]
    cases a with
    | none => cases b <;> rfl
    | some t =>
        cases b with
        | none => rfl
        | some u =>
            show ((s.modify t fun cb => { cb with prev := v }).timer u).prev = _
            rw [modify_timer, apply_ite TimerCb.prev]
            simp only [Option.some.injEq]
            rfl

/-- What is not a link of a timer. -/
def TimerCb.data (cb : TimerCb T C) : Bool × C × UInt32 := (cb.isActive, cb.callback, cb.delayCount)

theorem setNext_data (a v : Option T) (s : TimerPool T C) (u : T) :
    ((s.setNext a v).timer u).data = (s.timer u).data := by
  cases a with
  | none => rfl
  | some t => exact modify_field (f := fun cb => { cb with next := v }) (g := TimerCb.data) (fun _ => rfl) u

theorem setPrev_data (a v : Option T) (s : TimerPool T C) (u : T) :
    ((s.setPrev a v).timer u).data = (s.timer u).data := by
  cases a with
  | none => rfl
  | some t => exact modify_field (f := fun cb => { cb with prev := v }) (g := TimerCb.data) (fun _ => rfl) u

theorem setNext_sofInterrupt (a v : Option T) (s : TimerPool T C) : (s.setNext a v).sofInterrupt = s.sofInterrupt := by
  cases a <;> rfl

theorem setPrev_sofInterrupt (a v : Option T) (s : TimerPool T C) : (s.setPrev a v).sofInterrupt = s.sofInterrupt := by
  cases a <;> rfl

/-- The last writes to a timer that leaves the list. -/
def TimerPool.release (t : T) (s : TimerPool T C) : TimerPool T C :=
  s.modify t fun cb => { cb with prev := none, next := none, isActive := false }

theorem links_release (t : T) (s : TimerPool T C) :
    (s.release t).links = (s.links.setPrev t none).setNext t none := by
  have heq : s.release t = ((s.setPrev t none).setNext t none).modify t fun cb => { cb with isActive := false } := by
    simp only [TimerPool.release, TimerPool.modify, setPrev, setNext, Function.update_self, Function.update_idem]
  rw [heq, ← links_setPrev, ← links_setNext]
  exact links_modify (f := fun cb => { cb with isActive := false }) (fun _ => rfl) fun _ => rfl

end Links

/-! ## What the functions do to the list -/

section Operations

variable {s s' : TimerPool T C} {l front back : List T} {t arg : T} {c : C} {delay : UInt32}

/-- The timer `t` is the only one whose data may have been changed, and it is not active. -/
def TimerPool.Released (t : T) (s s' : TimerPool T C) : Prop :=
  (∀ u, (s'.timer u).isActive = true ↔ (s.timer u).isActive = true ∧ u ≠ t) ∧
    (∀ u, (s'.timer u).callback = (s.timer u).callback) ∧ (∀ u, (s'.timer u).delayCount = (s.timer u).delayCount) ∧
    s'.sofInterrupt = s.sofInterrupt

theorem released (hdata : ∀ u, (s'.timer u).data = (s.timer u).data) (hsof : s'.sofInterrupt = s.sofInterrupt) :
    s.Released t (s'.release t) := by
  have hrelease (u : T) : ((s'.release t).timer u).callback = (s'.timer u).callback ∧
      ((s'.release t).timer u).delayCount = (s'.timer u).delayCount :=
    Prod.mk.inj (modify_field (f := fun cb => { cb with prev := none, next := none, isActive := false })
      (g := fun cb => (cb.callback, cb.delayCount)) (fun _ => rfl) u)
  refine ⟨fun u => ?_, fun u => ?_, fun u => ?_, hsof⟩
  · have hactive : (s'.timer u).isActive = (s.timer u).isActive := congrArg Prod.fst (hdata u)
    unfold TimerPool.release
    rw [modify_timer, ← hactive]
    by_cases hu : u = t
    · rw [if_pos hu]
      exact ⟨nofun, fun h => absurd hu h.2⟩
    · rw [if_neg hu]
      exact ⟨fun h => ⟨h, hu⟩, And.left⟩
  · rw [(hrelease u).1]
    exact congrArg (fun x => x.2.1) (hdata u)
  · rw [(hrelease u).2]
    exact congrArg (fun x => x.2.2) (hdata u)

omit [DecidableEq T] in
theorem TimerPool.Released.entries (h : s.Released t s') (l : List T) : s'.entries l = s.entries l := by
  unfold TimerPool.entries
  simp only [h.2.2.1]

theorem TimerPool.Released.holds (h : s.Released t s') (hs : s.Holds (front ++ t :: back))
    (hlinks : s'.links = s.links.remove t) : s'.Holds (front ++ back) where
  chains := hlinks ▸ hs.chains.remove
  active u := by
    have hnot : t ∉ front ++ back := (List.nodup_middle.mp hs.chains.nodup).notMem
    rw [h.1, hs.active, List.mem_append, List.mem_cons, List.mem_append]
    constructor
    · rintro ⟨hfront | rfl | hback, hu⟩
      · exact .inl hfront
      · exact absurd rfl hu
      · exact .inr hback
    · intro hmem
      refine ⟨hmem.imp_right .inr, fun hu => ?_⟩
      exact hnot (hu ▸ List.mem_append.mpr hmem)
  ticks _ := h.2.2.2.trans (hs.ticks (List.append_ne_nil_of_right_ne_nil _ (List.cons_ne_nil _ _)))

/-- A timer that is released when its neighbours do without it. -/
theorem release_holds (h : s.Holds (front ++ t :: back)) (hdata : ∀ u, (s'.timer u).data = (s.timer u).data)
    (hsof : s'.sofInterrupt = s.sofInterrupt) (hlinks : (s'.links.setPrev t none).setNext t none = s.links.remove t) :
    (s'.release t).Holds (front ++ back) ∧ s.Released t (s'.release t) :=
  have hreleased := released hdata hsof
  ⟨hreleased.holds h ((links_release t s').trans hlinks), hreleased⟩

theorem cancelTimerCallback_holds (h : s.Holds (front ++ t :: back)) :
    ∃ s', cancelTimerCallback t s = (0, s') ∧ s'.Holds (front ++ back) ∧ s.Released t s' := by
  have hactive : (s.timer t).isActive = true := (h.active t).mpr (List.mem_append_right _ List.mem_cons_self)
  unfold cancelTimerCallback
  rw [if_pos hactive]
  refine ⟨_, rfl, release_holds h (fun u => (setNext_data _ _ _ u).trans (setPrev_data _ _ _ u)) ?_ ?_⟩
  · exact (setNext_sofInterrupt _ _ _).trans (setPrev_sofInterrupt _ _ _)
  · rw [links_setNext]
    generalize hs' : s.setPrev (s.timer t).next (s.timer t).prev = s'
    have hlinks : s'.links = s.links.setPrev (s.links.next t) (s.links.prev t) := hs' ▸ links_setPrev _ _ s
    show ((s'.links.setNext (s'.links.prev t) (s'.links.next t)).setPrev t none).setNext t none = _
    rw [hlinks]
    rfl

theorem takeTimer_holds (h : s.Holds (t :: back)) : (takeTimer t s).Holds back ∧ s.Released t (takeTimer t s) := by
  have hnext : s.links.next t = back.head? := h.chains.next [t] back rfl
  have h' : s.Holds ([] ++ t :: back) := h
  refine release_holds h' (fun u => (setPrev_data _ _ _ u).trans (setNext_data _ _ _ u)) ?_ ?_
  · exact (setPrev_sofInterrupt _ _ _).trans (setNext_sofInterrupt _ _ _)
  · rw [links_setPrev, links_setNext, h'.chains.remove_eq]
    show (((s.links.setNext none (s.links.next t)).setPrev (s.links.next t) none).setPrev t none).setNext t none = _
    rw [hnext]
    rfl

omit [DecidableEq T] in
theorem start_eq (h : s.Holds l) : s.timerListStart = l.head? := h.chains.next [] l rfl

/-- Only a count is changed. -/
theorem shorten_holds (h : s.Holds l) (t : T) (delay : UInt32) : (s.shorten t delay).Holds l where
  chains := by
    have hlinks : (s.shorten t delay).links = s.links := links_modify (fun _ => rfl) fun _ => rfl
    exact hlinks ▸ h.chains
  active u := by
    have hactive : ((s.shorten t delay).timer u).isActive = (s.timer u).isActive :=
      modify_field (f := fun cb => { cb with delayCount := cb.delayCount - delay }) (fun _ => rfl) u
    rw [hactive]
    exact h.active u
  ticks := h.ticks

theorem shorten_delayCount (t : T) (delay : UInt32) (s : TimerPool T C) (u : T) :
    ((s.shorten t delay).timer u).delayCount =
      if u = t then (s.timer t).delayCount - delay else (s.timer u).delayCount := by
  unfold shorten
  rw [modify_timer, apply_ite TimerCb.delayCount]

theorem shorten_callback (t : T) (delay : UInt32) (s : TimerPool T C) (u : T) :
    ((s.shorten t delay).timer u).callback = (s.timer u).callback :=
  modify_field (f := fun cb => { cb with delayCount := cb.delayCount - delay }) (fun _ => rfl) u

/-- Of the counts along a list, the first is changed. -/
theorem shorten_entries (hnodup : (t :: back).Nodup) (hle : delay ≤ (s.timer t).delayCount) :
    (s.shorten t delay).entries (t :: back) = (t, (s.timer t).delayCount.toNat - delay.toNat) :: s.entries back := by
  obtain ⟨hnot, -⟩ := List.nodup_cons.mp hnodup
  unfold TimerPool.entries
  rw [List.map_cons, shorten_delayCount, if_pos rfl, UInt32.toNat_sub_of_le _ _ hle]
  refine congrArg _ (List.map_congr_left fun u hu => ?_)
  rw [shorten_delayCount, if_neg fun heq : u = t => hnot (heq ▸ hu)]

theorem countDown_holds (h : s.Holds l) :
    (countDown s).Holds l ∧ (countDown s).entries l = DeltaList.countDown (s.entries l) ∧
      ∀ u, ((countDown s).timer u).callback = (s.timer u).callback := by
  unfold countDown
  rw [start_eq h]
  cases l with
  | nil => exact ⟨h, rfl, fun _ => rfl⟩
  | cons t back =>
      dsimp only [List.head?_cons]
      split
      · rename_i hpos
        have hone : (1 : UInt32) ≤ (s.timer t).delayCount := by
          rw [UInt32.lt_iff_toNat_lt] at hpos
          exact UInt32.le_iff_toNat_le.mpr hpos
        exact ⟨shorten_holds h t 1, shorten_entries h.chains.nodup hone, shorten_callback t 1 s⟩
      · rename_i hzero
        refine ⟨h, ?_, fun _ => rfl⟩
        have hzero : (s.timer t).delayCount.toNat = 0 := by
          rw [UInt32.lt_iff_toNat_lt, UInt32.toNat_zero] at hzero
          omega
        show (t, (s.timer t).delayCount.toNat) :: s.entries back = (t, (s.timer t).delayCount.toNat - 1) :: s.entries back
        rw [hzero]

omit [DecidableEq T] in
theorem stopTicks_holds (h : s.Holds l) : (stopTicks s).Holds l ∧ (stopTicks s).timer = s.timer := by
  unfold stopTicks
  split
  · rename_i hstart
    rw [start_eq h, List.head?_eq_none_iff] at hstart
    exact ⟨⟨h.chains, h.active, fun hne => absurd hstart hne⟩, rfl⟩
  · exact ⟨h, rfl⟩

omit [DecidableEq T] in
theorem expired_eq_none (h : s.Holds l) (hexpired : expired s = none) :
    ∀ e, (s.entries l).head? = some e → e.2 ≠ 0 := by
  intro e he
  cases l with
  | nil => exact absurd he nofun
  | cons t back =>
      obtain rfl := Option.some.inj he
      unfold expired at hexpired
      rw [start_eq h] at hexpired
      intro hzero
      exact absurd (hexpired.symm.trans (if_pos (UInt32.toNat_inj.mp hzero))) nofun

omit [DecidableEq T] in
theorem expired_eq_some (h : s.Holds l) (hexpired : expired s = some t) :
    ∃ back, l = t :: back ∧ (s.timer t).delayCount.toNat = 0 := by
  unfold expired at hexpired
  rw [start_eq h] at hexpired
  cases l with
  | nil => exact absurd hexpired nofun
  | cons u back =>
      dsimp only [List.head?_cons] at hexpired
      split at hexpired
      · rename_i hzero
        obtain rfl := Option.some.inj hexpired
        exact ⟨back, rfl, congrArg UInt32.toNat hzero⟩
      · exact absurd hexpired nofun

/-! Adding -/

omit [DecidableEq T] in
theorem findTimer_mono {fuel fuel' : Nat} (hle : fuel ≤ fuel') {pos : Option T} {r : Option T × UInt32}
    (h : findTimer s fuel pos delay = some r) : findTimer s fuel' pos delay = some r := by
  induction fuel generalizing fuel' pos delay with
  | zero => exact absurd h nofun
  | succ fuel ih =>
      obtain ⟨fuel', rfl⟩ := Nat.exists_eq_add_one_of_ne_zero (show fuel' ≠ 0 by omega)
      cases pos with
      | none => exact h
      | some t =>
          unfold findTimer at h ⊢
          split at h
          · rename_i hlt
            rw [if_pos hlt]
            exact ih (Nat.le_of_succ_le_succ hle) h
          · rename_i hlt
            rw [if_neg hlt]
            exact h

theorem addTimerCallback_mono {fuel fuel' : Nat} (hle : fuel ≤ fuel') {r : Int × TimerPool T C}
    (h : addTimerCallback fuel arg c delay s = some r) : addTimerCallback fuel' arg c delay s = some r := by
  unfold addTimerCallback at h ⊢
  split at h
  · rename_i hactive
    rw [if_pos hactive]
    exact h
  · rename_i hinactive
    rw [if_neg hinactive]
    dsimp only at h ⊢
    obtain ⟨x, hfind, hrest⟩ := Option.bind_eq_some_iff.mp h
    exact Option.bind_eq_some_iff.mpr ⟨x, findTimer_mono hle hfind, hrest⟩

omit [DecidableEq T] in
/-- The loop stops where a delta list is inserted into. -/
theorem findTimer_spec (hchains : s.links.Chains (front ++ back)) {fuel : Nat} (hfuel : back.length < fuel) (arg : T)
    (delay : UInt32) :
    ∃ mid rest delay', back = mid ++ rest ∧ findTimer s fuel back.head? delay = some (rest.head?, delay') ∧
      (∀ t, rest.head? = some t → delay' ≤ (s.timer t).delayCount) ∧
      DeltaList.insert arg delay.toNat (s.entries back) = s.entries mid ++ DeltaList.insert arg delay'.toNat (s.entries rest) := by
  induction back generalizing front fuel delay with
  | nil =>
      obtain ⟨fuel, rfl⟩ := Nat.exists_eq_add_one_of_ne_zero (show fuel ≠ 0 by omega)
      exact ⟨[], [], delay, rfl, rfl, nofun, rfl⟩
  | cons t back ih =>
      obtain ⟨fuel, rfl⟩ := Nat.exists_eq_add_one_of_ne_zero (show fuel ≠ 0 by omega)
      rw [List.head?_cons]
      unfold findTimer
      by_cases hlt : (s.timer t).delayCount < delay
      · have hcut : front ++ t :: back = (front ++ [t]) ++ back := List.append_cons front t back
        have hnext : (s.timer t).next = back.head? := by
          have hnext := hchains.next _ _ hcut
          rwa [List.getLast?_append_of_ne_nil _ (List.cons_ne_nil t [])] at hnext
        obtain ⟨mid, rest, delay', rfl, hfind, hle, hinsert⟩ :=
          ih (hcut ▸ hchains) (Nat.lt_of_succ_lt_succ hfuel) (delay - (s.timer t).delayCount)
        refine ⟨t :: mid, rest, delay', rfl, ?_, hle, ?_⟩
        · rw [if_pos hlt, hnext, hfind]
        · rw [UInt32.toNat_sub_of_le _ _ (UInt32.le_of_lt hlt)] at hinsert
          show DeltaList.insert arg delay.toNat ((t, _) :: s.entries (mid ++ rest)) = (t, _) :: (s.entries mid ++ _)
          rw [DeltaList.insert, if_pos (UInt32.lt_iff_toNat_lt.mp hlt), hinsert]
      · refine ⟨[], t :: back, delay, rfl, if_neg hlt, fun u hu => ?_, rfl⟩
        obtain rfl := Option.some.inj hu
        exact UInt32.not_lt.mp hlt

theorem linkTimer_links (hchains : s.links.Chains (front ++ back)) (harg : arg ∉ back) :
    (linkTimer arg back.head? delay s).links = s.links.insert arg front.getLast? back.head? := by
  have hprev : s.links.prev back.head? = front.getLast? := hchains.prev front back rfl
  cases back with
  | nil =>
      have hend : s.timerListEnd = front.getLast? := hprev
      dsimp only [List.head?_nil, linkTimer]
      rw [links_setNext]
      show ((((s.setPrev arg s.timerListEnd).setNext s.timerListEnd arg).setPrev none arg).links).setNext arg none = _
      rw [links_setPrev, links_setNext, links_setPrev, hend]
      rfl
  | cons pos rest =>
      have hpos : (s.timer pos).prev = front.getLast? := hprev
      have hread : ((s.setPrev arg front.getLast?).timer pos).prev = front.getLast? := by
        have hne : some pos ≠ some arg := fun heq => harg (Option.some.inj heq ▸ List.mem_cons_self)
        have hlink := congrFun (congrArg Links.prev (links_setPrev (some arg) front.getLast? s)) (some pos)
        rw [Links.setPrev_prev, if_neg hne] at hlink
        exact hlink.trans hpos
      dsimp only [List.head?_cons, linkTimer]
      rw [hpos, hread]
      refine (links_modify (f := fun cb => { cb with delayCount := cb.delayCount - delay }) (fun _ => rfl)
        fun _ => rfl).trans ?_
      rw [links_setPrev, links_setNext, links_setNext, links_setPrev]
      rfl

theorem linkTimer_data (arg : T) (pos : Option T) (delay : UInt32) (s : TimerPool T C) (u : T) :
    ((linkTimer arg pos delay s).timer u).data = ((s.timer u).isActive, (s.timer u).callback,
      if pos = some u then (s.timer u).delayCount - delay else (s.timer u).delayCount) := by
  cases pos with
  | none =>
      dsimp only [linkTimer]
      rw [setNext_data]
      exact (setNext_data _ _ _ u).trans (setPrev_data _ _ _ u)
  | some pos =>
      have hlinked (t : T) (a b c : Option T) : (((((s.setPrev arg a).setNext b arg).setNext arg c).setPrev pos arg).timer
          t).data = (s.timer t).data :=
        (setPrev_data _ _ _ t).trans ((setNext_data _ _ _ t).trans ((setNext_data _ _ _ t).trans (setPrev_data _ _ _ t)))
      dsimp only [linkTimer]
      unfold shorten
      rw [modify_timer]
      by_cases hu : u = pos
      · subst hu
        rw [if_pos rfl, if_pos rfl]
        have hdata := hlinked u (s.timer u).prev ((s.setPrev arg (s.timer u).prev).timer u).prev (some u)
        exact congrArg (fun d => (d.1, d.2.1, d.2.2 - delay)) hdata
      · rw [if_neg hu, if_neg fun heq => hu (Option.some.inj heq).symm]
        exact hlinked u _ _ _

/-- The counts after `arg` has been put in between. -/
theorem linkTimer_entries {mid rest : List T} (hnodup : (mid ++ arg :: rest).Nodup)
    (hle : ∀ t, rest.head? = some t → delay ≤ (s.timer t).delayCount)
    (hcount : ∀ u, (s'.timer u).delayCount = if u = arg then delay else
      if rest.head? = some u then (s.timer u).delayCount - delay else (s.timer u).delayCount) :
    s'.entries (mid ++ arg :: rest) = s.entries mid ++ DeltaList.insert arg delay.toNat (s.entries rest) := by
  obtain ⟨-, hrest, hdisjoint⟩ := List.nodup_append'.mp hnodup
  obtain ⟨harg, hrest⟩ := List.nodup_cons.mp hrest
  have hsame (u : T) (hu : u ≠ arg) (hhead : rest.head? ≠ some u) :
      (s'.timer u).delayCount = (s.timer u).delayCount := by
    rw [hcount, if_neg hu, if_neg hhead]
  unfold TimerPool.entries at *
  rw [List.map_append, List.map_cons, hcount arg, if_pos rfl]
  refine congrArg₂ _ (List.map_congr_left fun u hu => ?_) ?_
  · rw [hsame u (fun heq => hdisjoint hu (heq ▸ List.mem_cons_self))
      fun heq => hdisjoint hu (List.mem_cons_of_mem _ (List.mem_of_head? heq))]
  cases rest with
  | nil => rfl
  | cons pos rest =>
      have hpos : pos ≠ arg := fun heq => harg (heq ▸ List.mem_cons_self)
      have hlast := hle pos rfl
      have hfirst : (s'.timer pos).delayCount.toNat = (s.timer pos).delayCount.toNat - delay.toNat := by
        rw [hcount, if_neg hpos, List.head?_cons, if_pos rfl, UInt32.toNat_sub_of_le _ _ hlast]
      rw [List.map_cons, List.map_cons, hfirst, DeltaList.insert,
        if_neg (Nat.not_lt.mpr (UInt32.le_iff_toNat_le.mp hlast))]
      refine congrArg _ (congrArg _ (List.map_congr_left fun u hu => ?_))
      rw [hsame u (fun heq => harg (heq ▸ List.mem_cons_of_mem _ hu))
        fun heq => (List.nodup_cons.mp hrest).1 (Option.some.inj heq ▸ hu)]

/-- A timer that is added is due in its time, and the others when they were. -/
theorem addTimerCallback_holds (h : s.Holds l) (harg : arg ∉ l) {fuel : Nat} (hfuel : l.length < fuel) (c : C)
    (delay : UInt32) : ∃ s' l', addTimerCallback fuel arg c delay s = some (0, s') ∧ s'.Holds l' ∧
      s'.entries l' = DeltaList.insert arg delay.toNat (s.entries l) ∧ (∀ t, t ∈ l' ↔ t = arg ∨ t ∈ l) ∧
      ∀ t, (s'.timer t).callback = if t = arg then c else (s.timer t).callback := by
  have hinactive : ¬(s.timer arg).isActive = true := fun hactive => harg ((h.active arg).mp hactive)
  unfold addTimerCallback
  rw [if_neg hinactive]
  generalize hs₁ : s.modify arg _ = s₁
  have htimer₁ (u : T) : (s₁.timer u) =
      if u = arg then { s.timer arg with isActive := true, callback := c } else s.timer u :=
    hs₁ ▸ modify_timer _ _ _ _
  have hlinks₁ : s₁.links = s.links := hs₁ ▸ links_modify (fun _ => rfl) fun _ => rfl
  have hentries₁ (l : List T) : s₁.entries l = s.entries l := by
    unfold TimerPool.entries
    refine List.map_congr_left fun u _ => ?_
    rw [htimer₁, apply_ite TimerCb.delayCount]
    split
    · rename_i hu
      rw [hu]
    · rfl
  have hstart : s₁.timerListStart = l.head? := by
    rw [← hs₁]
    exact (start_eq h : s.timerListStart = l.head?)
  obtain ⟨mid, rest, delay', rfl, hfind, hle, hinsert⟩ :=
    findTimer_spec (show s₁.links.Chains ([] ++ l) from hlinks₁ ▸ h.chains) hfuel arg delay
  have hrest : arg ∉ rest := fun hmem => harg (List.mem_append_right _ hmem)
  have hchains : s₁.links.Chains (mid ++ rest) := hlinks₁ ▸ h.chains
  have hlinks₂ := @linkTimer_links T C _ s₁ mid rest arg delay' hchains hrest
  have hdata₂ := linkTimer_data arg rest.head? delay' s₁
  dsimp only
  rw [hstart, hfind]
  generalize hs₂ : linkTimer arg rest.head? delay' s₁ = s₂ at hlinks₂ hdata₂
  have hdata (u : T) : ((s₂.modify arg fun cb => { cb with delayCount := delay' }).timer u).data =
      if u = arg then (true, c, delay') else ((s.timer u).isActive, (s.timer u).callback,
        if rest.head? = some u then (s.timer u).delayCount - delay' else (s.timer u).delayCount) := by
    rw [modify_timer]
    by_cases hu : u = arg
    · subst hu
      have hlinked := hdata₂ u
      rw [htimer₁, if_pos rfl] at hlinked
      rw [if_pos rfl, if_pos rfl]
      exact congrArg (fun d => (d.1, d.2.1, delay')) hlinked
    · rw [if_neg hu, if_neg hu, hdata₂, htimer₁, if_neg hu]
  have hnew : (mid ++ arg :: rest).Nodup := (hchains.insert harg).nodup
  have hmem (t : T) : t ∈ mid ++ arg :: rest ↔ t = arg ∨ t ∈ mid ++ rest := by
    rw [List.mem_append, List.mem_cons, List.mem_append]
    exact or_left_comm
  refine ⟨_, mid ++ arg :: rest, by rw [Option.bind_eq_bind, Option.bind_some, hs₂]; rfl, ⟨?_, fun u => ?_, fun _ => rfl⟩,
    ?_, hmem, fun u => ?_⟩
  · have hlinks : (s₂.modify arg fun cb => { cb with delayCount := delay' }).links = s₂.links :=
      links_modify (fun _ => rfl) fun _ => rfl
    show ((s₂.modify arg fun cb => { cb with delayCount := delay' }).links).Chains _
    rw [hlinks, hlinks₂]
    exact hchains.insert harg
  · have hactive := congrArg Prod.fst (hdata u)
    rw [hmem, show ((s₂.modify arg fun cb => { cb with delayCount := delay' }).timer u).isActive = _ from hactive]
    by_cases hu : u = arg
    · rw [if_pos hu]
      exact ⟨fun _ => .inl hu, fun _ => rfl⟩
    · rw [if_neg hu]
      exact (h.active u).trans ⟨.inr, fun hor => hor.resolve_left hu⟩
  · rw [← hentries₁, hinsert]
    refine linkTimer_entries hnew hle fun u => ?_
    refine Eq.trans (congrArg (fun d => d.2.2) (hdata u)) ?_
    by_cases hu : u = arg
    · rw [if_pos hu, if_pos hu]
    · rw [if_neg hu, if_neg hu, htimer₁, if_neg hu]
  · have hcallback := congrArg (fun d => d.2.1) (hdata u)
    refine Eq.trans hcallback ?_
    by_cases hu : u = arg
    · rw [if_pos hu, if_pos hu]
    · rw [if_neg hu, if_neg hu]

end Operations

end Model

end BdmAssault.Usbd.Timers
