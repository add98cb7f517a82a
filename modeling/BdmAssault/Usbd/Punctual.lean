import BdmAssault.Lib.Transition
import BdmAssault.Usbd.TimerList

/-! # Timers that fire on time

Runs of additions, cancellations and ticks, where the callbacks of a tick may add and cancel as
well. A timer that is cancelled leaves its count out of those of the timers behind it.
-/

namespace BdmAssault.Usbd.Timers

open Lib

/-! ## Runs -/

/-- Calls with their results, and the stages of `handleTimerList`: what its callbacks do comes
between an `expire` and the stage after it. -/
inductive Label (T C : Type) where
  | add (t : T) (c : C) (delay : UInt32) (res : Int)
  | cancel (t : T) (res : Int)
  | tick
  | expire (t : T) (c : C)
  | endTick

@[ext] structure Machine (T C : Type) where
  pool : TimerPool T C
  inTick : Bool

section Runs

variable {T C : Type} [DecidableEq T]

def Machine.next (s : Machine T C) : Label T C → Machine T C → Prop
  | .add t c delay res, s' =>
      s'.inTick = s.inTick ∧ ∃ fuel, addTimerCallback fuel t c delay s.pool = some (res, s'.pool)
  | .cancel t res, s' => s'.inTick = s.inTick ∧ cancelTimerCallback t s.pool = (res, s'.pool)
  | .tick, s' => s.inTick = false ∧ s' = ⟨countDown s.pool, true⟩
  | .expire t c, s' =>
      s.inTick = true ∧ expired s.pool = some t ∧ s' = ⟨takeTimer t s.pool, true⟩ ∧ c = (s'.pool.timer t).callback
  | .endTick, s' => s.inTick = true ∧ expired s.pool = none ∧ s' = ⟨stopTicks s.pool, false⟩

def timers (T C : Type) [DecidableEq T] : System (Machine T C) (Label T C) where
  init s := s.pool.timerListStart = none ∧ s.pool.timerListEnd = none ∧ (∀ t, (s.pool.timer t).isActive = false) ∧
    s.inTick = false
  step s label s' := s.next label s'

/-- A timer that has been added, and how many ticks ago. -/
structure Pending (C : Type) where
  callback : C
  delay : UInt32
  ticks : Nat

/-- What was added last, and has neither fired nor been cancelled since. The last label of a
run comes first. -/
def pending : List (Label T C) → T → Option (Pending C)
  | [], _ => none
  | .add t c delay res :: labels, u => if res = 0 ∧ u = t then some ⟨c, delay, 0⟩ else pending labels u
  | .cancel t res :: labels, u => if res = 0 ∧ u = t then none else pending labels u
  | .expire t _ :: labels, u => if u = t then none else pending labels u
  | .tick :: labels, u => (pending labels u).map fun p => { p with ticks := p.ticks + 1 }
  | .endTick :: labels, u => pending labels u

/-- A timer is not cancelled that the count of another one builds on, and a tick does not begin
with a timer without delay in front of timers with one. -/
def Undisturbed (s : Machine T C) : Label T C → Prop
  | .cancel t _ => (s.pool.timer t).isActive = true → (s.pool.timer t).next = none ∨ (s.pool.timer t).delayCount = 0
  | .tick => (∃ t, s.pool.timerListStart = some t ∧ (s.pool.timer t).delayCount ≠ 0) ∨
      ∀ t, (s.pool.timer t).isActive = true → (s.pool.timer t).delayCount = 0
  | _ => True

/-- The timers of the list are those that are pending, each due when its delay is over. -/
structure Timed (labels : List (Label T C)) (s : Machine T C) (l : List T) : Prop where
  holds : s.pool.Holds l
  pending : ∀ t, (pending labels t).isSome ↔ t ∈ l
  callback : ∀ t p, Timers.pending labels t = some p → p.callback = (s.pool.timer t).callback
  due : ∀ t p, Timers.pending labels t = some p → p.delay ≠ 0 → ∃ k, DeltaList.due (s.pool.entries l) t = some k ∧
    p.ticks + k = p.delay.toNat ∧ (s.inTick = false → 0 < k)

variable {labels : List (Label T C)} {s s' : Machine T C} {l front back : List T} {t : T} {c : C} {delay : UInt32}
  {res : Int}

theorem entries_due_none (pool : TimerPool T C) (h : t ∉ l) : DeltaList.due (pool.entries l) t = none := by
  refine DeltaList.due_eq_none.mpr fun e he heq => h ?_
  obtain ⟨u, hu, rfl⟩ := List.mem_map.mp he
  exact heq ▸ hu

theorem addTimerCallback_active {fuel : Nat} {pool pool' : TimerPool T C} (h : (pool.timer t).isActive = true)
    (hadd : addTimerCallback fuel t c delay pool = some (res, pool')) : res = -1 ∧ pool' = pool := by
  unfold addTimerCallback at hadd
  rw [if_pos h] at hadd
  obtain ⟨rfl, rfl⟩ := Prod.mk.inj (Option.some.inj hadd)
  exact ⟨rfl, rfl⟩

/-- A refused call leaves everything as it is. -/
theorem Timed.refused {labels' : List (Label T C)} (h : Timed labels s l)
    (hpending : ∀ u, Timers.pending labels' u = Timers.pending labels u) : Timed labels' s l := by
  refine ⟨h.holds, fun u => ?_, fun u p => ?_, fun u p => ?_⟩
  · rw [hpending]
    exact h.pending u
  · rw [hpending]
    exact h.callback u p
  · rw [hpending]
    exact h.due u p

theorem Timed.add (h : Timed labels s l) (hinTick : s'.inTick = s.inTick) {fuel : Nat}
    (hadd : addTimerCallback fuel t c delay s.pool = some (res, s'.pool)) :
    ∃ l', Timed (.add t c delay res :: labels) s' l' := by
  by_cases hmem : t ∈ l
  · obtain ⟨rfl, hpool⟩ := addTimerCallback_active ((h.holds.active t).mpr hmem) hadd
    rw [Machine.ext hpool hinTick]
    exact ⟨l, h.refused fun u => if_neg fun h => absurd h.1 (by decide)⟩
  · obtain ⟨pool', l', hpool', hholds, hentries, hmem', hcallback⟩ :=
      addTimerCallback_holds h.holds hmem (Nat.lt_succ_self l.length) c delay
    have hlarge := addTimerCallback_mono (Nat.le_max_left fuel (l.length + 1)) hadd
    rw [addTimerCallback_mono (Nat.le_max_right fuel (l.length + 1)) hpool'] at hlarge
    obtain ⟨rfl, rfl⟩ := Prod.mk.inj (Option.some.inj hlarge)
    have hpending (u : T) : Timers.pending (.add t c delay 0 :: labels) u =
        if u = t then some ⟨c, delay, 0⟩ else Timers.pending labels u := by
      rw [Timers.pending]
      simp only [true_and]
    have hdue := DeltaList.due_insert (d := delay.toNat) (entries_due_none s.pool hmem)
    refine ⟨l', hholds, fun u => ?_, fun u p hp => ?_, fun u p hp hdelay => ?_⟩
    · rw [hpending, hmem']
      by_cases hu : u = t
      · rw [if_pos hu]
        exact ⟨fun _ => .inl hu, fun _ => rfl⟩
      · rw [if_neg hu, h.pending]
        exact ⟨.inr, fun hor => hor.resolve_left hu⟩
    · rw [hpending] at hp
      rw [hcallback]
      by_cases hu : u = t
      · rw [if_pos hu] at hp ⊢
        obtain rfl := Option.some.inj hp
        rfl
      · rw [if_neg hu] at hp ⊢
        exact h.callback u p hp
    · rw [hpending] at hp
      rw [hentries, hdue]
      by_cases hu : u = t
      · rw [if_pos hu] at hp
        obtain rfl := Option.some.inj hp
        rw [if_pos hu.symm]
        refine ⟨delay.toNat, rfl, Nat.zero_add _, fun _ => Nat.pos_of_ne_zero fun hzero => ?_⟩
        exact hdelay (UInt32.toNat_inj.mp hzero)
      · rw [if_neg hu] at hp
        rw [if_neg fun heq => hu heq.symm, hinTick]
        exact h.due u p hp hdelay

/-- A timer leaves the list, and takes no time from those behind it. -/
theorem Timed.remove {labels' : List (Label T C)} (h : Timed labels s (front ++ t :: back)) (hinTick : s'.inTick = s.inTick)
    (hholds : s'.pool.Holds (front ++ back)) (hreleased : s.pool.Released t s'.pool)
    (hcount : (s.pool.timer t).delayCount.toNat = 0 ∨ back = [])
    (hpending : ∀ u, Timers.pending labels' u = if u = t then none else Timers.pending labels u) :
    Timed labels' s' (front ++ back) := by
  have hnot : t ∉ front ++ back := (List.nodup_middle.mp h.holds.chains.nodup).notMem
  have hsome {u : T} {p : Pending C} (hp : Timers.pending labels' u = some p) :
      u ≠ t ∧ Timers.pending labels u = some p := by
    rw [hpending] at hp
    by_cases hu : u = t
    · rw [if_pos hu] at hp
      exact absurd hp nofun
    · rw [if_neg hu] at hp
      exact ⟨hu, hp⟩
  refine ⟨hholds, fun u => ?_, fun u p hp => ?_, fun u p hp hdelay => ?_⟩
  · rw [hpending]
    by_cases hu : u = t
    · rw [if_pos hu]
      exact ⟨nofun, fun hmem => absurd (hu ▸ hmem) hnot⟩
    · rw [if_neg hu, h.pending, List.mem_append, List.mem_append, List.mem_cons]
      exact or_congr_right ⟨fun hor => hor.resolve_left hu, .inr⟩
  · rw [hreleased.2.1]
    exact h.callback u p (hsome hp).2
  · obtain ⟨hu, hp⟩ := hsome hp
    obtain ⟨k, hdue, hsum, hpos⟩ := h.due u p hp hdelay
    refine ⟨k, ?_, hsum, fun hout => hpos (hinTick ▸ hout)⟩
    rw [hreleased.entries, ← hdue]
    unfold TimerPool.entries
    rw [List.map_append, List.map_append, List.map_cons]
    exact (DeltaList.due_remove_eq (hcount.imp_right fun hback => hback ▸ rfl) fun heq => hu heq.symm).symm

theorem Timed.cancel (h : Timed labels s l) (hinTick : s'.inTick = s.inTick)
    (hok : Undisturbed s (.cancel t res : Label T C)) (hcancel : cancelTimerCallback t s.pool = (res, s'.pool)) :
    ∃ l', Timed (.cancel t res :: labels) s' l' := by
  by_cases hmem : t ∈ l
  · obtain ⟨front, back, rfl⟩ := List.append_of_mem hmem
    obtain ⟨pool', hpool', hholds, hreleased⟩ := cancelTimerCallback_holds h.holds
    obtain ⟨rfl, rfl⟩ := Prod.mk.inj (hpool'.symm.trans hcancel)
    have hnext : (s.pool.timer t).next = back.head? := by
      have hnext := h.holds.chains.next _ _ (List.append_cons front t back)
      rwa [List.getLast?_append_of_ne_nil _ (List.cons_ne_nil t [])] at hnext
    refine ⟨front ++ back, h.remove hinTick hholds hreleased ?_ fun u => ?_⟩
    · rcases hok ((h.holds.active t).mpr hmem) with hlast | hzero
      · exact .inr (List.head?_eq_none_iff.mp (hnext.symm.trans hlast))
      · exact .inl (congrArg UInt32.toNat hzero)
    · rw [Timers.pending]
      simp only [true_and]
  · have hinactive : ¬(s.pool.timer t).isActive = true := fun hactive => hmem ((h.holds.active t).mp hactive)
    unfold cancelTimerCallback at hcancel
    rw [if_neg hinactive] at hcancel
    obtain ⟨rfl, hpool⟩ := Prod.mk.inj hcancel
    rw [Machine.ext hpool.symm hinTick]
    exact ⟨l, h.refused fun u => if_neg fun h => absurd h.1 (by decide)⟩

theorem Timed.tick (h : Timed labels s l) (hout : s.inTick = false) (hok : Undisturbed s (.tick : Label T C)) :
    Timed (.tick :: labels) ⟨countDown s.pool, true⟩ l := by
  obtain ⟨hholds, hentries, hcallback⟩ := countDown_holds h.holds
  have hsome {u : T} {p : Pending C} (hp : Timers.pending (.tick :: labels) u = some p) :
      ∃ p', Timers.pending labels u = some p' ∧ p = { p' with ticks := p'.ticks + 1 } := by
    obtain ⟨p', hp', rfl⟩ := Option.map_eq_some_iff.mp hp
    exact ⟨p', hp', rfl⟩
  refine ⟨hholds, fun u => ?_, fun u p hp => ?_, fun u p hp hdelay => ?_⟩
  · rw [Timers.pending, Option.isSome_map]
    exact h.pending u
  · obtain ⟨p', hp', rfl⟩ := hsome hp
    rw [hcallback]
    exact h.callback u p' hp'
  · obtain ⟨p', hp', rfl⟩ := hsome hp
    obtain ⟨k, hdue, hsum, hpos⟩ := h.due u p' hp' hdelay
    have hpos := hpos hout
    have hfirst : ∀ e, (s.pool.entries l).head? = some e → e.2 ≠ 0 := by
      rcases hok with ⟨t, hstart, hcount⟩ | hzero
      · intro e he
        rw [start_eq h.holds] at hstart
        unfold TimerPool.entries at he
        rw [List.head?_map, hstart] at he
        obtain rfl := Option.some.inj he
        exact fun hzero => hcount (UInt32.toNat_inj.mp hzero)
      · refine absurd (DeltaList.due_eq_zero (fun e he => ?_) hdue) (Nat.ne_of_gt hpos)
        obtain ⟨t, ht, rfl⟩ := List.mem_map.mp he
        exact congrArg UInt32.toNat (hzero t ((h.holds.active t).mpr ht))
    refine ⟨k - 1, ?_, ?_, nofun⟩
    · show DeltaList.due ((countDown s.pool).entries l) u = _
      rw [hentries, DeltaList.due_countDown hfirst, hdue]
      rfl
    · show p'.ticks + 1 + (k - 1) = p'.delay.toNat
      omega

theorem Timed.endTick (h : Timed labels s l) (hexpired : expired s.pool = none) :
    Timed (.endTick :: labels) ⟨stopTicks s.pool, false⟩ l := by
  obtain ⟨hholds, htimer⟩ := stopTicks_holds h.holds
  have hentries : (stopTicks s.pool).entries l = s.pool.entries l := by
    unfold TimerPool.entries
    rw [htimer]
  refine ⟨hholds, h.pending, fun u p hp => ?_, fun u p hp hdelay => ?_⟩
  · show p.callback = ((stopTicks s.pool).timer u).callback
    rw [htimer]
    exact h.callback u p hp
  · obtain ⟨k, hdue, hsum, -⟩ := h.due u p hp hdelay
    refine ⟨k, hentries ▸ hdue, hsum, fun _ => ?_⟩
    -- the first timer is not due yet
    have hmem : u ∈ l := (h.pending u).mp (Option.isSome_of_eq_some hp)
    obtain ⟨t, back, rfl⟩ := List.exists_cons_of_ne_nil (List.ne_nil_of_mem hmem)
    have hfirst := expired_eq_none h.holds hexpired _ rfl
    have hle := DeltaList.le_due (l := s.pool.entries (t :: back)) rfl hdue
    omega

theorem Timed.expire (h : Timed labels s l) (hexpired : expired s.pool = some t) (c : C) :
    ∃ l', Timed (.expire t c :: labels) ⟨takeTimer t s.pool, s.inTick⟩ l' := by
  obtain ⟨back, rfl, hzero⟩ := expired_eq_some h.holds hexpired
  obtain ⟨hholds, hreleased⟩ := takeTimer_holds h.holds
  have h' : Timed labels s ([] ++ t :: back) := h
  exact ⟨back, h'.remove rfl hholds hreleased (.inl hzero) fun _ => rfl⟩

/-- What the loop finds expired is due. -/
theorem Timed.expired_due (h : Timed labels s l) (hexpired : expired s.pool = some t) :
    ∃ p, Timers.pending labels t = some p ∧ p.callback = ((takeTimer t s.pool).timer t).callback ∧
      (p.delay ≠ 0 → p.ticks = p.delay.toNat) := by
  obtain ⟨back, rfl, hzero⟩ := expired_eq_some h.holds hexpired
  obtain ⟨p, hp⟩ := Option.isSome_iff_exists.mp ((h.pending t).mpr List.mem_cons_self)
  refine ⟨p, hp, (h.callback t p hp).trans ((takeTimer_holds h.holds).2.2.1 t).symm, fun hdelay => ?_⟩
  obtain ⟨k, hdue, hsum, -⟩ := h.due t p hp hdelay
  have hk : some (s.pool.timer t).delayCount.toNat = some k := (if_pos rfl).symm.trans hdue
  rw [hzero] at hk
  obtain rfl := Option.some.inj hk
  exact hsum

/-- Every undisturbed run keeps to the times. -/
theorem run_timed (h : (timers T C).Run Undisturbed labels s) : ∃ l, Timed labels s l := by
  induction h with
  | start hinit =>
      obtain ⟨hstart, hend, hinactive, -⟩ := hinit
      refine ⟨[], ⟨⟨List.nodup_nil, ?_, ?_⟩, fun t => ?_, fun hne => absurd rfl hne⟩, fun t => ?_, nofun, nofun⟩
      · intro front back hnil
        obtain ⟨rfl, rfl⟩ := List.append_eq_nil_iff.mp hnil.symm
        exact hstart
      · intro front back hnil
        obtain ⟨rfl, rfl⟩ := List.append_eq_nil_iff.mp hnil.symm
        exact hend
      · rw [hinactive]
        exact ⟨nofun, nofun⟩
      · exact ⟨nofun, nofun⟩
  | @step labels label s s' hrun hok hnext ih =>
      obtain ⟨l, hl⟩ := ih
      cases label with
      | add t c delay res =>
          obtain ⟨hinTick, fuel, hadd⟩ := hnext
          exact hl.add hinTick hadd
      | cancel t res => exact hl.cancel hnext.1 hok hnext.2
      | tick =>
          obtain ⟨hout, rfl⟩ := hnext
          exact ⟨l, hl.tick hout hok⟩
      | expire t c =>
          obtain ⟨hin, hexpired, rfl, -⟩ := hnext
          exact hin ▸ hl.expire hexpired c
      | endTick =>
          obtain ⟨-, hexpired, rfl⟩ := hnext
          exact ⟨l, hl.endTick hexpired⟩

/-- A timer only fires when it is pending, with the callback it was added with, and in the tick
that its delay says; when that tick is over, it is not pending any more. -/
def OnTime (labels : List (Label T C)) (s : Machine T C) : Prop :=
  (∀ t c rest, labels = .expire t c :: rest → ∃ p, pending rest t = some p ∧ p.callback = c ∧
    (p.delay ≠ 0 → p.ticks = p.delay.toNat)) ∧
  ∀ t p, pending labels t = some p → p.delay ≠ 0 →
    p.ticks ≤ p.delay.toNat ∧ (s.inTick = false → p.ticks < p.delay.toNat)

theorem timers_on_time (labels : List (Label T C)) (s : Machine T C) (h : (timers T C).Run Undisturbed labels s) :
    OnTime labels s := by
  constructor
  · rintro t c rest rfl
    cases h with
    | step hrun hok hnext =>
        obtain ⟨l, hl⟩ := run_timed hrun
        obtain ⟨-, hexpired, rfl, rfl⟩ := hnext
        exact hl.expired_due hexpired
  · intro t p hp hdelay
    obtain ⟨l, hl⟩ := run_timed h
    obtain ⟨k, -, hsum, hpos⟩ := hl.due t p hp hdelay
    refine ⟨by omega, fun hout => ?_⟩
    have hpos := hpos hout
    omega

/-- Ticks come as long as a timer is pending. -/
theorem pending_sofInterrupt (h : (timers T C).Run Undisturbed labels s) (hpending : (pending labels t).isSome) :
    s.pool.sofInterrupt = true := by
  obtain ⟨l, hl⟩ := run_timed h
  exact hl.holds.ticks (List.ne_nil_of_mem ((hl.pending t).mp hpending))

/-! ## The handler -/

variable {ok : Machine T C → Label T C → Prop} {call : C → TimerPool T C → Option (TimerPool T C)}
  {pool pool' : TimerPool T C} {fuel : Nat}

theorem run_cancel (h : (timers T C).Run ok labels s) (t : T) (res : Int) (hok : ok s (.cancel t res))
    (hres : (cancelTimerCallback t s.pool).1 = res) :
    (timers T C).Run ok (.cancel t res :: labels) ⟨(cancelTimerCallback t s.pool).2, s.inTick⟩ :=
  h.step hok ⟨rfl, Prod.ext hres rfl⟩

theorem run_tick (h : (timers T C).Run ok labels s) (hok : ok s .tick) (hout : s.inTick = false) :
    (timers T C).Run ok (.tick :: labels) ⟨countDown s.pool, true⟩ := h.step hok ⟨hout, rfl⟩

theorem run_expire (h : (timers T C).Run ok labels s) (t : T) (c : C) (hok : ok s (.expire t c))
    (hin : s.inTick = true) (hexpired : expired s.pool = some t) (hc : c = ((takeTimer t s.pool).timer t).callback) :
    (timers T C).Run ok (.expire t c :: labels) ⟨takeTimer t s.pool, true⟩ := h.step hok ⟨hin, hexpired, rfl, hc⟩

/-- The callbacks do nothing but what runs do. -/
def Calls (ok : Machine T C → Label T C → Prop) (call : C → TimerPool T C → Option (TimerPool T C)) : Prop :=
  ∀ labels c pool pool', (timers T C).Run ok labels ⟨pool, true⟩ → call c pool = some pool' →
    ∃ more, (timers T C).Run ok (more ++ labels) ⟨pool', true⟩

theorem timerLoop_run (hcall : Calls ok call) (hexpire : ∀ s t c, ok s (.expire t c))
    (h : (timers T C).Run ok labels ⟨pool, true⟩) (hloop : timerLoop call fuel pool = some pool') :
    expired pool' = none ∧ ∃ stages, (timers T C).Run ok (stages ++ labels) ⟨pool', true⟩ := by
  induction fuel generalizing labels pool with
  | zero => exact absurd hloop nofun
  | succ fuel ih =>
      unfold timerLoop at hloop
      split at hloop
      · rename_i t hexpired
        obtain ⟨pool₁, hpool₁, hrest⟩ := Option.bind_eq_some_iff.mp hloop
        obtain ⟨more, hmore⟩ := hcall _ _ _ _ (run_expire h t _ (hexpire _ t _) rfl hexpired rfl) hpool₁
        obtain ⟨hend, stages, hstages⟩ := ih hmore hrest
        refine ⟨hend, stages ++ (more ++ [.expire t ((takeTimer t pool).timer t).callback]), ?_⟩
        rw [List.append_assoc, List.append_assoc]
        exact hstages
      · rename_i hexpired
        obtain rfl := Option.some.inj hloop
        exact ⟨hexpired, [], h⟩

/-- A call of `handleTimerList` is one tick of a run. -/
theorem handleTimerList_run (hcall : Calls ok call) (hexpire : ∀ s t c, ok s (.expire t c)) (hend : ∀ s, ok s .endTick)
    (htick : ok ⟨pool, false⟩ .tick) (h : (timers T C).Run ok labels ⟨pool, false⟩)
    (hhandle : handleTimerList call fuel pool = some pool') :
    ∃ stages, (timers T C).Run ok (.endTick :: (stages ++ .tick :: labels)) ⟨pool', false⟩ := by
  obtain ⟨pool₁, hloop, hstop⟩ := Option.bind_eq_some_iff.mp hhandle
  obtain rfl := Option.some.inj hstop
  obtain ⟨hexpired, stages, hstages⟩ := timerLoop_run hcall hexpire (run_tick h htick rfl) hloop
  exact ⟨stages, hstages.step (hend _) ⟨rfl, hexpired, rfl⟩⟩

end Runs

section Examples

def idle : Machine (Fin 2) Unit where
  pool := ⟨fun _ => ⟨false, none, none, (), 0⟩, none, none, false⟩
  inTick := false

def added (t : Fin 2) (delay : UInt32) (s : Machine (Fin 2) Unit) : Machine (Fin 2) Unit :=
  { s with pool := ((addTimerCallback 3 t () delay s.pool).map Prod.snd).getD s.pool }

theorem run_added {ok : Machine (Fin 2) Unit → Label (Fin 2) Unit → Prop} {labels : List (Label (Fin 2) Unit)}
    {s : Machine (Fin 2) Unit} (h : (timers (Fin 2) Unit).Run ok labels s) (t : Fin 2) (delay : UInt32)
    (hok : ok s (.add t () delay 0)) (hadd : (addTimerCallback 3 t () delay s.pool).map Prod.fst = some 0) :
    (timers (Fin 2) Unit).Run ok (.add t () delay 0 :: labels) (added t delay s) := by
  obtain ⟨⟨res, pool⟩, hpool, hres⟩ := Option.map_eq_some_iff.mp hadd
  obtain rfl : res = 0 := hres
  refine h.step hok ⟨rfl, 3, ?_⟩
  unfold added
  rw [hpool]
  rfl

theorem run_idle (ok : Machine (Fin 2) Unit → Label (Fin 2) Unit → Prop) : (timers (Fin 2) Unit).Run ok [] idle :=
  .start ⟨rfl, rfl, fun _ => rfl, rfl⟩

/-- Of two timers the last one is cancelled, and the other one fires in the tick it is set for. -/
theorem timers_on_time_two : OnTime [.expire 0 (), .tick, .cancel 1 0, .add 1 () 2 0, .add 0 () 1 0]
    (⟨takeTimer 0 (countDown (cancelTimerCallback 1 (added 1 2 (added 0 1 idle)).pool).2), true⟩ :
      Machine (Fin 2) Unit) := by
  have hadded := run_added (run_added (run_idle Undisturbed) 0 1 trivial rfl) 1 2 trivial rfl
  have hcancelled := run_cancel hadded 1 0 (fun _ => .inl rfl) rfl
  have hticked := run_tick hcancelled (.inl ⟨0, rfl, by decide⟩) rfl
  exact timers_on_time _ _ (run_expire hticked 0 () trivial rfl rfl rfl)

/-- Timer 1 is added for two ticks, behind timer 0 for one; when timer 0 is cancelled, timer 1
fires after one. -/
theorem cancel_disturbs : ¬∀ (labels : List (Label (Fin 2) Unit)) s,
    (timers (Fin 2) Unit).Run (fun _ _ => True) labels s → OnTime labels s := by
  intro hall
  have hadded := run_added (run_added (run_idle fun _ _ => True) 0 1 trivial rfl) 1 2 trivial rfl
  have hticked := run_tick (run_cancel hadded 0 0 trivial rfl) trivial rfl
  have hfired := run_expire hticked 1 () trivial rfl rfl rfl
  obtain ⟨p, hp, -, hticks⟩ := (hall _ _ hfired).1 1 () _ rfl
  obtain rfl : (⟨(), 2, 1⟩ : Pending Unit) = p := Option.some.inj hp
  exact absurd (hticks (by decide)) (by decide)

end Examples

end BdmAssault.Usbd.Timers
