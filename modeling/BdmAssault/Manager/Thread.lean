import BdmAssault.Manager.Links

/-! # The BDM thread and the threads of the drivers

`bdm_thread` runs in small steps: it waits for an event, filters one slot at a
time, visits one slot at a time, and inside `bdm_try_mount` calls one filesystem
at a time. A call of `connect_bd` is not atomic: it begins by reading the slot,
may connect any number of partitions, and completes with a result. Between any
two steps, other threads may call `bdm_connect_bd`, `bdm_disconnect_bd`,
`bdm_connect_fs`, `bdm_RegisterCallback` and `bdm_set_ata_only`. The callback
`g_cb` touches none of these tables and is left out.
-/

namespace BdmAssault.Manager

open Lib

/-- Where `bdm_thread` is. `rest` are the slots its loop has not visited yet, `js`
the indices of `g_fs` that the loop of `bdm_try_mount` has not visited yet;
`mount` remembers the bit `BDM_EVENT_MOUNT` of `EFBits`. -/
inductive Pc where
  | waiting
  /-- about to test `g_ata_only` -/
  | gate (mount : Bool)
  | filtering (mount : Bool) (rest : List (Fin 20))
  /-- about to set `bdm_filter_event` -/
  | acknowledge (mount : Bool)
  | mounting (rest : List (Fin 20))
  | trying (i : Fin 20) (js rest : List (Fin 20))
  /-- inside `fs->connect_bd(bd)` for slot `i`, called in generation `gen` of the slot -/
  | offering (i : Fin 20) (fs : FileSystem) (bd : Option Dev) (gen : Nat) (js rest : List (Fin 20))
  deriving DecidableEq

/-- The thread that calls `bdm_set_ata_only`: outside, after writing `g_ata_only`,
and waiting for `bdm_filter_event`. -/
inductive Caller where
  | idle
  | flagged
  | waiting
  deriving DecidableEq

/-- What the history records: a device placed in slot `i`, a call of
`bdm_connect_fs`, the call and the success of a `connect_bd` for slot `i`. -/
inductive Event where
  | connected (i : Fin 20)
  | registered (fs : FileSystem)
  | offered (i : Fin 20) (fs : FileSystem)
  | accepted (i : Fin 20) (gen : Nat) (bd : Option Dev) (fs : FileSystem)
  deriving DecidableEq

/-- `guarded` holds from the return of `bdm_set_ata_only(1)` to the next call with 0;
`log` is the history, latest event first. Neither is read by any step. -/
structure Thread where
  bdm : Bdm
  pc : Pc
  filterEvent : Bool
  caller : Caller
  guarded : Bool
  log : List Event

/-- The number of devices that slot `i` has held. -/
def generation (log : List Event) (i : Fin 20) : Nat := log.count (.connected i)

/-- The slot has been offered to the filesystem since the later of the slot's last
connection and the filesystem's last registration. -/
def offeredSince (i : Fin 20) (fs : FileSystem) : List Event → Bool
  | [] => false
  | .connected i' :: log => i' ≠ i && offeredSince i fs log
  | .registered fs' :: log => fs' ≠ fs && offeredSince i fs log
  | .offered i' fs' :: log => (i' = i && fs' = fs) || offeredSince i fs log
  | .accepted _ _ _ _ :: log => offeredSince i fs log

/-! ## Calls from other threads -/

def Thread.connectBd (t : Thread) (bd : Dev) : Thread :=
  { t with
    bdm := bdmConnectBd t.bdm bd
    log := match connectSlot t.bdm bd with
      | none => t.log
      | some i => .connected i :: t.log }

def Thread.connectFs (t : Thread) (fs : FileSystem) : Thread :=
  { t with bdm := bdmConnectFs t.bdm fs, log := .registered fs :: t.log }

def bdmRegisterCallback (s : Bdm) (cb : Bool) : Bdm :=
  { s with
    callback := cb
    event := if cb ∧ ∃ i, (s.mount i).bd ≠ none ∧ (s.mount i).fs ≠ none then
      { s.event with cbMount := true } else s.event }

/-! ## Steps of the BDM thread -/

/-- `WaitEventFlag` with `WEF_CLEAR` returns. -/
def Thread.wake (t : Thread) : Option Thread :=
  let e := t.bdm.event
  if t.pc = .waiting ∧ (e.cbMount || e.cbUmount || e.mount || e.filter) then
    some { t with
      bdm := { t.bdm with event := ⟨false, false, false, false⟩ }
      pc := if e.filter then .gate e.mount
        else if e.mount then .mounting (List.finRange 20) else .waiting }
  else none

/-- One step of the filter branch. -/
def Thread.filter (t : Thread) (fuel : Nat) : Option Thread :=
  match t.pc with
  | .gate mount =>
      some { t with
        pc := if t.bdm.ataOnly then .filtering mount (List.finRange 20) else .acknowledge mount }
  | .filtering mount [] => some { t with pc := .acknowledge mount }
  | .filtering mount (i :: rest) =>
      (filterStep fuel t.bdm i).map fun s => { t with bdm := s, pc := .filtering mount rest }
  | .acknowledge mount =>
      some { t with
        filterEvent := true
        pc := if mount then .mounting (List.finRange 20) else .waiting }
  | _ => none

/-- One step of the mount branch up to the call of a `connect_bd`. -/
def Thread.visit (t : Thread) : Option Thread :=
  match t.pc with
  | .mounting [] => some { t with pc := .waiting }
  | .mounting (i :: rest) =>
      some { t with
        pc := if (t.bdm.mount i).bd ≠ none ∧ (t.bdm.mount i).fs = none
          then .trying i (List.finRange 20) rest else .mounting rest }
  | .trying _ [] rest => some { t with pc := .mounting rest }
  | .trying i (j :: js) rest =>
      match t.bdm.fs j with
      | none => some { t with pc := .trying i js rest }
      | some fs =>
          some { t with
            pc := .offering i fs (t.bdm.mount i).offered (generation t.log i) js rest
            log := .offered i fs :: t.log }
  | _ => none

/-- A partition driver finds a table entry. -/
def Thread.addPartition (t : Thread) (e : Entry) : Option Thread :=
  match t.pc with
  | .offering _ fs (some bd) _ _ _ =>
      if fs.isPartition then
        match getNextFreePartitionIndex t.bdm with
        | none => some t
        | some k => some (Thread.connectBd { t with bdm := setPart t.bdm k bd e } (.part k))
      else none
  | _ => none

/-- `connect_bd` returns. -/
def Thread.complete (t : Thread) (accept : Bool) : Option Thread :=
  match t.pc with
  | .offering i fs bd gen js rest =>
      if accept then
        some { t with
          bdm := storeFs t.bdm i fs
          pc := .mounting rest
          log := .accepted i gen bd fs :: t.log }
      else some { t with pc := .trying i js rest }
  | _ => none

/-! ## The system -/

inductive Act where
  | connect (n : Nat)
  | disconnect (n fuel : Nat)
  | connectFs (fs : FileSystem)
  | registerCallback (cb : Bool)
  /-- `bdm_set_ata_only` in three steps: the flag, the event, the return -/
  | setAtaOnly (enable : Bool)
  | signalFilter
  | returnAtaOnly
  | wake
  | filter (fuel : Nat)
  | visit
  | addPartition (e : Entry)
  | complete (accept : Bool)

def Thread.perform (t : Thread) : Act → Option Thread
  | .connect n => some (t.connectBd (.drv n))
  | .disconnect n fuel => (bdmDisconnectBd fuel t.bdm (.drv n)).map fun s => { t with bdm := s }
  | .connectFs fs => some (t.connectFs fs)
  | .registerCallback cb => some { t with bdm := bdmRegisterCallback t.bdm cb }
  | .setAtaOnly enable =>
      if t.caller = .idle then
        some { t with
          bdm := { t.bdm with ataOnly := enable }
          caller := .flagged
          guarded := t.guarded && enable }
      else none
  | .signalFilter =>
      if t.caller = .flagged then
        some { t with
          bdm := { t.bdm with event := { t.bdm.event with filter := true } }
          caller := .waiting }
      else none
  | .returnAtaOnly =>
      if t.caller = .waiting ∧ t.filterEvent = true then
        some { t with filterEvent := false, caller := .idle, guarded := t.bdm.ataOnly }
      else none
  | .wake => t.wake
  | .filter fuel => t.filter fuel
  | .visit => t.visit
  | .addPartition e => t.addPartition e
  | .complete accept => t.complete accept

/-- The state after `bdm_init`. -/
def threadInit (block : Dev → BlockDevice) (heap : List (Option Nat)) : Thread where
  bdm := bdmInit block heap
  pc := .waiting
  filterEvent := false
  caller := .idle
  guarded := false
  log := []

def threads : System Thread Act where
  init := fun t => ∃ block heap, t = threadInit block heap
  step := fun t a t' => t.perform a = some t'

theorem threads_reachable_of_perform (ok : Thread → Act → Prop) {acts : List Act} {t t' : Thread}
    (ht : threads.Reachable ok t) (admissible : ∀ u, ∀ a ∈ acts, ok u a)
    (h : acts.foldlM Thread.perform t = some t') : threads.Reachable ok t' := by
  induction acts generalizing t with
  | nil =>
      cases h
      exact ht
  | cons a acts ih =>
      obtain ⟨u, first, rest⟩ := foldlM_cons_eq_some.mp h
      refine ih (ht.next (admissible t a List.mem_cons_self) first) (fun u a ha => ?_) rest
      exact admissible u a (List.mem_cons_of_mem _ ha)

/-! ## What the calls do to slots and history -/

theorem Thread.connectBd_cases (t : Thread) (bd : Dev) :
    t.connectBd bd = t ∨ ∃ i cbd, Placed t.bdm bd i cbd (t.connectBd bd).bdm ∧
      t.connectBd bd = { t with bdm := bdmConnectBd t.bdm bd, log := .connected i :: t.log } := by
  unfold Thread.connectBd
  rcases bdmConnectBd_slot t.bdm bd with ⟨hslot, hsame⟩ | ⟨i, cbd, hslot, hplaced⟩
  · left
    rw [hslot, hsame]
  · right
    exact ⟨i, cbd, hplaced, by rw [hslot]⟩

theorem bdmConnectFs_frame (s : Bdm) (fs : FileSystem) :
    (bdmConnectFs s fs).mount = s.mount ∧ (bdmConnectFs s fs).block = s.block ∧
      (bdmConnectFs s fs).part = s.part ∧ (bdmConnectFs s fs).ataOnly = s.ataOnly ∧
      (bdmConnectFs s fs).event.filter = s.event.filter := by
  unfold bdmConnectFs
  split <;> exact ⟨rfl, rfl, rfl, rfl, rfl⟩

/-! ## What a step can do -/

/-- Every outcome of `perform`, branch by branch. -/
inductive Move : Thread → Act → Thread → Prop where
  | connect {t : Thread} {n : Nat} : Move t (.connect n) (t.connectBd (.drv n))
  | disconnect {t : Thread} {n fuel : Nat} {s : Bdm}
      (h : bdmDisconnectBd fuel t.bdm (.drv n) = some s) :
      Move t (.disconnect n fuel) { t with bdm := s }
  | connectFs {t : Thread} {fs : FileSystem} : Move t (.connectFs fs) (t.connectFs fs)
  | registerCallback {t : Thread} {cb : Bool} :
      Move t (.registerCallback cb) { t with bdm := bdmRegisterCallback t.bdm cb }
  | setAtaOnly {t : Thread} {enable : Bool} (idle : t.caller = .idle) :
      Move t (.setAtaOnly enable)
        { t with
          bdm := { t.bdm with ataOnly := enable }
          caller := .flagged
          guarded := t.guarded && enable }
  | signalFilter {t : Thread} (flagged : t.caller = .flagged) :
      Move t .signalFilter
        { t with
          bdm := { t.bdm with event := { t.bdm.event with filter := true } }
          caller := .waiting }
  | returnAtaOnly {t : Thread} (waiting : t.caller = .waiting) (signalled : t.filterEvent = true) :
      Move t .returnAtaOnly
        { t with filterEvent := false, caller := .idle, guarded := t.bdm.ataOnly }
  | wake {t : Thread} (hpc : t.pc = .waiting) :
      Move t .wake
        { t with
          bdm := { t.bdm with event := ⟨false, false, false, false⟩ }
          pc := if t.bdm.event.filter then .gate t.bdm.event.mount
            else if t.bdm.event.mount then .mounting (List.finRange 20) else .waiting }
  | gate {t : Thread} {fuel : Nat} {m : Bool} (hpc : t.pc = .gate m) :
      Move t (.filter fuel)
        { t with
          pc := if t.bdm.ataOnly then .filtering m (List.finRange 20) else .acknowledge m }
  | filterEnd {t : Thread} {fuel : Nat} {m : Bool} (hpc : t.pc = .filtering m []) :
      Move t (.filter fuel) { t with pc := .acknowledge m }
  | filterSlot {t : Thread} {fuel : Nat} {m : Bool} {i : Fin 20} {rest : List (Fin 20)} {s : Bdm}
      (hpc : t.pc = .filtering m (i :: rest)) (h : filterStep fuel t.bdm i = some s) :
      Move t (.filter fuel) { t with bdm := s, pc := .filtering m rest }
  | acknowledge {t : Thread} {fuel : Nat} {m : Bool} (hpc : t.pc = .acknowledge m) :
      Move t (.filter fuel)
        { t with
          filterEvent := true
          pc := if m then .mounting (List.finRange 20) else .waiting }
  | mountEnd {t : Thread} (hpc : t.pc = .mounting []) : Move t .visit { t with pc := .waiting }
  | mountSlot {t : Thread} {i : Fin 20} {rest : List (Fin 20)} (hpc : t.pc = .mounting (i :: rest))
      (occupied : (t.bdm.mount i).bd ≠ none) (unmounted : (t.bdm.mount i).fs = none) :
      Move t .visit { t with pc := .trying i (List.finRange 20) rest }
  | mountSkip {t : Thread} {i : Fin 20} {rest : List (Fin 20)} (hpc : t.pc = .mounting (i :: rest))
      (skip : ¬ ((t.bdm.mount i).bd ≠ none ∧ (t.bdm.mount i).fs = none)) :
      Move t .visit { t with pc := .mounting rest }
  | tryEnd {t : Thread} {i : Fin 20} {rest : List (Fin 20)} (hpc : t.pc = .trying i [] rest) :
      Move t .visit { t with pc := .mounting rest }
  | trySkip {t : Thread} {i j : Fin 20} {js rest : List (Fin 20)}
      (hpc : t.pc = .trying i (j :: js) rest) (hfs : t.bdm.fs j = none) :
      Move t .visit { t with pc := .trying i js rest }
  | offer {t : Thread} {i j : Fin 20} {js rest : List (Fin 20)} {fs : FileSystem}
      (hpc : t.pc = .trying i (j :: js) rest) (hfs : t.bdm.fs j = some fs) :
      Move t .visit
        { t with
          pc := .offering i fs (t.bdm.mount i).offered (generation t.log i) js rest
          log := .offered i fs :: t.log }
  | partitionsFull {t : Thread} {e : Entry} : Move t (.addPartition e) t
  | addPartition {t : Thread} {e : Entry} {i : Fin 20} {fs : FileSystem} {bd : Dev} {gen : Nat}
      {js rest : List (Fin 20)} {k : Fin 10} (hpc : t.pc = .offering i fs (some bd) gen js rest)
      (free : t.bdm.part k = none) :
      Move t (.addPartition e) (Thread.connectBd { t with bdm := setPart t.bdm k bd e } (.part k))
  | accept {t : Thread} {i : Fin 20} {fs : FileSystem} {bd : Option Dev} {gen : Nat}
      {js rest : List (Fin 20)} (hpc : t.pc = .offering i fs bd gen js rest) :
      Move t (.complete true)
        { t with
          bdm := storeFs t.bdm i fs
          pc := .mounting rest
          log := .accepted i gen bd fs :: t.log }
  | refuse {t : Thread} {i : Fin 20} {fs : FileSystem} {bd : Option Dev} {gen : Nat}
      {js rest : List (Fin 20)} (hpc : t.pc = .offering i fs bd gen js rest) :
      Move t (.complete false) { t with pc := .trying i js rest }

theorem Thread.filter_move {t t' : Thread} {fuel : Nat} (h : t.filter fuel = some t') :
    Move t (.filter fuel) t' := by
  unfold Thread.filter at h
  split at h
  · cases h
    exact .gate ‹_›
  · cases h
    exact .filterEnd ‹_›
  · obtain ⟨s, hs, rfl⟩ := Option.map_eq_some_iff.mp h
    exact .filterSlot ‹_› hs
  · cases h
    exact .acknowledge ‹_›
  · cases h

theorem Thread.visit_move {t t' : Thread} (h : t.visit = some t') : Move t .visit t' := by
  unfold Thread.visit at h
  split at h
  · cases h
    exact .mountEnd ‹_›
  · rename_i i rest hpc
    cases h
    by_cases hslot : (t.bdm.mount i).bd ≠ none ∧ (t.bdm.mount i).fs = none
    · rw [if_pos hslot]
      exact .mountSlot hpc hslot.1 hslot.2
    · rw [if_neg hslot]
      exact .mountSkip hpc hslot
  · cases h
    exact .tryEnd ‹_›
  · rename_i i j js rest hpc
    cases hfs : t.bdm.fs j with
    | none =>
        rw [hfs] at h
        cases h
        exact .trySkip hpc hfs
    | some fs =>
        rw [hfs] at h
        cases h
        exact .offer hpc hfs
  · cases h

theorem Thread.addPartition_move {t t' : Thread} {e : Entry} (h : t.addPartition e = some t') :
    Move t (.addPartition e) t' := by
  unfold Thread.addPartition at h
  split at h
  · rename_i hpc
    split at h
    · cases hk : getNextFreePartitionIndex t.bdm with
      | none =>
          rw [hk] at h
          cases h
          exact .partitionsFull
      | some k =>
          rw [hk] at h
          cases h
          exact .addPartition hpc (by simpa using List.find?_some hk)
    · cases h
  · cases h

theorem Thread.complete_move {t t' : Thread} {accept : Bool} (h : t.complete accept = some t') :
    Move t (.complete accept) t' := by
  unfold Thread.complete at h
  split at h
  · rename_i hpc
    cases accept with
    | true =>
        cases h
        exact .accept hpc
    | false =>
        cases h
        exact .refuse hpc
  · cases h

theorem Thread.perform_move {t t' : Thread} {a : Act} (h : t.perform a = some t') : Move t a t' := by
  cases a with
  | connect n =>
      cases h
      exact .connect
  | disconnect n fuel =>
      obtain ⟨s, hs, rfl⟩ := Option.map_eq_some_iff.mp h
      exact .disconnect hs
  | connectFs fs =>
      cases h
      exact .connectFs
  | registerCallback cb =>
      cases h
      exact .registerCallback
  | setAtaOnly enable =>
      simp only [Thread.perform] at h
      split at h
      · cases h
        exact .setAtaOnly ‹_›
      · cases h
  | signalFilter =>
      simp only [Thread.perform] at h
      split at h
      · cases h
        exact .signalFilter ‹_›
      · cases h
  | returnAtaOnly =>
      simp only [Thread.perform] at h
      split at h
      · rename_i hcaller
        cases h
        exact .returnAtaOnly hcaller.1 hcaller.2
      · cases h
  | wake =>
      simp only [Thread.perform, Thread.wake] at h
      split at h
      · rename_i hwake
        cases h
        exact .wake hwake.1
      · cases h
  | filter fuel => exact Thread.filter_move h
  | visit => exact Thread.visit_move h
  | addPartition e => exact Thread.addPartition_move h
  | complete accept => exact Thread.complete_move h

end BdmAssault.Manager
