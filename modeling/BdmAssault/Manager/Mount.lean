import BdmAssault.Lib.Transition
import BdmAssault.Lib.Loop
import BdmAssault.Manager.Partition

/-! # Mount passes, filter passes and the system they belong to

The passes of `bdm_thread`, each as one atomic operation, and the runs made of
them and of the calls of device drivers. A mount pass is a sequence of mount
attempts and a filter pass a sequence of disconnects, so the steps of the system
are the attempts and the disconnects.
-/

namespace BdmAssault.Manager

open Lib

/-- What the `connect_bd` of one filesystem meets. `accept` is the result of a
filesystem that is not a partition driver; `fuel` bounds a GPT table loop. -/
structure Answer where
  medium : Medium
  fuel : Nat
  accept : Bool

/-- `fs->connect_bd(bd) == 0`, with the state it leaves. -/
def fsConnectBd (fs : FileSystem) (a : Answer) (s : Bdm) (bd : Dev) : Option (Bool × Bdm) :=
  match fs with
  | .mbr => some (partConnectMbr a.medium s bd)
  | .gpt => partConnectGpt a.fuel a.medium s bd
  | .fatfs | .other _ => some (a.accept, s)

/-- `mount->fs = g_fs[j]` and the notification. -/
def storeFs (s : Bdm) (i : Fin 20) (fs : FileSystem) : Bdm :=
  { s with
    mount := Function.update s.mount i { s.mount i with fs := some fs }
    event := if s.callback then { s.event with cbMount := true } else s.event }

/-- The loop of `bdm_try_mount` over the filesystems that are left. -/
def tryMountLoop (i : Fin 20) (a : Fin 20 → Answer) : List (Fin 20) → Bdm → Option Bdm
  | [], s => some s
  | j :: js, s =>
      match s.fs j, (s.mount i).offered with
      | none, _ => tryMountLoop i a js s
      -- connect_bd(NULL): nothing is defined beyond this point
      | some _, none => none
      | some fs, some bd =>
          match fsConnectBd fs (a j) s bd with
          | none => none
          | some (true, s) => some (storeFs s i fs)
          | some (false, s) => tryMountLoop i a js s

def bdmTryMount (i : Fin 20) (a : Fin 20 → Answer) (s : Bdm) : Option Bdm :=
  tryMountLoop i a (List.finRange 20) s

/-- The body of the mount loop of `bdm_thread`. -/
def mountStep (a : Fin 20 → Fin 20 → Answer) (s : Bdm) (i : Fin 20) : Option Bdm :=
  if (s.mount i).bd ≠ none ∧ (s.mount i).fs = none then bdmTryMount i (a i) s else some s

def mountPass (a : Fin 20 → Fin 20 → Answer) (s : Bdm) : Option Bdm :=
  (List.finRange 20).foldlM (mountStep a) s

/-- The body of the filter loop of `bdm_thread`. -/
def filterStep (fuel : Nat) (s : Bdm) (i : Fin 20) : Option Bdm :=
  match (s.mount i).bd with
  | none => some s
  | some bd => if foreignName (s.block bd).name then bdmDisconnectBd fuel s bd else some s

def filterPass (fuel : Nat) (s : Bdm) : Option Bdm :=
  if s.ataOnly then (List.finRange 20).foldlM (filterStep fuel) s else some s

/-! ## Runs -/

/-- What may happen to the tables, one atomic operation at a time. -/
inductive Op where
  | connect (n : Nat)
  | disconnect (n : Nat)
  | setAtaOnly (enable : Bool)
  | filter (i : Fin 20)
  | tryMount (i : Fin 20) (a : Fin 20 → Answer)

inductive Step : Bdm → Op → Bdm → Prop where
  | connect {s : Bdm} {n : Nat} : Step s (.connect n) (bdmConnectBd s (.drv n))
  | disconnect {s s' : Bdm} {n fuel : Nat} (h : bdmDisconnectBd fuel s (.drv n) = some s') :
      Step s (.disconnect n) s'
  | setAtaOnly {s : Bdm} {enable : Bool} : Step s (.setAtaOnly enable) { s with ataOnly := enable }
  | filter {s s' : Bdm} {i : Fin 20} {fuel : Nat} (h : filterStep fuel s i = some s') :
      Step s (.filter i) s'
  | tryMount {s s' : Bdm} {i : Fin 20} {a : Fin 20 → Answer} (occupied : (s.mount i).bd ≠ none)
      (unmounted : (s.mount i).fs = none) (h : bdmTryMount i a s = some s') :
      Step s (.tryMount i a) s'

/-- Runs start with empty tables and any set of registered filesystems. -/
def tables : System Bdm Op where
  init := fun s => (∀ i, s.mount i = Mount.empty) ∧ ∀ k, s.part k = none
  step := Step

/-- A mount pass is a run of mount attempts. -/
theorem mountPass_reachable {ok : Bdm → Op → Prop} {a : Fin 20 → Fin 20 → Answer} {s s' : Bdm}
    (hs : tables.Reachable ok s) (admissible : ∀ t i, ok t (.tryMount i (a i)))
    (h : mountPass a s = some s') : tables.Reachable ok s' := by
  refine foldlM_keeps (P := tables.Reachable ok) (fun t i t' ht hstep => ?_) hs h
  unfold mountStep at hstep
  split at hstep
  · rename_i hslot
    exact ht.next (admissible t i) (.tryMount hslot.1 hslot.2 hstep)
  · cases hstep
    exact ht

/-- A filter pass is a run of filter steps. -/
theorem filterPass_reachable {ok : Bdm → Op → Prop} {fuel : Nat} {s s' : Bdm}
    (hs : tables.Reachable ok s) (admissible : ∀ t i, ok t (.filter i))
    (h : filterPass fuel s = some s') : tables.Reachable ok s' := by
  unfold filterPass at h
  split at h
  · exact foldlM_keeps (P := tables.Reachable ok)
      (fun t i t' ht hstep => ht.next (admissible t i) (.filter hstep)) hs h
  · cases h
    exact hs

/-! ## Executing a run -/

/-- The step function; the fuel bounds the nesting of a disconnect. -/
def perform (fuel : Nat) (s : Bdm) : Op → Option Bdm
  | .connect n => some (bdmConnectBd s (.drv n))
  | .disconnect n => bdmDisconnectBd fuel s (.drv n)
  | .setAtaOnly enable => some { s with ataOnly := enable }
  | .filter i => filterStep fuel s i
  | .tryMount i a =>
      if (s.mount i).bd ≠ none ∧ (s.mount i).fs = none then bdmTryMount i a s else none

theorem step_of_perform {fuel : Nat} {s s' : Bdm} {op : Op} (h : perform fuel s op = some s') :
    Step s op s' := by
  cases op with
  | connect n =>
      cases h
      exact .connect
  | disconnect n => exact .disconnect h
  | setAtaOnly enable =>
      cases h
      exact .setAtaOnly
  | filter i => exact .filter h
  | tryMount i a =>
      simp only [perform] at h
      split at h
      · rename_i hslot
        exact .tryMount hslot.1 hslot.2 h
      · cases h

theorem reachable_of_perform {ok : Bdm → Op → Prop} {fuel : Nat} {ops : List Op} {s s' : Bdm}
    (hs : tables.Reachable ok s) (admissible : ∀ t, ∀ op ∈ ops, ok t op)
    (h : ops.foldlM (perform fuel) s = some s') : tables.Reachable ok s' := by
  induction ops generalizing s with
  | nil =>
      cases h
      exact hs
  | cons op ops ih =>
      obtain ⟨t, first, rest⟩ := foldlM_cons_eq_some.mp h
      refine ih (hs.next (admissible s op List.mem_cons_self) (step_of_perform first)) ?_ rest
      exact fun t op hop => admissible t op (List.mem_cons_of_mem _ hop)

/-! ## A disk to run on -/

/-- The bytes listed, and zero elsewhere. -/
def sectorOf (bytes : List (Nat × UInt8)) : Sector := fun n => (bytes.lookup n).getD 0

/-- What every filesystem meets on a disk with the given sectors. -/
def diskAnswer (disk : UInt64 → Option Sector) : Answer where
  medium := ⟨true, fun _ lba => disk lba⟩
  fuel := 8
  accept := false

def usbDisk : BlockDevice := ⟨some "usb", 0, 0, 0, 512, 0, 1000⟩

/-- The state after `bdm_init` and `part_init`, with USB disks as drivers' devices. -/
def afterPartInit : Bdm :=
  bdmConnectFs (bdmConnectFs (bdmInit (fun _ => usbDisk) [some 0, some 1]) .mbr) .gpt

theorem afterPartInit_init : tables.init afterPartInit := ⟨fun _ => rfl, fun _ => rfl⟩

end BdmAssault.Manager
