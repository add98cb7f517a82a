import Mathlib.Data.Fintype.Basic
import BdmAssault.BlockDevice

/-! # The tables of the block device manager

`g_mount`, `g_fs` and `g_part` of `bdm_bdm.c` and `bdm_part_driver.c`, with the
operations that drivers call. A pointer to a `struct block_device` is one of a
driver's device, a cached device made by `bd_cache_create`, or an element of
`g_part_bd`; `block` is the record behind each pointer.
-/

namespace BdmAssault.Manager

inductive Dev where
  | drv (n : Nat)
  | cache (n : Nat)
  | part (k : Fin 10)
  deriving DecidableEq

/-- The registered `struct file_system`s: the two partition drivers, FatFs, and
whatever else calls `bdm_connect_fs`. -/
inductive FileSystem where
  | mbr
  | gpt
  | fatfs
  | other (n : Nat)
  deriving DecidableEq

/-- The drivers whose `disconnect_bd` is `part_disconnect`. -/
def FileSystem.isPartition : FileSystem → Bool
  | .mbr | .gpt => true
  | .fatfs | .other _ => false

/-- `struct bdm_mounts` -/
structure Mount where
  bd : Option Dev
  cbd : Option Dev
  fs : Option FileSystem
  deriving DecidableEq

def Mount.empty : Mount := ⟨none, none, none⟩

/-- `mount->cbd != NULL ? mount->cbd : mount->bd`, the device a filesystem sees. -/
def Mount.offered (m : Mount) : Option Dev := m.cbd.or m.bd

/-- The bits of `bdm_event`. -/
structure EventFlag where
  cbMount : Bool
  cbUmount : Bool
  mount : Bool
  filter : Bool
  deriving DecidableEq

/-- `heap` lists what the coming calls of `bd_cache_create` will get from the
allocator; `callback` says whether `g_cb` is set. -/
structure Bdm where
  block : Dev → BlockDevice
  heap : List (Option Nat)
  mount : Fin 20 → Mount
  fs : Fin 20 → Option FileSystem
  part : Fin 10 → Option Dev
  callback : Bool
  ataOnly : Bool
  event : EventFlag

/-- The state `bdm_init` leaves, before any `bdm_connect_fs`. -/
def bdmInit (block : Dev → BlockDevice) (heap : List (Option Nat)) : Bdm where
  block := block
  heap := heap
  mount := fun _ => Mount.empty
  fs := fun _ => none
  part := fun _ => none
  callback := false
  ataOnly := false
  event := ⟨false, false, false, false⟩

/-! ## Connecting -/

/-- `name && strcmp(name, "ata") != 0` -/
def foreignName : Option String → Bool
  | none => false
  | some name => name ≠ "ata"

/-- `bd_cache_create`. The allocator never hands out memory that is in use, and
the new device copies the parameters of the old one. -/
def createCache (s : Bdm) (bd : Dev) : Option Dev × Bdm :=
  match s.heap with
  | [] => (none, s)
  | none :: rest => (none, { s with heap := rest })
  | some n :: rest =>
      if ∃ i, (s.mount i).cbd = some (.cache n) then (none, { s with heap := rest })
      else (some (.cache n),
        { s with heap := rest, block := Function.update s.block (.cache n) (s.block bd) })

def freeMount (s : Bdm) : Option (Fin 20) :=
  (List.finRange 20).find? fun i => (s.mount i).bd.isNone

def bdmConnectBd (s : Bdm) (bd : Dev) : Bdm :=
  if s.ataOnly && foreignName (s.block bd).name then s
  else
    match freeMount s with
    | none => s
    | some i =>
        -- a cache for the entire device only, not for the partitions on it
        let (cbd, s) := if (s.block bd).parNr = 0 then createCache s bd else (none, s)
        { s with
          mount := Function.update s.mount i { s.mount i with bd := some bd, cbd := cbd }
          event := { s.event with mount := true } }

def freeFs (s : Bdm) : Option (Fin 20) :=
  (List.finRange 20).find? fun j => (s.fs j).isNone

def bdmConnectFs (s : Bdm) (fs : FileSystem) : Bdm :=
  let s := match freeFs s with
    | none => s
    | some j => { s with fs := Function.update s.fs j (some fs) }
  { s with event := { s.event with mount := true } }

/-! ## Disconnecting

`bdm_disconnect_bd` and `part_disconnect` call each other. The fuel bounds the
nesting depth; `none` means that it did not suffice.
-/

def clearMount (s : Bdm) (i : Fin 20) : Bdm :=
  { s with
    mount := Function.update s.mount i Mount.empty
    event := if s.callback then { s.event with cbUmount := true } else s.event }

def clearPart (s : Bdm) (k : Fin 10) : Bdm := { s with part := Function.update s.part k none }

section Disconnect

variable (disconnect : Bdm → Dev → Option Bdm)

def partDisconnectStep (bd : Dev) (s : Bdm) (k : Fin 10) : Option Bdm :=
  if s.part k = some bd then (disconnect s (.part k)).map (clearPart · k) else some s

def partDisconnect (s : Bdm) (bd : Dev) : Option Bdm :=
  (List.finRange 10).foldlM (partDisconnectStep disconnect bd) s

/-- `fs->disconnect_bd(bd)`; FatFs and other filesystems leave the tables alone. -/
def fsDisconnectBd (fs : FileSystem) (s : Bdm) (bd : Dev) : Option Bdm :=
  if fs.isPartition then partDisconnect disconnect s bd else some s

def unmountFs (s : Bdm) (i : Fin 20) (bd : Dev) : Option Bdm :=
  match (s.mount i).fs with
  | none => some s
  | some fs => fsDisconnectBd disconnect fs s ((s.mount i).cbd.getD bd)

def disconnectStep (bd : Dev) (s : Bdm) (i : Fin 20) : Option Bdm :=
  if (s.mount i).bd = some bd then (unmountFs disconnect s i bd).map (clearMount · i) else some s

end Disconnect

def bdmDisconnectBd : Nat → Bdm → Dev → Option Bdm
  | 0, _, _ => none
  | fuel + 1, s, bd => (List.finRange 20).foldlM (disconnectStep (bdmDisconnectBd fuel) bd) s

end BdmAssault.Manager
