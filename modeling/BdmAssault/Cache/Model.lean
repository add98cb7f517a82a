import BdmAssault.BlockDevice

/-! # The sector cache of a whole device

`bd_cache.c`: thirty-two blocks of eight sectors in front of a block device.
Block positions are not aligned, may overlap, and are compared in wrapping
64-bit arithmetic; `0xffffffffffffffff` marks an empty block. A device answer
is an argument of the call that needs it.
-/

namespace BdmAssault.Cache

variable {α : Type*}

def emptySector : UInt64 := 0xffffffffffffffff

/-- `struct bd_cache` without its device pointer; `cache b k` is the `k`-th
sector stored in block `b`. -/
structure BdCache (α : Type*) where
  weight : Fin 32 → Int32
  sector : Fin 32 → UInt64
  cache : Fin 32 → Nat → α

def overlaps (csector sector : UInt64) (count : UInt16) : Bool :=
  sector < csector + 8 && sector + count.toUInt64 > csector

def contains (csector sector : UInt64) (count : UInt16) : Bool :=
  sector ≥ csector && sector + count.toUInt64 ≤ csector + 8

def invalidate (c : BdCache α) (sector : UInt64) (count : UInt16) : BdCache α :=
  { c with sector := fun b =>
      if overlaps (c.sector b) sector count then emptySector else c.sector b }

/-- What a device read returned and left in the memory it was given. -/
structure ReadReply (α : Type*) where
  result : Int
  data : Nat → α

/-- What a device write returned and the sectors the device holds afterwards. -/
structure WriteReply (α : Type*) where
  result : Int
  contents : Nat → α

abbrev DeviceRead (α : Type*) := UInt64 → UInt16 → ReadReply α
abbrev DeviceWrite (α : Type*) := UInt64 → (Nat → α) → UInt16 → WriteReply α

/-! ## Choosing the block to evict -/

/-- Weights after dynamic aging, and the first block of lowest weight. -/
structure Aging where
  weight : Fin 32 → Int32
  bestWeight : Int32
  best : Fin 32

def ageBlock (a : Aging) (b : Fin 32) : Aging :=
  let w := a.weight b - (8 * 256 / 32 + a.weight b / 32)
  let weight := Function.update a.weight b w
  if w < a.bestWeight then ⟨weight, w, b⟩ else ⟨weight, a.bestWeight, a.best⟩

def age (weight : Fin 32 → Int32) : Aging :=
  (List.finRange 32).foldl ageBlock ⟨weight, 0x7fffffff, 0⟩

/-! ## Reads and writes -/

/-- The branch a read takes. -/
inductive Route where
  | empty
  | outOfRange
  | direct
  | hit (b : Fin 32)
  | miss
  deriving DecidableEq

def route (bd : BlockDevice) (c : BdCache α) (sector : UInt64) (count : UInt16) : Route :=
  if count = 0 then .empty
  else if sector ≥ bd.sectorCount ∨ count.toUInt64 > bd.sectorCount - sector then .outOfRange
  else if bd.sectorSize ≠ 512 ∨ count ≥ 8 then .direct
  else
    match (List.finRange 32).find? fun b => contains (c.sector b) sector count with
    | some b => .hit b
    | none => .miss

/-- Read-ahead never runs past the end of the device. -/
def sectorsToCache (bd : BlockDevice) (sector : UInt64) : UInt16 :=
  if 8 > bd.sectorCount - sector then (bd.sectorCount - sector).toUInt16 else 8

structure ReadResult (α : Type*) where
  ret : Int
  buffer : Nat → α
  cache : BdCache α

def readHit (c : BdCache α) (b : Fin 32) (sector : UInt64) (buffer : Nat → α)
    (count : UInt16) : ReadResult α :=
  let w := if c.weight b < 0 then 0 else c.weight b
  let offset := (sector - c.sector b).toNat
  { ret := count.toNat
    buffer := copySectors buffer (fun i => c.cache b (offset + i)) count.toNat
    cache := { c with
      weight := Function.update c.weight b (w + count.toUInt32.toInt32 * 256) } }

/-- The victim is emptied before the device is asked, and takes its new position
only when the whole fill arrived. -/
def readMiss (bd : BlockDevice) (c : BdCache α) (dev : DeviceRead α) (sector : UInt64)
    (buffer : Nat → α) (count : UInt16) : ReadResult α :=
  let a := age c.weight
  let n := sectorsToCache bd sector
  let reply := dev sector n
  let cache := Function.update c.cache a.best (copySectors (c.cache a.best) reply.data n.toNat)
  if reply.result ≠ n.toNat then
    { ret := if reply.result < 0 then reply.result else -eio
      buffer := buffer
      cache := ⟨a.weight, Function.update c.sector a.best emptySector, cache⟩ }
  else
    { ret := count.toNat
      buffer := copySectors buffer (cache a.best) count.toNat
      cache := ⟨Function.update a.weight a.best (count.toUInt32.toInt32 * 256),
        Function.update c.sector a.best sector, cache⟩ }

/-- `_read` -/
def read (bd : BlockDevice) (c : BdCache α) (dev : DeviceRead α) (sector : UInt64)
    (buffer : Nat → α) (count : UInt16) : ReadResult α :=
  match route bd c sector count with
  | .empty => ⟨0, buffer, c⟩
  | .outOfRange => ⟨-eio, buffer, c⟩
  | .direct =>
      let reply := dev sector count
      ⟨reply.result, copySectors buffer reply.data count.toNat, c⟩
  | .hit b => readHit c b sector buffer count
  | .miss => readMiss bd c dev sector buffer count

structure WriteResult (α : Type*) where
  ret : Int
  contents : Nat → α
  cache : BdCache α

/-- `_write` -/
def write (c : BdCache α) (dev : DeviceWrite α) (sector : UInt64) (buffer : Nat → α)
    (count : UInt16) : WriteResult α :=
  let reply := dev sector buffer count
  ⟨reply.result, reply.contents, invalidate c sector count⟩

/-- `bd_cache_create`: the two flags are the outcomes of the two allocations, and
`junk` is whatever the allocated block memory holds. -/
def bdCacheCreate (bd : Option BlockDevice) (cbdAllocated cAllocated : Bool)
    (junk : Fin 32 → Nat → α) : Option (BlockDevice × BdCache α) :=
  match bd with
  | none => none
  | some bd =>
      if cbdAllocated && cAllocated then
        some (bd, ⟨fun _ => 0, fun _ => emptySector, junk⟩)
      else none

end BdmAssault.Cache
