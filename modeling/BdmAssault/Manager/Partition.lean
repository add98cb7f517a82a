import BdmAssault.Manager.Table

/-! # The partition drivers

`part_connect_mbr` and `part_connect_gpt` read a partition table from the device
they are offered and turn its entries into pseudo-devices. What the device
answers is an argument: any sector may hold anything, and any read may fail.
-/

namespace BdmAssault.Manager

/-! ## On-disk records -/

abbrev Sector := Nat → UInt8

/-- The `n`-byte little-endian field at offset `off`. -/
def littleEndian (b : Sector) (off : Nat) : Nat → Nat
  | 0 => 0
  | n + 1 => (b off).toNat + 256 * littleEndian b (off + 1) n

def bytesAt (b : Sector) (off n : Nat) : List UInt8 := (List.range n).map fun i => b (off + i)

structure MbrPartitionEntry where
  partitionType : UInt8
  firstLba : UInt32
  sectorCount : UInt32

structure MasterBootRecord where
  primaryPartitions : Fin 4 → MbrPartitionEntry
  bootSignature : UInt16

def mbrPartitionEntryAt (b : Sector) (off : Nat) : MbrPartitionEntry where
  partitionType := b (off + 0x04)
  firstLba := .ofNat (littleEndian b (off + 0x08) 4)
  sectorCount := .ofNat (littleEndian b (off + 0x0C) 4)

def masterBootRecord (b : Sector) : MasterBootRecord where
  primaryPartitions := fun i => mbrPartitionEntryAt b (0x1BE + 16 * i.val)
  bootSignature := .ofNat (littleEndian b 0x1FE 2)

structure GptPartitionTableHeader where
  signature : List UInt8
  firstLba : UInt64
  lastLba : UInt64
  partitionTableLba : UInt64
  partitionCount : UInt32

structure GptPartitionTableEntry where
  partitionTypeGuid : List UInt8
  firstLba : UInt64
  lastLba : UInt64
  attributeFlags : UInt64

def gptPartitionTableHeader (b : Sector) : GptPartitionTableHeader where
  signature := bytesAt b 0x00 8
  firstLba := .ofNat (littleEndian b 0x28 8)
  lastLba := .ofNat (littleEndian b 0x30 8)
  partitionTableLba := .ofNat (littleEndian b 0x48 8)
  partitionCount := .ofNat (littleEndian b 0x50 4)

/-- `pGptPartitionEntry[x]` -/
def gptPartitionTableEntry (b : Sector) (x : Nat) : GptPartitionTableEntry where
  partitionTypeGuid := bytesAt b (128 * x) 16
  firstLba := .ofNat (littleEndian b (128 * x + 0x20) 8)
  lastLba := .ofNat (littleEndian b (128 * x + 0x28) 8)
  attributeFlags := .ofNat (littleEndian b (128 * x + 0x30) 8)

def mbrBootSignature : UInt16 := 0xAA55

def mbrPartTypeGptProtectiveMbr : UInt8 := 0xEE

/-- "EFI PART" -/
def efiPartitionSignature : List UInt8 := [0x45, 0x46, 0x49, 0x20, 0x50, 0x41, 0x52, 0x54]

def nullGuid : List UInt8 := List.replicate 16 0

def msReservedPartitionGuid : List UInt8 :=
  [0x16, 0xE3, 0xC9, 0xE3, 0x5C, 0x0B, 0xB8, 0x4D, 0x81, 0x7D, 0xF9, 0x2D, 0xF0, 0x02, 0x15, 0xAE]

def efiSystemPartition : List UInt8 :=
  [0x28, 0x73, 0x2A, 0xC1, 0x1F, 0xF8, 0xD2, 0x11, 0xBA, 0x4B, 0x00, 0xA0, 0xC9, 0x3E, 0xC9, 0x3B]

def gptPartAttrIgnore : UInt64 := 0x2

/-! ## Pseudo-devices -/

/-- What a table entry contributes to the pseudo-device made for it. -/
structure Entry where
  parNr : UInt32
  parId : UInt8
  firstLba : UInt64
  sectorCount : UInt64

def getNextFreePartitionIndex (s : Bdm) : Option (Fin 10) :=
  (List.finRange 10).find? fun k => (s.part k).isNone

def pseudoDevice (bd : BlockDevice) (e : Entry) : BlockDevice where
  name := bd.name
  devNr := bd.devNr
  parNr := e.parNr
  parId := e.parId
  sectorSize := bd.sectorSize
  sectorOffset := bd.sectorOffset + e.firstLba
  sectorCount := e.sectorCount

def setPart (s : Bdm) (k : Fin 10) (bd : Dev) (e : Entry) : Bdm :=
  { s with
    part := Function.update s.part k (some bd)
    block := Function.update s.block (.part k) (pseudoDevice (s.block bd) e) }

/-- The part of the table loops that both drivers share; the count is `mountCount`. -/
def connectPartition (bd : Dev) (acc : Bdm × Nat) (e : Entry) : Bdm × Nat :=
  match getNextFreePartitionIndex acc.1 with
  | none => acc
  | some k => (bdmConnectBd (setPart acc.1 k bd e) (.part k), acc.2 + 1)

/-- `sectorSize` is a power of two from 512 to 4096. -/
def badSectorSize (size : UInt32) : Bool := size < 512 || 4096 < size || (size &&& (size - 1)) ≠ 0

/-- What a driver meets while it scans: whether the buffer can be allocated, and
the answer to its `n`-th read. -/
structure Medium where
  alloc : Bool
  read : Nat → UInt64 → Option Sector

/-! ## MBR -/

def mbrEntry (mbr : MasterBootRecord) (i : Fin 4) : Entry where
  parNr := .ofNat (i.val + 1)
  parId := (mbr.primaryPartitions i).partitionType
  firstLba := (mbr.primaryPartitions i).firstLba.toUInt64
  sectorCount := (mbr.primaryPartitions i).sectorCount.toUInt64

/-- The entries the loop does not skip. -/
def mbrEntries (mbr : MasterBootRecord) : List Entry :=
  ((List.finRange 4).filter fun i => (mbr.primaryPartitions i).sectorCount ≠ 0).map (mbrEntry mbr)

/-- The table that `part_connect_mbr` goes through, if it gets that far. -/
def mbrTable (m : Medium) (bd : BlockDevice) : Option MasterBootRecord :=
  if bd.sectorOffset ≠ 0 || badSectorSize bd.sectorSize || !m.alloc then none
  else
    match m.read 0 0 with
    | none => none
    | some sector =>
        let mbr := masterBootRecord sector
        if mbr.bootSignature ≠ mbrBootSignature then none
        -- a protective MBR is left to the GPT driver
        else if (mbr.primaryPartitions 0).partitionType = mbrPartTypeGptProtectiveMbr then none
        else some mbr

/-- `part_connect_mbr`; the first component is `rval == 0`. -/
def partConnectMbr (m : Medium) (s : Bdm) (bd : Dev) : Bool × Bdm :=
  match mbrTable m (s.block bd) with
  | none => (false, s)
  | some mbr =>
      let (s, mountCount) := (mbrEntries mbr).foldl (connectPartition bd) (s, 0)
      (0 < mountCount, s)

/-! ## GPT -/

def gptMountable (header : GptPartitionTableHeader) (e : GptPartitionTableEntry) : Bool :=
  e.partitionTypeGuid ≠ nullGuid
    && !(e.firstLba < header.firstLba || header.lastLba < e.lastLba)
    && e.partitionTypeGuid ≠ msReservedPartitionGuid
    && e.partitionTypeGuid ≠ efiSystemPartition
    && (e.attributeFlags &&& gptPartAttrIgnore) = 0

def gptEntry (i : Int32) (sector : Sector) (x : Nat) : Entry where
  parNr := (i + .ofNat x + 1).toUInt32
  parId := 0
  firstLba := (gptPartitionTableEntry sector x).firstLba
  -- last_lba is inclusive
  sectorCount := (gptPartitionTableEntry sector x).lastLba -
    (gptPartitionTableEntry sector x).firstLba + 1

/-- The entries of one table sector that the inner loop does not skip; `i` is the
loop counter when the sector is read. -/
def gptEntries (header : GptPartitionTableHeader) (entriesPerSector : Nat) (i : Int32)
    (sector : Sector) : List Entry :=
  ((List.range entriesPerSector).filter fun x =>
    gptMountable header (gptPartitionTableEntry sector x)).map (gptEntry i sector)

/-- `partition_table_lba + (i / entriesPerSector)`, the quotient taken in `int`. -/
def gptTableLba (header : GptPartitionTableHeader) (entriesPerSector : Nat) (i : Int32) : UInt64 :=
  header.partitionTableLba + (i / .ofNat entriesPerSector).toInt64.toUInt64

/-- The table loop. `n` counts the table sectors read so far; `i` is compared with
`partition_count` as an unsigned number, and wraps. -/
def gptLoop (m : Medium) (bd : Dev) (header : GptPartitionTableHeader) (entriesPerSector : Nat) :
    Nat → Nat → Int32 → Bdm × Nat → Option (Bool × Bdm)
  | 0, _, _, _ => none
  | fuel + 1, n, i, acc =>
      if i.toUInt32 < header.partitionCount then
        if i % .ofNat entriesPerSector = 0 then
          match m.read (n + 1) (gptTableLba header entriesPerSector i) with
          | none => some (false, acc.1)
          | some sector =>
              gptLoop m bd header entriesPerSector fuel (n + 1) (i + .ofNat entriesPerSector)
                ((gptEntries header entriesPerSector i sector).foldl (connectPartition bd) acc)
        else gptLoop m bd header entriesPerSector fuel n i acc
      else some (0 < acc.2, acc.1)

/-- The header that `part_connect_gpt` goes by, if it gets that far. -/
def gptHeader (m : Medium) (bd : BlockDevice) : Option GptPartitionTableHeader :=
  if bd.sectorOffset ≠ 0 || badSectorSize bd.sectorSize || !m.alloc then none
  else
    match m.read 0 1 with
    | none => none
    | some sector =>
        let header := gptPartitionTableHeader sector
        if header.signature ≠ efiPartitionSignature then none else some header

def entriesPerSector (bd : BlockDevice) : Nat := bd.sectorSize.toNat / 128

/-- `part_connect_gpt`; the fuel bounds the iterations of the table loop, and
`none` means that it did not suffice. -/
def partConnectGpt (fuel : Nat) (m : Medium) (s : Bdm) (bd : Dev) : Option (Bool × Bdm) :=
  match gptHeader m (s.block bd) with
  | none => some (false, s)
  | some header => gptLoop m bd header (entriesPerSector (s.block bd)) fuel 0 0 (s, 0)

end BdmAssault.Manager
