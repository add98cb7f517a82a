import BdmAssault.Ata.Driver
import BdmAssault.BlockDevice
import Mathlib.Tactic.IntervalCases

/-! # Sector I/O

`ata_device_sector_io64` and `ata_device_sector_io64_bdm_2` of `ps2atad.c`, and the block device
over them.
-/

namespace BdmAssault.Ata

open Lib

def ataDirRead : Int := 0

def ataDirWrite : Int := 1

def ataBdSectorSize : UInt32 := 512

/-! ## The code -/

/-- The variables that both routines set up for a command. -/
structure Chunk where
  len : UInt16
  sector : UInt16
  lcyl : UInt16
  hcyl : UInt16
  select : UInt16
  command : UInt16

/-- Whether a sector takes a 48-bit command. -/
def Devinfo.needs48 (hw : Machine) (d : Devinfo) (lba : UInt64) : Bool :=
  d.lba48 && (if hw.dvrp then d.totalSectors.toUInt64 ≤ lba else true)

/-- Two bytes of an address in one register value, as they are written for a 48-bit command. -/
def joinBytes (high low : UInt64) : UInt16 := ((high &&& 0xff00) ||| (low &&& 0xff)).toUInt16

def setup (hw : Machine) (d : Devinfo) (device : Fin 2) (lba : UInt64) (nsectors : UInt32) (dir : Int) : Chunk :=
  if d.needs48 hw lba then
    { len := (if 65536 < nsectors then 65536 else nsectors).toUInt16
      sector := joinBytes (lba >>> 16) lba
      lcyl := joinBytes (lba >>> 24) (lba >>> 8)
      hcyl := joinBytes (lba >>> 32) (lba >>> 16)
      select := UInt16.ofNat device <<< 4
      command := if dir = ataDirWrite then ataCWriteDmaExt else ataCReadDmaExt }
  else
    { len := (if 256 < nsectors then 256 else nsectors).toUInt16
      sector := (lba &&& 0xff).toUInt16
      lcyl := ((lba >>> 8) &&& 0xff).toUInt16
      hcyl := ((lba >>> 16) &&& 0xff).toUInt16
      select := UInt16.ofNat device <<< 4 ||| ((lba >>> 24) &&& 0xf).toUInt16
      command := if dir = ataDirWrite then ataCWriteDma else ataCReadDma }

/-- The arguments of `sceAtaExecCmd`. -/
def Chunk.args (c : Chunk) (buf : UInt32) : CmdArgs where
  buf := buf
  blkcount := c.len.toUInt32
  feature := 0
  nsector := c.len
  sector := c.sector
  lcyl := c.lcyl
  hcyl := c.hcyl
  select := c.select
  command := c.command

/-- The variables of the outer loops. -/
structure IoVars where
  buf : UInt32
  lba : UInt64
  nsectors : UInt32
  res : Int

def IoVars.next (v : IoVars) (len : UInt16) (sectorSize : UInt32) (res : Int) : IoVars :=
  ⟨v.buf + len.toUInt32 * sectorSize, v.lba + len.toUInt64, v.nsectors - len.toUInt32, res⟩

section Code

variable (hw : Machine) (device : Fin 2) (dir : Int)

/-- What both routines do for a command that was issued. -/
def transferResult : Fn Int := do
  Prog.when (hw.gamestar = false) (doing (.setDir dir))
  let res ← sceAtaWaitResult hw
  doing .dmaOff
  return res

/-- The retry loop of `ata_device_sector_io64`. -/
def io64Retries (c : Chunk) (buf : UInt32) : Nat → Int → Fn Int
  | 0, res => return res
  | retries + 1, _ => do
      Prog.when (hw.gamestar = true) (doing (.setDir dir))
      let res ← execCmd hw (c.args buf)
      if res ≠ 0 then return res
      else
        let res ← transferResult hw dir
        if res ≠ ataResErrIcrc then return res else io64Retries c buf retries res

def io64Loop : Nat → IoVars → State → Option (Int × State)
  | 0, _, _ => none
  | rounds + 1, v, s =>
      if v.res = 0 ∧ 0 < v.nsectors then
        let c := setup hw (s.devinfo device) device v.lba v.nsectors dir
        let r := (io64Retries hw dir c v.buf 3 0).outcome id s
        io64Loop rounds (v.next c.len 512 r.1) r.2
      else some (v.res, s)

def ataDeviceSectorIo64 (rounds : Nat) (buf : UInt32) (lba : UInt64) (nsectors : UInt32) (s : State) :
    Option (Int × State) := io64Loop hw device dir rounds ⟨buf, lba, nsectors, 0⟩ s

/-- The retry loop of `ata_device_sector_io64_bdm_2`, which corrects the number of blocks to
transfer. -/
def bdm2Retries (dmaBlkcountPerSector : UInt32) (c : Chunk) (buf : UInt32) : Nat → Int → Fn Int
  | 0, res => return res
  | retries + 1, _ => do
      Prog.when (hw.gamestar = true) (doing (.setDir dir))
      let res ← execCmd hw (c.args buf)
      if res ≠ 0 then return res
      else
        modify fun s => s.withCmd { s.cmd with blkcount := c.len.toUInt32 * dmaBlkcountPerSector }
        let res ← transferResult hw dir
        if res ≠ ataResErrIcrc then return res else bdm2Retries dmaBlkcountPerSector c buf retries res

end Code

section Setup

variable {hw : Machine} {d : Devinfo} {device : Fin 2} {lba : UInt64} {nsectors : UInt32} {dir : Int}

theorem masked_and (b m k : UInt8) : (b ||| m &&& 0xf) &&& k = (b &&& k) ||| (m &&& (0xf &&& k)) := by
  apply UInt8.toBitVec_inj.mp
  simp only [UInt8.toBitVec_and, UInt8.toBitVec_or, BitVec.and_or_distrib_right, BitVec.and_assoc]

def deviceBits (device : Fin 2) : UInt8 := if device = 0 then 0x40 else 0x50

theorem select_value (device : Fin 2) (m : UInt16) :
    ((UInt16.ofNat device <<< 4 ||| m) ||| ataSelLba).toUInt8 = deviceBits device ||| m.toUInt8 := by
  rw [UInt16.or_assoc, UInt16.or_comm m, ← UInt16.or_assoc, UInt16.toUInt8_or]
  obtain rfl | rfl : device = 0 ∨ device = 1 := by omega
  · rfl
  · rfl

/-- The three fields of the device register. -/
theorem deviceBits_fields (device : Fin 2) (m : UInt8) :
    selected (deviceBits device ||| m &&& 0xf) = device ∧
      ((deviceBits device ||| m &&& 0xf) &&& 0x40 ≠ 0) ∧ (deviceBits device ||| m &&& 0xf) &&& 0xf = m &&& 0xf := by
  have h10 : (0xf : UInt8) &&& 0x10 = 0 := rfl
  have h40 : (0xf : UInt8) &&& 0x40 = 0 := rfl
  have hf : (0xf : UInt8) &&& 0xf = 0xf := rfl
  unfold selected deviceBits
  rw [masked_and, masked_and, masked_and, h10, h40, hf, UInt8.and_zero, UInt8.or_zero, UInt8.or_zero]
  obtain rfl | rfl : device = 0 ∨ device = 1 := by omega
  · exact ⟨rfl, by decide, UInt8.zero_or⟩
  · exact ⟨rfl, by decide, UInt8.zero_or⟩

/-! ### Numbers -/

theorem toUInt8_bytes2 (n : UInt16) : [(n >>> 8).toUInt8, n.toUInt8] = bigEndianBytes n.toNat 2 :=
  shiftRight_bytes16 n 2 (by decide)

theorem masked_nibble (x : UInt64) : (x &&& 0xf).toUInt16.toUInt8 = x.toUInt8 &&& 0xf := by
  apply UInt8.toBitVec_inj.mp
  apply BitVec.eq_of_getLsbD_eq
  intro i hi
  interval_cases i <;> simp

/-- The value of both routines' `len`. -/
theorem setup_len (h48 : d.needs48 hw lba = true → nsectors.toNat < 65536) :
    (setup hw d device lba nsectors dir).len.toNat =
      if d.needs48 hw lba = true then nsectors.toNat else min 256 nsectors.toNat := by
  unfold setup
  split
  · rename_i h
    have hlen : ¬65536 < nsectors := fun hlt => Nat.lt_asymm (h48 h) (UInt32.lt_iff_toNat_lt.mp hlt)
    rw [if_neg hlen, UInt32.toNat_toUInt16]
    exact Nat.mod_eq_of_lt (h48 h)
  · split
    · rename_i hlt
      exact (Nat.min_eq_left (Nat.le_of_lt (UInt32.lt_iff_toNat_lt.mp hlt))).symm
    · rename_i hlt
      have hle : nsectors.toNat ≤ 256 := Nat.le_of_not_lt fun h => hlt (UInt32.lt_iff_toNat_lt.mpr h)
      rw [UInt32.toNat_toUInt16, Nat.mod_eq_of_lt (by omega), Nat.min_eq_right hle]

def opcodeOf (ext : Bool) (dir : Int) : UInt8 :=
  if ext then if dir = ataDirWrite then opWriteDmaExt else opReadDmaExt
  else if dir = ataDirWrite then opWriteDma else opReadDma

/-- `ata_cmd_table` and the opcodes. -/
theorem dma_command (ext : Bool) (dir : Int) {a : CmdArgs}
    (h : a.command = if ext then if dir = ataDirWrite then ataCWriteDmaExt else ataCReadDmaExt
      else if dir = ataDirWrite then ataCWriteDma else ataCReadDma) :
    a.type = (if ext then 0x84 else 4) ∧ a.command.toUInt8 = opcodeOf ext dir ∧
      decide (a.command ≠ ataCReadDma ∧ a.command ≠ ataCReadDmaExt) = decide (dir = ataDirWrite) := by
  unfold CmdArgs.type opcodeOf
  rw [h]
  by_cases hdir : dir = ataDirWrite
  · cases ext <;>
    · simp only [hdir]
      exact ⟨rfl, rfl, rfl⟩
  · cases ext <;>
    · simp only [hdir]
      exact ⟨rfl, rfl, rfl⟩

theorem setup_command :
    (setup hw d device lba nsectors dir).command =
      if d.needs48 hw lba then if dir = ataDirWrite then ataCWriteDmaExt else ataCReadDmaExt
      else if dir = ataDirWrite then ataCWriteDma else ataCReadDma := by
  unfold setup
  split <;> rfl

theorem setup_select :
    let r := ((setup hw d device lba nsectors dir).select ||| ataSelLba).toUInt8
    selected r = device ∧ r &&& 0x40 ≠ 0 := by
  unfold setup
  split
  · dsimp only
    obtain rfl | rfl : device = 0 ∨ device = 1 := by omega
    · exact ⟨rfl, by decide⟩
    · exact ⟨rfl, by decide⟩
  · obtain ⟨hdevice, hlba, -⟩ := deviceBits_fields device (lba >>> 24).toUInt8
    dsimp only
    rw [select_value, masked_nibble]
    exact ⟨hdevice, hlba⟩

/-- The address in the registers of each form. -/
def Chunk.address (c : Chunk) (ext : Bool) : Nat :=
  if ext then
    bigEndian [(c.hcyl >>> 8).toUInt8, (c.lcyl >>> 8).toUInt8, (c.sector >>> 8).toUInt8, c.hcyl.toUInt8,
      c.lcyl.toUInt8, c.sector.toUInt8]
  else bigEndian [(c.select ||| ataSelLba).toUInt8 &&& 0xf, c.hcyl.toUInt8, c.lcyl.toUInt8, c.sector.toUInt8]

theorem opcodeOf_ext (ext : Bool) (dir : Int) :
    (opcodeOf ext dir = opReadDmaExt ∨ opcodeOf ext dir = opWriteDmaExt) ↔ ext = true := by
  unfold opcodeOf
  cases ext
  · refine iff_of_false ?_ nofun
    rw [if_neg Bool.false_ne_true]
    split <;> decide
  · refine iff_of_true ?_ rfl
    rw [if_pos rfl]
    split
    · exact .inr rfl
    · exact .inl rfl

/-- The command that the device takes for a chunk. -/
theorem setup_decoded (hpos : 0 < nsectors.toNat) (h48 : d.needs48 hw lba = true → nsectors.toNat < 65536)
    (buf : UInt32) (dev : Device) :
    let c := setup hw d device lba nsectors dir
    (dev.run (c.args buf).writes).issued =
      some ⟨opcodeOf (d.needs48 hw lba) dir, device, true, c.address (d.needs48 hw lba), c.len.toNat⟩ := by
  have hlen := @setup_len hw d device lba nsectors dir h48
  obtain ⟨htype, hop, -⟩ :=
    dma_command (d.needs48 hw lba) dir (a := (setup hw d device lba nsectors dir).args buf) setup_command
  obtain ⟨hdevice, hbit⟩ := @setup_select hw d device lba nsectors dir
  have hform := opcodeOf_ext (d.needs48 hw lba) dir
  dsimp only at hdevice hbit ⊢
  rw [← hop] at hform ⊢
  generalize setup hw d device lba nsectors dir = c at *
  cases hext : d.needs48 hw lba with
  | true =>
      rw [hext, if_pos rfl] at htype hlen
      have hsectors : bigEndian [(c.len >>> 8).toUInt8, c.len.toUInt8] = c.len.toNat := by
        rw [toUInt8_bytes2, bigEndian_bytes]
        exact Nat.mod_eq_of_lt (UInt16.toNat_lt_size _)
      rw [run_writes_ext (by rw [htype]; decide) (hform.mpr hext)]
      dsimp only [Chunk.args]
      simp only [hdevice, hbit, ne_eq, not_false_eq_true, decide_true]
      rw [hsectors, if_neg (by omega)]
      rfl
  | false =>
      rw [hext, if_neg Bool.false_ne_true] at htype hlen
      have hsectors : (let sectors := bigEndian [c.len.toUInt8]
          if sectors = 0 then 256 else sectors) = c.len.toNat := by
        have hbyte : bigEndian [c.len.toUInt8] = c.len.toNat % 256 := bigEndian_bytes _ 1
        dsimp only
        rw [hbyte]
        split <;> omega
      rw [run_writes (by rw [htype]; decide) fun h => Bool.false_ne_true (hext.symm.trans (hform.mp h))]
      dsimp only [Chunk.args] at hsectors ⊢
      simp only [hdevice, hbit, ne_eq, not_false_eq_true, decide_true]
      rw [hsectors]
      rfl

end Setup

end BdmAssault.Ata
