import BdmAssault.BlockDevice
import BdmAssault.Lib.BigEndian
import BdmAssault.Usb.MassStorage

/-! # Block I/O over SCSI

The capacity that `scsi_warmup` takes from a device, and `scsi_read` and `scsi_write` of
`usbmass_bd_scsi.c` with the commands that they queue.
-/

namespace BdmAssault.Usb

open Lib

/-! ## The capacity -/

def getBI32 (buf : Nat → UInt8) (k : Nat) : UInt32 :=
  (buf k).toUInt32 <<< 24 ||| (buf (k + 1)).toUInt32 <<< 16 ||| (buf (k + 2)).toUInt32 <<< 8 |||
    (buf (k + 3)).toUInt32

def getBI64 (buf : Nat → UInt8) (k : Nat) : UInt64 :=
  (getBI32 buf k).toUInt64 <<< 32 ||| (getBI32 buf (k + 4)).toUInt64

/-- The answer to READ CAPACITY(10), with its data in `rcd`. -/
def capacityAnswer (stat : Int) (rcd : Nat → UInt8) : Answer :=
  ⟨stat, ⟨0, 0, 0, 0⟩, getBI32 rcd 0, 0, getBI32 rcd 4⟩

/-- The answer to READ CAPACITY(16), with its data in `rcd16`. -/
def capacity16Answer (stat : Int) (rcd16 : Nat → UInt8) : Answer :=
  ⟨stat, ⟨0, 0, 0, 0⟩, 0, getBI64 rcd16 0, getBI32 rcd16 8⟩

/-- The answers of a device to the two commands. -/
structure CapacityAnswers where
  stat : Int
  rcd : Nat → UInt8
  stat16 : Int
  rcd16 : Nat → UInt8

/-- The end of `scsi_warmup`, from READ CAPACITY(10) on; `none` is a failure. -/
def scsiCapacity (a : CapacityAnswers) (bd : ScsiBd) : Option ScsiBd :=
  match scsiWarmup (capacityAnswer a.stat a.rcd) bd .readCapacity with
  | (.failed, _) => none
  | (.ready, bd) => some bd
  | (.more cmd, bd) => some (scsiWarmup (capacity16Answer a.stat16 a.rcd16) bd cmd).2

/-! ## Commands -/

/-- A call of `queue_cmd`. The buffer is an address. -/
structure ScsiCommand where
  comData : List UInt8
  cmdLen : Nat
  buffer : UInt32
  dataLen : UInt32
  dataWr : Bool

def scsiCmdRwSector (bd : ScsiBd) (lba : UInt64) (buffer : UInt32) (sectorCount : UInt16) (write : Bool) :
    ScsiCommand :=
  let dataLen := bd.sectorSize * sectorCount.toUInt32
  if 0x100000000 < bd.sectorCount ∨ 0xffffffff < lba then
    ⟨[if write then 0x8a else 0x88, 0, (lba >>> 56).toUInt8, (lba >>> 48).toUInt8, (lba >>> 40).toUInt8,
      (lba >>> 32).toUInt8, (lba >>> 24).toUInt8, (lba >>> 16).toUInt8, (lba >>> 8).toUInt8, lba.toUInt8,
      (sectorCount.toUInt32 >>> 24).toUInt8, (sectorCount.toUInt32 >>> 16).toUInt8,
      (sectorCount.toUInt32 >>> 8).toUInt8, sectorCount.toUInt8, 0, 0], 16, buffer, dataLen, write⟩
  else
    ⟨[if write then 0x2a else 0x28, 0, (lba >>> 24).toUInt8, (lba >>> 16).toUInt8, (lba >>> 8).toUInt8,
      lba.toUInt8, 0, (sectorCount.toUInt32 >>> 8).toUInt8, sectorCount.toUInt8, 0, 0, 0, 0, 0, 0, 0], 12,
      buffer, dataLen, write⟩

def scsiMaxRetries : Nat := 16

/-- `scsi_interface`, as far as the requests use it. -/
structure ScsiInterface where
  maxSectors : Nat
  maxSectors_pos : 0 < maxSectors

/-- `max_sectors` of the devices in `g_mass_device`. -/
def massInterface : ScsiInterface := ⟨128, by decide⟩

/-- The commands that were queued, with their results. -/
abbrev ScsiLog := List (ScsiCommand × Int)

/-- The loop over the tries; `answer` gives the result of each command. -/
def rwTries (answer : Nat → Int) (c : ScsiCommand) : Nat → ScsiLog → Bool × ScsiLog
  | 0, log => (false, log)
  | retries + 1, log =>
      if answer log.length = 0 then (true, log ++ [(c, 0)])
      else rwTries answer c retries (log ++ [(c, answer log.length)])

/-- The loop over the chunks. -/
def rwLoop (scsi : ScsiInterface) (bd : ScsiBd) (write : Bool) (answer : Nat → Int) :
    Nat → UInt16 → UInt64 → UInt32 → ScsiLog → Option (Bool × ScsiLog)
  | 0, _, _, _, _ => none
  | rounds + 1, remaining, sector, buffer, log =>
      if 0 < remaining then
        let sc : UInt16 := if scsi.maxSectors < remaining.toNat then .ofNat scsi.maxSectors else remaining
        match rwTries answer (scsiCmdRwSector bd sector buffer sc write) scsiMaxRetries log with
        | (false, log) => some (false, log)
        | (true, log) =>
            rwLoop scsi bd write answer rounds (remaining - sc) (sector + sc.toUInt64)
              (buffer + sc.toUInt32 * bd.sectorSize) log
      else some (true, log)

/-- The body that `scsi_read` and `scsi_write` share: the result, and the commands. -/
def scsiRw (write : Bool) (scsi : ScsiInterface) (bd : ScsiBd) (sector : UInt64) (buffer : UInt32) (count : UInt16)
    (answer : Nat → Int) : Option (Int × ScsiLog) :=
  (rwLoop scsi bd write answer (count.toNat + 1) count sector buffer []).map fun r =>
    (if r.1 then (count.toNat : Int) else -eio, r.2)

def scsiRead := scsiRw false

def scsiWrite := scsiRw true

/-! ## What the commands stand for -/

/-- READ and WRITE, of 10 and 16 bytes: whether it is a write, the address, and the length. -/
def decodeRw : List UInt8 → Option (Bool × Nat × Nat)
  | op :: _ :: rest =>
      if op = 0x28 ∨ op = 0x2a then
        some (op = 0x2a, bigEndian (rest.take 4), bigEndian ((rest.drop 5).take 2))
      else if op = 0x88 ∨ op = 0x8a then
        some (op = 0x8a, bigEndian (rest.take 8), bigEndian ((rest.drop 8).take 4))
      else none
  | _ => none

/-- The commands transfer `total` sectors from `sector` on, in order, each to its place in the
buffer. -/
inductive Covers (maxSectors sectorSize : Nat) (write : Bool) :
    Nat → UInt32 → Nat → List ScsiCommand → Prop where
  | done {sector : Nat} {buffer : UInt32} : Covers maxSectors sectorSize write sector buffer 0 []
  | command {sector total len : Nat} {buffer : UInt32} {c : ScsiCommand} {cs : List ScsiCommand}
      (hdecode : decodeRw (c.comData.take c.cmdLen) = some (write, sector, len))
      (hpos : 0 < len) (hmax : len ≤ maxSectors) (hlen : len ≤ total) (hdata : c.dataLen.toNat = len * sectorSize)
      (hwrite : c.dataWr = write) (hbuffer : c.buffer = buffer)
      (rest : Covers maxSectors sectorSize write (sector + len) (buffer + .ofNat (len * sectorSize)) (total - len) cs) :
      Covers maxSectors sectorSize write sector buffer total (c :: cs)

/-- Each of `chunks` chunks succeeds within the tries, from command `n` on. -/
inductive Succeeds (answer : Nat → Int) : Nat → Nat → Prop where
  | done {n : Nat} : Succeeds answer 0 n
  | chunk {chunks n t : Nat} (ht : t < scsiMaxRetries) (hfail : ∀ i < t, answer (n + i) ≠ 0)
      (hok : answer (n + t) = 0) (rest : Succeeds answer chunks (n + t + 1)) : Succeeds answer (chunks + 1) n

/-- The chunks of a request. -/
def chunksOf (maxSectors count : Nat) : Nat := (count + maxSectors - 1) / maxSectors

def successful (log : ScsiLog) : List ScsiCommand := (log.filter fun e => e.2 = 0).map Prod.fst

/-- The last address that the device reports. A device that has no READ CAPACITY(16) ends at the
last address of 32 bits. -/
def CapacityAnswers.lastLba (a : CapacityAnswers) : Nat :=
  if bigEndian [a.rcd 0, a.rcd 1, a.rcd 2, a.rcd 3] ≠ 0xffffffff then
    bigEndian [a.rcd 0, a.rcd 1, a.rcd 2, a.rcd 3]
  else if a.stat16 ≠ 0 then 0xffffffff
  else
    bigEndian [a.rcd16 0, a.rcd16 1, a.rcd16 2, a.rcd16 3, a.rcd16 4, a.rcd16 5, a.rcd16 6, a.rcd16 7]

def CapacityAnswers.blockLength (a : CapacityAnswers) : Nat :=
  if bigEndian [a.rcd 0, a.rcd 1, a.rcd 2, a.rcd 3] ≠ 0xffffffff ∨ a.stat16 ≠ 0 then
    bigEndian [a.rcd 4, a.rcd 5, a.rcd 6, a.rcd 7]
  else bigEndian [a.rcd16 8, a.rcd16 9, a.rcd16 10, a.rcd16 11]

/-! ## Bytes -/

section Bytes

theorem count_bytes (n : UInt16) :
    [(n.toUInt32 >>> 24).toUInt8, (n.toUInt32 >>> 16).toUInt8, (n.toUInt32 >>> 8).toUInt8, n.toUInt8] =
      bigEndianBytes n.toNat 4 :=
  shiftRight_bytes32 n.toUInt32 4 (by decide)

theorem count_bytes2 (n : UInt16) : [(n.toUInt32 >>> 8).toUInt8, n.toUInt8] = bigEndianBytes n.toNat 2 :=
  shiftRight_bytes32 n.toUInt32 2 (by decide)

theorem toNat_shiftLeft_byte (b : UInt8) {k : Nat} (hk : k ≤ 24) :
    (b.toUInt32 <<< UInt32.ofNat k).toNat = b.toNat <<< k := by
  have hb := b.toNat_lt_size
  have hsize : b.toNat * 2 ^ k < 2 ^ 8 * 2 ^ 24 :=
    Nat.mul_lt_mul_of_lt_of_le hb (Nat.pow_le_pow_right (by decide) hk) (Nat.two_pow_pos 24)
  rw [UInt32.toNat_shiftLeft, UInt8.toNat_toUInt32, UInt32.toNat_ofNat_of_lt' (by show k < 4294967296; omega),
    Nat.mod_eq_of_lt (show k < 32 by omega), Nat.shiftLeft_eq, Nat.mod_eq_of_lt (by omega)]

theorem getBI32_toNat (buf : Nat → UInt8) (k : Nat) :
    (getBI32 buf k).toNat = bigEndian [buf k, buf (k + 1), buf (k + 2), buf (k + 3)] := by
  have h24 : ((buf k).toUInt32 <<< 24).toNat = (buf k).toNat <<< 24 := toNat_shiftLeft_byte _ (by decide)
  have h16 : ((buf (k + 1)).toUInt32 <<< 16).toNat = (buf (k + 1)).toNat <<< 16 :=
    toNat_shiftLeft_byte _ (by decide)
  have h8 : ((buf (k + 2)).toUInt32 <<< 8).toNat = (buf (k + 2)).toNat <<< 8 :=
    toNat_shiftLeft_byte _ (by decide)
  have hnest : (buf k).toNat <<< 24 ||| (buf (k + 1)).toNat <<< 16 ||| (buf (k + 2)).toNat <<< 8 =
      (((buf k).toNat <<< 8 ||| (buf (k + 1)).toNat) <<< 8 ||| (buf (k + 2)).toNat) <<< 8 := by
    rw [Nat.shiftLeft_or_distrib, Nat.shiftLeft_or_distrib, Nat.shiftLeft_or_distrib, ← Nat.shiftLeft_add,
      ← Nat.shiftLeft_add, ← Nat.shiftLeft_add]
  unfold getBI32
  rw [UInt32.toNat_or, UInt32.toNat_or, UInt32.toNat_or, h24, h16, h8, UInt8.toNat_toUInt32, hnest,
    shiftLeft_or_byte, shiftLeft_or_byte, shiftLeft_or_byte]
  simp only [bigEndian, List.foldl_cons, List.foldl_nil, Nat.mul_zero, Nat.zero_add]

theorem getBI64_toNat (buf : Nat → UInt8) (k : Nat) :
    (getBI64 buf k).toNat = bigEndian [buf k, buf (k + 1), buf (k + 2), buf (k + 3), buf (k + 4), buf (k + 5),
      buf (k + 6), buf (k + 7)] := by
  have hhigh := (getBI32 buf k).toNat_lt_size
  have hlow := (getBI32 buf (k + 4)).toNat_lt_size
  have hsize : UInt32.size = 4294967296 := rfl
  have hshift : ((getBI32 buf k).toUInt64 <<< UInt64.ofNat 32).toNat = (getBI32 buf k).toNat <<< 32 := by
    have hno : (getBI32 buf k).toNat * 2 ^ 32 < 2 ^ 64 := by omega
    rw [UInt64.toNat_shiftLeft, UInt32.toNat_toUInt64, UInt64.toNat_ofNat_of_lt' (by decide),
      Nat.mod_eq_of_lt (show 32 < 64 by decide), Nat.shiftLeft_eq, Nat.mod_eq_of_lt hno]
  have hvalue : (getBI64 buf k).toNat = 4294967296 * (getBI32 buf k).toNat + (getBI32 buf (k + 4)).toNat := by
    unfold getBI64
    rw [UInt64.toNat_or]
    refine (congrArg₂ (· ||| ·) hshift (UInt32.toNat_toUInt64 _)).trans ?_
    rw [← Nat.shiftLeft_add_eq_or_of_lt hlow, Nat.shiftLeft_eq, Nat.mul_comm]
  rw [hvalue, getBI32_toNat, getBI32_toNat]
  simp only [bigEndian, List.foldl_cons, List.foldl_nil, Nat.add_assoc, Nat.reduceAdd]
  omega

end Bytes

/-! ## The capacity is the reported one -/

/-- Up to the address behind the last one, which has to be one of 64 bits. -/
theorem scsiCapacity_spec {a : CapacityAnswers} {bd bd' : ScsiBd} (h : scsiCapacity a bd = some bd') :
    bd'.sectorCount.toNat = (a.lastLba + 1) % 18446744073709551616 ∧ a.lastLba < 18446744073709551616 ∧
      bd'.sectorSize.toNat = a.blockLength := by
  have hvalue : (getBI32 a.rcd 0).toNat = bigEndian [a.rcd 0, a.rcd 1, a.rcd 2, a.rcd 3] := getBI32_toNat a.rcd 0
  have hlast : (getBI32 a.rcd 0).toNat < 4294967296 := (getBI32 a.rcd 0).toNat_lt_size
  unfold scsiCapacity scsiWarmup capacityAnswer at h
  by_cases hstat : a.stat = 0
  · by_cases hover : getBI32 a.rcd 0 = 0xffffffff
    · have hlimit : bigEndian [a.rcd 0, a.rcd 1, a.rcd 2, a.rcd 3] = 0xffffffff := by
        rw [← hvalue, hover]
        rfl
      have hlength : a.blockLength = if a.stat16 ≠ 0 then (getBI32 a.rcd 4).toNat else (getBI32 a.rcd16 8).toNat := by
        unfold CapacityAnswers.blockLength
        rw [getBI32_toNat, getBI32_toNat]
        by_cases hstat16 : a.stat16 = 0
        · rw [if_neg (not_or.mpr ⟨not_not_intro hlimit, not_not_intro hstat16⟩), if_neg (not_not_intro hstat16)]
        · rw [if_pos (Or.inr hstat16), if_pos hstat16]
      rw [hlength]
      unfold CapacityAnswers.lastLba
      rw [if_neg (not_not_intro hlimit)]
      by_cases hstat16 : a.stat16 = 0
      · simp only [hstat, hover, capacity16Answer, hstat16, ne_eq, not_true_eq_false, if_false, if_true,
          Option.some.injEq] at h
        rw [if_neg (not_not_intro hstat16), if_neg (not_not_intro hstat16), ← getBI64_toNat a.rcd16 0, ← h]
        exact ⟨UInt64.toNat_add _ _, (getBI64 a.rcd16 0).toNat_lt_size, rfl⟩
      · simp only [hstat, hover, capacity16Answer, hstat16, ne_eq, not_true_eq_false, not_false_eq_true, if_false,
          if_true, Option.some.injEq] at h
        rw [if_pos hstat16, if_pos hstat16, ← h]
        exact ⟨rfl, by decide, rfl⟩
    · have hlimit : bigEndian [a.rcd 0, a.rcd 1, a.rcd 2, a.rcd 3] ≠ 0xffffffff := fun heq =>
        hover (UInt32.toNat_inj.mp (hvalue.trans heq))
      unfold CapacityAnswers.lastLba CapacityAnswers.blockLength
      rw [if_pos hlimit, if_pos (Or.inl hlimit)]
      simp only [hstat, hover, ne_eq, not_true_eq_false, if_false, Option.some.injEq] at h
      rw [← h, ← hvalue]
      refine ⟨?_, by omega, getBI32_toNat a.rcd 4⟩
      show ((getBI32 a.rcd 0).toUInt64 + 1).toNat = _
      rw [UInt64.toNat_add, UInt32.toNat_toUInt64]
      rfl
  · simp only [hstat, ne_eq, not_false_eq_true, if_true, reduceCtorEq] at h

/-! ## One command -/

section Command

variable {scsi : ScsiInterface} {bd : ScsiBd} {write : Bool} {lba : UInt64} {buffer : UInt32} {sc : UInt16}
  {answer : Nat → Int} {c : ScsiCommand}

theorem decodeRw_16 (write : Bool) (rest : List UInt8) :
    decodeRw ((if write then 0x8a else 0x88) :: 0 :: rest) =
      some (write, bigEndian (rest.take 8), bigEndian ((rest.drop 8).take 4)) := by
  cases write <;> rfl

theorem decodeRw_10 (write : Bool) (rest : List UInt8) :
    decodeRw ((if write then 0x2a else 0x28) :: 0 :: rest) =
      some (write, bigEndian (rest.take 4), bigEndian ((rest.drop 5).take 2)) := by
  cases write <;> rfl

/-- The command has the address and the length, in either form. -/
theorem scsiCmdRwSector_decode :
    decodeRw ((scsiCmdRwSector bd lba buffer sc write).comData.take
      (scsiCmdRwSector bd lba buffer sc write).cmdLen) = some (write, lba.toNat, sc.toNat) := by
  have hsc : sc.toNat < 65536 := sc.toNat_lt_size
  unfold scsiCmdRwSector
  by_cases hform : 0x100000000 < bd.sectorCount ∨ 0xffffffff < lba
  · have hlba : lba.toNat < 256 ^ 8 := lba.toNat_lt_size
    rw [if_pos hform]
    refine (decodeRw_16 write _).trans ?_
    show some (write, bigEndian [_, _, _, _, _, _, _, _], bigEndian [_, _, _, _]) = _
    rw [toUInt8_bytes8, count_bytes, bigEndian_bytes, bigEndian_bytes, Nat.mod_eq_of_lt hlba,
      Nat.mod_eq_of_lt (Nat.lt_trans hsc (by decide))]
  · have hlba : lba.toNat < 256 ^ 4 := by
      have hle := UInt64.le_iff_toNat_le.mp (UInt64.not_lt.mp fun hlt => hform (Or.inr hlt))
      exact Nat.lt_succ_of_le hle
    rw [if_neg hform]
    refine (decodeRw_10 write _).trans ?_
    show some (write, bigEndian [_, _, _, _], bigEndian [_, _]) = _
    rw [toUInt8_bytes4, count_bytes2, bigEndian_bytes, bigEndian_bytes, Nat.mod_eq_of_lt hlba,
      Nat.mod_eq_of_lt (show sc.toNat < 256 ^ 2 from hsc)]

theorem scsiCmdRwSector_fields : (scsiCmdRwSector bd lba buffer sc write).buffer = buffer ∧
    (scsiCmdRwSector bd lba buffer sc write).dataWr = write ∧
    (scsiCmdRwSector bd lba buffer sc write).dataLen = bd.sectorSize * sc.toUInt32 := by
  unfold scsiCmdRwSector
  dsimp only
  split <;> exact ⟨rfl, rfl, rfl⟩

theorem successful_append (log more : ScsiLog) : successful (log ++ more) = successful log ++ successful more := by
  unfold successful
  rw [List.filter_append, List.map_append]

/-- The tries end at the first success, or at their number. -/
theorem rwTries_spec (retries : Nat) (log : ScsiLog) :
    (∃ t < retries, (∀ i < t, answer (log.length + i) ≠ 0) ∧ answer (log.length + t) = 0 ∧
      ∃ more : ScsiLog, rwTries answer c retries log = (true, log ++ more) ∧ more.length = t + 1 ∧
        successful more = [c]) ∨
    ((∀ t < retries, answer (log.length + t) ≠ 0) ∧
      ∃ more : ScsiLog, rwTries answer c retries log = (false, log ++ more) ∧ successful more = []) := by
  induction retries generalizing log with
  | zero => exact .inr ⟨fun t ht => absurd ht (Nat.not_lt_zero t), [], by rw [List.append_nil]; rfl, rfl⟩
  | succ retries ih =>
      unfold rwTries
      by_cases hanswer : answer log.length = 0
      · rw [if_pos hanswer]
        exact .inl ⟨0, Nat.succ_pos _, fun i hi => absurd hi (Nat.not_lt_zero i), hanswer, [(c, 0)], rfl, rfl, rfl⟩
      · rw [if_neg hanswer]
        have hlength : (log ++ [(c, answer log.length)]).length = log.length + 1 := by
          rw [List.length_append, List.length_singleton]
        have hnone : successful [(c, answer log.length)] = [] := by
          unfold successful
          rw [List.filter_singleton, decide_eq_false hanswer]
          rfl
        rcases ih (log ++ [(c, answer log.length)]) with ⟨t, ht, hfail, hok, more, hrun, hmore, hsuccess⟩ |
          ⟨hfail, more, hrun, hsuccess⟩
        · rw [hlength] at hfail hok
          refine .inl ⟨t + 1, Nat.succ_lt_succ ht, fun i hi => ?_, ?_, (c, answer log.length) :: more, ?_, ?_, ?_⟩
          · cases i with
            | zero => exact hanswer
            | succ i =>
                rw [← Nat.add_assoc, Nat.add_right_comm]
                exact hfail i (Nat.lt_of_succ_lt_succ hi)
          · rw [← Nat.add_assoc, Nat.add_right_comm]
            exact hok
          · rw [hrun, List.append_assoc]
            rfl
          · rw [List.length_cons, hmore]
          · rw [← List.singleton_append, successful_append, hnone, hsuccess, List.nil_append]
        · rw [hlength] at hfail
          refine .inr ⟨fun t ht => ?_, (c, answer log.length) :: more, ?_, ?_⟩
          · cases t with
            | zero => exact hanswer
            | succ t =>
                rw [← Nat.add_assoc, Nat.add_right_comm]
                exact hfail t (Nat.lt_of_succ_lt_succ ht)
          · rw [hrun, List.append_assoc]
            rfl
          · rw [← List.singleton_append, successful_append, hnone, hsuccess, List.nil_append]

end Command

/-! ## The chunks -/

section Chunks

variable {answer : Nat → Int} {chunks n t maxSectors count : Nat}

theorem succeeds_chunk_iff (ht : t < scsiMaxRetries) (hfail : ∀ i < t, answer (n + i) ≠ 0)
    (hok : answer (n + t) = 0) : Succeeds answer (chunks + 1) n ↔ Succeeds answer chunks (n + t + 1) := by
  refine ⟨fun h => ?_, fun h => .chunk ht hfail hok h⟩
  cases h with
  | @chunk _ _ t' _ hfail' hok' rest =>
      have hsame : t' = t := by
        rcases Nat.lt_trichotomy t' t with hlt | heq | hlt
        · exact absurd hok' (hfail t' hlt)
        · exact heq
        · exact absurd hok (hfail' t hlt)
      exact hsame ▸ rest

theorem not_succeeds (hall : ∀ t < scsiMaxRetries, answer (n + t) ≠ 0) : ¬Succeeds answer (chunks + 1) n := by
  intro h
  cases h with
  | chunk ht _ hok _ => exact hall _ ht hok

theorem chunksOf_zero (hmax : 0 < maxSectors) : chunksOf maxSectors 0 = 0 := by
  unfold chunksOf
  exact Nat.div_eq_of_lt (by omega)

theorem chunksOf_next (hmax : 0 < maxSectors) (hcount : 0 < count) :
    chunksOf maxSectors count = chunksOf maxSectors (count - min maxSectors count) + 1 := by
  rcases Nat.le_total count maxSectors with hle | hle
  · rw [Nat.min_eq_right hle, Nat.sub_self, chunksOf_zero hmax]
    unfold chunksOf
    exact Nat.div_eq_of_lt_le (by omega) (by omega)
  · rw [Nat.min_eq_left hle]
    unfold chunksOf
    rw [show count + maxSectors - 1 = (count - maxSectors + maxSectors - 1) + maxSectors by omega,
      Nat.add_div_right _ hmax]

end Chunks

/-! ## Requests -/

section Requests

variable {scsi : ScsiInterface} {bd : ScsiBd} {write : Bool} {answer : Nat → Int}

/-- The most bytes that one command transfers. -/
def largestTransfer (scsi : ScsiInterface) (sectorCount sectorSize : Nat) : Nat :=
  min scsi.maxSectors (min 65535 sectorCount) * sectorSize

/-- The chunk in front of what remains. -/
theorem chunk_spec {sc remaining : UInt16} (hpos : 0 < remaining.toNat)
    (hsc : sc = if scsi.maxSectors < remaining.toNat then .ofNat scsi.maxSectors else remaining) :
    sc.toNat = min scsi.maxSectors remaining.toNat ∧ 0 < sc.toNat := by
  have hremaining : remaining.toNat < 65536 := remaining.toNat_lt_size
  have hmax := scsi.maxSectors_pos
  have hvalue : sc.toNat = min scsi.maxSectors remaining.toNat := by
    rw [hsc]
    split
    · rename_i hlt
      rw [UInt16.toNat_ofNat_of_lt' (by show scsi.maxSectors < 65536; omega), Nat.min_eq_left (Nat.le_of_lt hlt)]
    · rename_i hle
      rw [Nat.min_eq_right (Nat.not_lt.mp hle)]
  exact ⟨hvalue, by omega⟩

/-- The data of a chunk that fits into 32 bits. -/
theorem dataLen_toNat {size : UInt32} {sc : UInt16} (h : sc.toNat * size.toNat < 4294967296) :
    (size * sc.toUInt32).toNat = sc.toNat * size.toNat := by
  rw [UInt32.toNat_mul, UInt16.toNat_toUInt32, Nat.mul_comm, Nat.mod_eq_of_lt h]

/-- The loop from a point on: what it queues covers the front of what remains, and all of it
exactly if each chunk succeeds. -/
theorem rwLoop_spec (hfit : largestTransfer scsi bd.sectorCount.toNat bd.sectorSize.toNat < 4294967296)
    (rounds : Nat) (remaining : UInt16) (sector : UInt64) (buffer : UInt32) (log : ScsiLog)
    (hrounds : remaining.toNat < rounds) (hend : sector.toNat + remaining.toNat ≤ bd.sectorCount.toNat) :
    ∃ (ok : Bool) (more : ScsiLog), rwLoop scsi bd write answer rounds remaining sector buffer log = some (ok, log ++ more) ∧
      (ok = true ↔ Succeeds answer (chunksOf scsi.maxSectors remaining.toNat) log.length) ∧
      ∃ done ≤ remaining.toNat,
        Covers scsi.maxSectors bd.sectorSize.toNat write sector.toNat buffer done (successful more) ∧
          (ok = true → done = remaining.toNat) := by
  induction rounds generalizing remaining sector buffer log with
  | zero => exact absurd hrounds (Nat.not_lt_zero _)
  | succ rounds ih =>
      unfold rwLoop
      by_cases hpos : 0 < remaining
      · rw [if_pos hpos]
        have hpos' : 0 < remaining.toNat := UInt16.lt_iff_toNat_lt.mp hpos
        generalize hsc : (if scsi.maxSectors < remaining.toNat then UInt16.ofNat scsi.maxSectors else remaining) = sc
        obtain ⟨hvalue, hscpos⟩ := chunk_spec hpos' hsc.symm
        have hle : sc.toNat ≤ remaining.toNat := hvalue ▸ Nat.min_le_right _ _
        have hmax : sc.toNat ≤ scsi.maxSectors := hvalue ▸ Nat.min_le_left _ _
        have hremaining : remaining.toNat < 65536 := remaining.toNat_lt_size
        have hcount : bd.sectorCount.toNat < 18446744073709551616 := bd.sectorCount.toNat_lt_size
        have hbytes : sc.toNat * bd.sectorSize.toNat < 4294967296 := by
          refine Nat.lt_of_le_of_lt (Nat.mul_le_mul_right _ ?_) hfit
          omega
        have hless : (remaining - sc).toNat = remaining.toNat - sc.toNat :=
          UInt16.toNat_sub_of_le _ _ (UInt16.le_iff_toNat_le.mpr hle)
        have hsector : (sector + sc.toUInt64).toNat = sector.toNat + sc.toNat := by
          rw [UInt64.toNat_add, UInt16.toNat_toUInt64, Nat.mod_eq_of_lt (by omega)]
        have hnext : chunksOf scsi.maxSectors remaining.toNat =
            chunksOf scsi.maxSectors (remaining - sc).toNat + 1 := by
          rw [hless, hvalue]
          exact chunksOf_next scsi.maxSectors_pos hpos'
        obtain ⟨hbuffer, hwrite, hlen⟩ := @scsiCmdRwSector_fields bd write sector buffer sc
        dsimp only
        rcases @rwTries_spec answer (scsiCmdRwSector bd sector buffer sc write) scsiMaxRetries log with
          ⟨t, ht, hfail, hok, more, hrun, hlength, hsuccess⟩ | ⟨hfail, more, hrun, hsuccess⟩
        · obtain ⟨ok, rest, hloop, hiff, done, hdone, hcovers, hall⟩ :=
            ih (remaining - sc) (sector + sc.toUInt64) (buffer + sc.toUInt32 * bd.sectorSize) (log ++ more)
              (by omega) (by omega)
          rw [hrun]
          dsimp only
          refine ⟨ok, more ++ rest, ?_, ?_, sc.toNat + done, by omega, ?_, fun h => ?_⟩
          · rw [hloop, List.append_assoc]
          · rw [hiff, hnext, succeeds_chunk_iff ht hfail hok, List.length_append, hlength, Nat.add_assoc]
          · rw [successful_append, hsuccess, List.singleton_append]
            refine .command scsiCmdRwSector_decode hscpos hmax (Nat.le_add_right _ _)
              (by rw [hlen, dataLen_toNat hbytes]) hwrite hbuffer ?_
            rw [Nat.add_sub_cancel_left, ← buffer_advance, ← hsector]
            exact hcovers
          · rw [hall h, hless]
            omega
        · rw [hrun]
          dsimp only
          refine ⟨false, more, rfl, ?_, 0, Nat.zero_le _, hsuccess ▸ .done, nofun⟩
          rw [hnext]
          exact iff_of_false nofun (not_succeeds hfail)
      · have hzero : remaining.toNat = 0 := by
          have hnot := fun h => hpos (UInt16.lt_iff_toNat_lt.mpr h)
          exact Nat.eq_zero_of_not_pos hnot
        rw [if_neg hpos, hzero, chunksOf_zero scsi.maxSectors_pos]
        exact ⟨true, [], by rw [List.append_nil], iff_of_true rfl .done, 0, Nat.le_refl 0, .done, fun _ => rfl⟩

/-- Every request inside of the device is carried out as it should be. -/
def Serves (request : ScsiInterface → ScsiBd → UInt64 → UInt32 → UInt16 → (Nat → Int) → Option (Int × ScsiLog))
    (write : Bool) (scsi : ScsiInterface) (bd : ScsiBd) : Prop :=
  ∀ sector buffer count answer, sector.toNat + count.toNat ≤ bd.sectorCount.toNat →
    ∃ status log, request scsi bd sector buffer count answer = some (status, log) ∧
      (status = count.toNat ∨ status = -eio) ∧
      (status = count.toNat ↔ Succeeds answer (chunksOf scsi.maxSectors count.toNat) 0) ∧
      ∃ done ≤ count.toNat,
        Covers scsi.maxSectors bd.sectorSize.toNat write sector.toNat buffer done (successful log) ∧
          (status = count.toNat → done = count.toNat)

theorem serves_of_fits (hfit : largestTransfer scsi bd.sectorCount.toNat bd.sectorSize.toNat < 4294967296) :
    Serves (scsiRw write) write scsi bd := by
  intro sector buffer count answer hend
  obtain ⟨ok, log, hloop, hiff, done, hdone, hcovers, hall⟩ :=
    @rwLoop_spec scsi bd write answer hfit (count.toNat + 1) count sector buffer [] (Nat.lt_succ_self _) hend
  have hresult : ((if ok then (count.toNat : Int) else -eio) = count.toNat) ↔ ok = true := by
    have heio : -eio < 0 := by decide
    cases ok with
    | true => exact iff_of_true rfl rfl
    | false => exact iff_of_false (by rw [if_neg nofun]; omega) nofun
  refine ⟨if ok then (count.toNat : Int) else -eio, log, ?_, ?_, hresult.trans hiff, done, hdone, hcovers,
    fun h => hall (hresult.mp h)⟩
  · unfold scsiRw
    rw [hloop]
    rfl
  · cases ok with
    | true => exact .inl rfl
    | false => exact .inr rfl

/-- A request of one chunk, with the command that succeeds at once. -/
theorem scsiRw_chunk {count : UInt16} (hpos : 0 < count) (hmax : count.toNat ≤ scsi.maxSectors) :
    scsiRw write scsi bd 0 0 count (fun _ => 0) =
      some ((count.toNat : Int), [(scsiCmdRwSector bd 0 0 count write, 0)]) := by
  have hcount : 0 < count.toNat := UInt16.lt_iff_toNat_lt.mp hpos
  obtain ⟨rounds, hrounds⟩ := Nat.exists_eq_succ_of_ne_zero (Nat.ne_of_gt hcount)
  have hchunk : (if scsi.maxSectors < count.toNat then UInt16.ofNat scsi.maxSectors else count) = count :=
    if_neg (Nat.not_lt.mpr hmax)
  have hrest : ¬0 < count - count := by
    rw [UInt16.sub_self]
    decide
  have hloop : rwLoop scsi bd write (fun _ => 0) (count.toNat + 1) count 0 0 [] =
      some (true, [(scsiCmdRwSector bd 0 0 count write, 0)]) := by
    unfold rwLoop
    rw [if_pos hpos]
    dsimp only
    rw [hchunk]
    show rwLoop scsi bd write (fun _ => 0) count.toNat (count - count) _ _ [(_, 0)] = _
    rw [hrounds]
    unfold rwLoop
    rw [if_neg hrest]
  unfold scsiRw
  rw [hloop]
  rfl

/-- Otherwise the data of the largest chunk has more bytes than 32 bits can tell. -/
theorem fits_of_serves (hsectors : 0 < bd.sectorCount.toNat) (h : Serves (scsiRw write) write scsi bd) :
    largestTransfer scsi bd.sectorCount.toNat bd.sectorSize.toNat < 4294967296 := by
  have hmax := scsi.maxSectors_pos
  unfold largestTransfer
  generalize hn : min scsi.maxSectors (min 65535 bd.sectorCount.toNat) = n
  have hcount : (UInt16.ofNat n).toNat = n := UInt16.toNat_ofNat_of_lt' (by show n < 65536; omega)
  have hpos : 0 < UInt16.ofNat n := UInt16.lt_iff_toNat_lt.mpr (by rw [hcount]; show 0 < n; omega)
  have hchunk := @scsiRw_chunk scsi bd write _ hpos (by omega)
  obtain ⟨status, log, hrequest, -, -, done, -, hcovers, hall⟩ :=
    h 0 0 (.ofNat n) (fun _ => 0) (by rw [hcount]; show 0 + n ≤ _; omega)
  rw [hchunk] at hrequest
  cases hrequest
  rw [hall rfl, hcount] at hcovers
  have hone : successful [(scsiCmdRwSector bd 0 0 (.ofNat n) write, 0)] =
      [scsiCmdRwSector bd 0 0 (.ofNat n) write] := rfl
  rw [hone] at hcovers
  generalize scsiCmdRwSector bd 0 0 (.ofNat n) write = c at hcovers
  cases hcovers with
  | @command _ _ len _ _ _ _ _ _ hlen hdata _ _ rest =>
      generalize hleft : n - len = left at rest
      cases rest
      rw [show n = len by omega, ← hdata]
      exact UInt32.toNat_lt_size _

end Requests

/-- For every capacity that a device reports: the number of sectors is not cut and all requests
are carried out as they should be, exactly if the last address is not the last one of 64 bits
and the data of the largest command has less than 4 GB. -/
theorem scsi_block_io_iff (scsi : ScsiInterface) {a : CapacityAnswers} {bd bd' : ScsiBd}
    (h : scsiCapacity a bd = some bd') :
    (bd'.sectorCount.toNat = a.lastLba + 1 ∧ Serves scsiRead false scsi bd' ∧ Serves scsiWrite true scsi bd') ↔
      (a.lastLba ≠ 18446744073709551615 ∧ largestTransfer scsi (a.lastLba + 1) a.blockLength < 4294967296) := by
  obtain ⟨hcount, hlast, hlength⟩ := scsiCapacity_spec h
  have hsize : bd'.sectorCount.toNat < 18446744073709551616 := bd'.sectorCount.toNat_lt_size
  constructor
  · rintro ⟨hexact, hread, -⟩
    refine ⟨by omega, ?_⟩
    rw [← hexact, ← hlength]
    exact fits_of_serves (by omega) hread
  · rintro ⟨hno, hfit⟩
    have hexact : bd'.sectorCount.toNat = a.lastLba + 1 := by omega
    rw [← hexact, ← hlength] at hfit
    exact ⟨hexact, serves_of_fits hfit, serves_of_fits hfit⟩

section Devices

def freeBd : ScsiBd := ⟨none, false, 0, 0⟩

/-- A device of 4096 sectors of 512 bytes. -/
def smallAnswers : CapacityAnswers where
  stat := 0
  rcd k := [0x00, 0x00, 0x0f, 0xff, 0x00, 0x00, 0x02, 0x00].getD k 0
  stat16 := 0
  rcd16 _ := 0

theorem scsi_block_io_small : ∃ bd, scsiCapacity smallAnswers freeBd = some bd ∧ bd.sectorCount.toNat = 4096 ∧
    Serves scsiRead false massInterface bd ∧ Serves scsiWrite true massInterface bd := by
  have hcapacity : scsiCapacity smallAnswers freeBd = some ⟨none, false, 512, 4096⟩ := rfl
  obtain ⟨hcount, hread, hwrite⟩ := (scsi_block_io_iff massInterface hcapacity).mpr ⟨by decide, by decide⟩
  exact ⟨_, hcapacity, hcount, hread, hwrite⟩

/-- A device that reports the last address of 64 bits. -/
def endlessAnswers : CapacityAnswers where
  stat := 0
  rcd k := [0xff, 0xff, 0xff, 0xff, 0x00, 0x00, 0x02, 0x00].getD k 0
  stat16 := 0
  rcd16 k := [0xff, 0xff, 0xff, 0xff, 0xff, 0xff, 0xff, 0xff, 0x00, 0x00, 0x02, 0x00].getD k 0

theorem endless_has_no_sectors : ∃ bd, scsiCapacity endlessAnswers freeBd = some bd ∧ bd.sectorCount.toNat = 0 ∧
    endlessAnswers.lastLba = 18446744073709551615 :=
  ⟨⟨none, false, 512, 0⟩, rfl, rfl, by decide⟩

end Devices

end BdmAssault.Usb
