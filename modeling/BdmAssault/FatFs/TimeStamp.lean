import Mathlib.Algebra.Group.Nat.Defs
import Mathlib.Data.Nat.Bitwise

/-! # File information

`get_fattime` of `bdmfs_diskio.c` packs the time of the clock into the word that FatFs
stores in a directory entry; `fileInfoToStat` of `bdmfs_fs_driver.c` takes it apart again.
-/

namespace BdmAssault.FatFs

/-- A date and a time of day. -/
structure DateTime where
  year : UInt32
  month : UInt32
  day : UInt32
  hour : UInt32
  minute : UInt32
  sec : UInt32

/-- `sceCdCLOCK`, all in binary coded decimal. -/
structure CdClock where
  stat : UInt8
  second : UInt8
  minute : UInt8
  hour : UInt8
  day : UInt8
  month : UInt8
  year : UInt8

/-- The part of `FILINFO` that is not a name. -/
structure FilInfo where
  fsize : UInt64
  fdate : UInt16
  ftime : UInt16
  fattrib : UInt8

/-- What `fileInfoToStat` sets of an `iox_stat_t`. -/
structure IoxStat where
  mode : UInt32
  attr : UInt32
  size : UInt32
  hisize : UInt32
  ctime : List UInt8
  atime : List UInt8
  mtime : List UInt8
  deriving DecidableEq

/-! ## The clock -/

def btoi (b : UInt8) : UInt32 := (b.toUInt32 / 16) * 10 + b.toUInt32 % 16

/-- The last line of `get_fattime`. -/
def packFattime (t : DateTime) : UInt32 :=
  ((t.year - 1980) <<< 25) ||| (t.month <<< 21) ||| (t.day <<< 16) ||| (t.hour <<< 11) |||
    (t.minute <<< 5) ||| (t.sec >>> 1)

/-- The century bit of the month is ignored. -/
def CdClock.time (cdtime : CdClock) : DateTime :=
  ⟨btoi cdtime.year + 2000, btoi (cdtime.month &&& 0x7F), btoi cdtime.day, btoi cdtime.hour, btoi cdtime.minute,
    btoi cdtime.second⟩

def fioIROTH : UInt32 := 0x0004

def fioIWOTH : UInt32 := 0x0002

def fioIXOTH : UInt32 := 0x0001

def fioIFDIR : UInt32 := 0x1000

def fioIFREG : UInt32 := 0x2000

def statMode (fattrib : UInt8) : UInt32 :=
  let mode := fioIROTH ||| fioIXOTH
  let mode := if fattrib &&& 0x10 ≠ 0 then mode ||| fioIFDIR else mode ||| fioIFREG
  if fattrib &&& 0x01 = 0 then mode ||| fioIWOTH else mode

def statTime (fdate ftime : UInt16) : List UInt8 :=
  let date := fdate.toUInt32
  let time := ftime.toUInt32
  let year := (date >>> 9) + 1980
  [0,
    ((time <<< 1) &&& 31).toUInt8,
    ((time >>> 5) &&& 63).toUInt8,
    (time >>> 11).toUInt8,
    (date &&& 31).toUInt8,
    ((date >>> 5) &&& 15).toUInt8,
    (year &&& 0xff).toUInt8,
    ((year >>> 8) &&& 0xff).toUInt8]

def fileInfoToStat (fno : FilInfo) : IoxStat where
  mode := statMode fno.fattrib
  attr := 0o777
  size := fno.fsize.toUInt32
  hisize := (fno.fsize >>> 32).toUInt32
  ctime := statTime fno.fdate fno.ftime
  atime := statTime fno.fdate fno.ftime
  mtime := statTime fno.fdate fno.ftime

/-- The bytes of a time stamp; FAT keeps every second second. -/
def stampOf (t : DateTime) : List UInt8 :=
  [0, (t.sec / 2 * 2).toUInt8, t.minute.toUInt8, t.hour.toUInt8, t.day.toUInt8, t.month.toUInt8,
    t.year.toUInt8, (t.year / 256).toUInt8]

/-- What a FAT time stamp can express. -/
structure DateTime.Valid (t : DateTime) : Prop where
  year : 1980 ≤ t.year.toNat ∧ t.year.toNat ≤ 2107
  month : 1 ≤ t.month.toNat ∧ t.month.toNat ≤ 12
  day : 1 ≤ t.day.toNat ∧ t.day.toNat ≤ 31
  hour : t.hour.toNat < 24
  minute : t.minute.toNat < 60
  sec : t.sec.toNat < 60

/-- A clock that shows a date and a time. -/
structure CdClock.Valid (c : CdClock) : Prop where
  year : c.year.toNat < 0xA0 ∧ c.year.toNat % 16 < 10
  month : 1 ≤ c.time.month.toNat ∧ c.time.month.toNat ≤ 12
  day : 1 ≤ c.time.day.toNat ∧ c.time.day.toNat ≤ 31
  hour : c.time.hour.toNat < 24
  minute : c.time.minute.toNat < 60
  sec : c.time.sec.toNat < 60

theorem btoi_toNat (b : UInt8) : (btoi b).toNat = b.toNat / 16 * 10 + b.toNat % 16 := by
  have hb := b.toNat_lt
  unfold btoi
  simp only [UInt32.toNat_add, UInt32.toNat_mul, UInt32.toNat_div, UInt32.toNat_mod, UInt8.toNat_toUInt32,
    UInt32.reduceToNat, Nat.reducePow]
  omega

theorem CdClock.Valid.time {c : CdClock} (h : c.Valid) : c.time.Valid where
  year := by
    have hyear : c.time.year.toNat = (btoi c.year).toNat + 2000 := by
      have hlt := h.year.1
      have hsum : (btoi c.year + 2000).toNat = ((btoi c.year).toNat + 2000) % 4294967296 := UInt32.toNat_add _ _
      refine hsum.trans (Nat.mod_eq_of_lt ?_)
      rw [btoi_toNat]
      omega
    have hdigits := h.year
    rw [hyear, btoi_toNat]
    omega
  month := h.month
  day := h.day
  hour := h.hour
  minute := h.minute
  sec := h.sec

theorem or_eq_add {a b : Nat} (i : Nat) (ha : 2 ^ i ∣ a) (hb : b < 2 ^ i) : a ||| b = a + b := by
  obtain ⟨c, rfl⟩ := ha
  rw [Nat.two_pow_add_eq_or_of_lt hb]

theorem packFattime_toNat {t : DateTime} (h : t.Valid) : (packFattime t).toNat =
    (t.year.toNat - 1980) * 33554432 + t.month.toNat * 2097152 + t.day.toNat * 65536 +
      t.hour.toNat * 2048 + t.minute.toNat * 32 + t.sec.toNat / 2 := by
  obtain ⟨⟨hfirst, hlast⟩, ⟨-, hmonth⟩, ⟨-, hday⟩, hhour, hminute, hsec⟩ := h
  have hyear : (t.year - 1980).toNat = t.year.toNat - 1980 :=
    UInt32.toNat_sub_of_le _ _ (UInt32.le_iff_toNat_le.mpr hfirst)
  unfold packFattime
  simp only [UInt32.toNat_or, UInt32.toNat_shiftLeft, UInt32.toNat_shiftRight, hyear,
    UInt32.reduceToNat, Nat.reduceMod, Nat.shiftLeft_eq, Nat.shiftRight_eq_div_pow, Nat.reducePow]
  -- no field is shifted out of the word
  rw [Nat.mod_eq_of_lt (by omega), Nat.mod_eq_of_lt (by omega), Nat.mod_eq_of_lt (by omega),
    Nat.mod_eq_of_lt (by omega), Nat.mod_eq_of_lt (by omega)]
  -- and no two fields share a bit
  rw [or_eq_add (b := t.month.toNat * 2097152) 25 (by omega) (by omega),
    or_eq_add (b := t.day.toNat * 65536) 21 (by omega) (by omega),
    or_eq_add (b := t.hour.toNat * 2048) 16 (by omega) (by omega),
    or_eq_add (b := t.minute.toNat * 32) 11 (by omega) (by omega),
    or_eq_add (b := t.sec.toNat / 2) 5 (by omega) (by omega)]

/-! ## Unpacking -/

section Words

variable {t : DateTime}

theorem fdate_toNat (h : t.Valid) : (packFattime t >>> 16).toUInt16.toNat =
    (t.year.toNat - 1980) * 512 + t.month.toNat * 32 + t.day.toNat := by
  obtain ⟨⟨-, hlast⟩, ⟨-, hmonth⟩, ⟨-, hday⟩, hhour, hminute, hsec⟩ := id h
  simp only [UInt32.toNat_toUInt16, UInt32.toNat_shiftRight, UInt32.reduceToNat, Nat.reduceMod,
    Nat.shiftRight_eq_div_pow, Nat.reducePow, packFattime_toNat h]
  omega

theorem ftime_toNat (h : t.Valid) : (packFattime t).toUInt16.toNat =
    t.hour.toNat * 2048 + t.minute.toNat * 32 + t.sec.toNat / 2 := by
  obtain ⟨-, -, -, hhour, hminute, hsec⟩ := id h
  simp only [UInt32.toNat_toUInt16, Nat.reducePow, packFattime_toNat h]
  omega

/-- The mask of the seconds is one bit short. -/
theorem statTime_eq_iff (h : t.Valid) :
    statTime (packFattime t >>> 16).toUInt16 (packFattime t).toUInt16 = stampOf t ↔ t.sec.toNat < 32 := by
  have hdate := fdate_toNat h
  have htime := ftime_toNat h
  obtain ⟨⟨hfirst, hlast⟩, ⟨-, hmonth⟩, ⟨-, hday⟩, hhour, hminute, hsec⟩ := h
  have hmask4 : ∀ n, n &&& 15 = n % 16 := fun n => Nat.and_two_pow_sub_one_eq_mod n 4
  have hmask5 : ∀ n, n &&& 31 = n % 32 := fun n => Nat.and_two_pow_sub_one_eq_mod n 5
  have hmask6 : ∀ n, n &&& 63 = n % 64 := fun n => Nat.and_two_pow_sub_one_eq_mod n 6
  have hmask8 : ∀ n, n &&& 255 = n % 256 := fun n => Nat.and_two_pow_sub_one_eq_mod n 8
  unfold statTime stampOf
  simp only [List.cons.injEq, and_true, true_and, ← UInt8.toNat_inj, UInt32.toNat_toUInt8,
    UInt32.toNat_and, UInt32.toNat_shiftLeft, UInt32.toNat_shiftRight, UInt32.toNat_add,
    UInt32.toNat_mul, UInt32.toNat_div, UInt16.toNat_toUInt32, UInt32.reduceToNat, Nat.reduceMod,
    Nat.shiftLeft_eq, Nat.shiftRight_eq_div_pow, Nat.reducePow, hdate, htime, hmask4, hmask5, hmask6,
    hmask8]
  constructor
  · rintro ⟨hseconds, -⟩
    omega
  · intro hsmall
    refine ⟨?_, ?_, ?_, ?_, ?_, ?_, ?_⟩
    · omega
    · omega
    · omega
    · omega
    · omega
    · omega
    · omega

end Words

theorem hisize_size (fno : FilInfo) :
    (fileInfoToStat fno).hisize.toNat * 2 ^ 32 + (fileInfoToStat fno).size.toNat = fno.fsize.toNat := by
  have hlt := fno.fsize.toNat_lt
  unfold fileInfoToStat
  simp only [UInt64.toNat_toUInt32, UInt64.toNat_shiftRight, UInt64.reduceToNat, Nat.reduceMod,
    Nat.shiftRight_eq_div_pow, Nat.reducePow]
  omega

/-- The three times of a file whose entry holds the words of `t`. -/
structure Restores (t : DateTime) (stat : IoxStat) : Prop where
  ctime : stat.ctime = stampOf t
  atime : stat.atime = stampOf t
  mtime : stat.mtime = stampOf t

theorem restores_iff {t : DateTime} (h : t.Valid) :
    (∀ fno : FilInfo, fno.fdate = (packFattime t >>> 16).toUInt16 → fno.ftime = (packFattime t).toUInt16 →
      Restores t (fileInfoToStat fno)) ↔ t.sec.toNat < 32 := by
  refine ⟨fun hrestores => ?_, fun hsmall fno hdate htime => ?_⟩
  · have hrestored := hrestores ⟨0, (packFattime t >>> 16).toUInt16, (packFattime t).toUInt16, 0⟩ rfl rfl
    exact (statTime_eq_iff h).mp hrestored.ctime
  · have hstat := (statTime_eq_iff h).mpr hsmall
    unfold fileInfoToStat
    rw [hdate, htime]
    exact ⟨hstat, hstat, hstat⟩

theorem timestamp_roundtrip_iff {t : DateTime} (h : t.Valid) :
    ((∀ fno : FilInfo, fno.fdate = (packFattime t >>> 16).toUInt16 → fno.ftime = (packFattime t).toUInt16 →
        Restores t (fileInfoToStat fno)) ∧
      ∀ fno : FilInfo, (fileInfoToStat fno).hisize.toNat * 2 ^ 32 + (fileInfoToStat fno).size.toNat =
        fno.fsize.toNat) ↔ t.sec.toNat < 32 := by
  constructor
  · rintro ⟨hstamp, -⟩
    exact (restores_iff h).mp hstamp
  · intro hsmall
    exact ⟨(restores_iff h).mpr hsmall, hisize_size⟩

theorem timestamp_roundtrip_noon :
    Restores ⟨2026, 2, 28, 12, 30, 15⟩
      (fileInfoToStat ⟨0, (packFattime ⟨2026, 2, 28, 12, 30, 15⟩ >>> 16).toUInt16,
        (packFattime ⟨2026, 2, 28, 12, 30, 15⟩).toUInt16, 0⟩) :=
  ((timestamp_roundtrip_iff ⟨by decide, by decide, by decide, by decide, by decide, by decide⟩).mpr
    (by decide)).1 _ rfl rfl

/-- `40` seconds come back as `8`. -/
theorem seconds_lost :
    (fileInfoToStat ⟨0, (packFattime ⟨2026, 2, 28, 12, 30, 40⟩ >>> 16).toUInt16,
        (packFattime ⟨2026, 2, 28, 12, 30, 40⟩).toUInt16, 0⟩).mtime = [0, 8, 30, 12, 28, 2, 0xEA, 0x07] ∧
      stampOf ⟨2026, 2, 28, 12, 30, 40⟩ = [0, 40, 30, 12, 28, 2, 0xEA, 0x07] := by
  decide

end BdmAssault.FatFs
