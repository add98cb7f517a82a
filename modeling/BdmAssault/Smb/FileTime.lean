import BdmAssault.Lib.Calendar

/-! # The times of a file

`FileTimeToDate` of `smb_fio.c`, for the times that a server reports in units of 100 ns since
the start of 1601.
-/

namespace BdmAssault.Smb

open Lib.Calendar

/-- The bytes of `datetime`. -/
structure DateTime where
  unused : Nat
  second : Nat
  minute : Nat
  hour : Nat
  day : Nat
  month : Nat
  yearLow : Nat
  yearHigh : Nat
deriving DecidableEq, Repr

/-- The loop over the months, with the lengths that are left. -/
def monthLoop : List Nat → Nat → Nat → Nat × Nat
  | [], days, months => (days, months)
  | n :: rest, days, months =>
      if days > n then monthLoop rest (days - n) (months + 1) else (days, months)

/-- `days`, `months` and `years` behind the loop. -/
structure Parts where
  days : Nat
  months : Nat
  years : Nat

/-- The months of a year and the carry into the next one; `daysPerMonth` has a day more for
February in a leap year. -/
def monthsOfYear (years days : Nat) : Parts :=
  let (days, months) := monthLoop (monthLengths years) days 0
  if months ≥ 12 then ⟨days, months - 12, (years + 1) % 65536⟩ else ⟨days, months, years⟩

/-- `years` and `days` are of 16 bits, `leapdays` and the bytes of the result of 8. -/
def fileTimeToDate (fileTime : Nat) : DateTime :=
  let time := fileTime / 10000000
  let years := time / (60 * 60 * 24 * 365) % 65536
  let time := time - years * (60 * 60 * 24 * 365)
  let leapdays := (years / 4 - years / 100 + years / 400) % 256
  let years := (years + 1601) % 65536
  let days := time / (60 * 60 * 24) % 65536
  let time := time - days * (60 * 60 * 24)
  let days := (days + 65536 - leapdays) % 65536
  let parts := monthsOfYear years days
  let hours := time / (60 * 60) % 256
  let time := time - hours * (60 * 60)
  let minutes := time / 60 % 256
  let time := time - minutes * 60
  { unused := 0
    second := time % 256
    minute := minutes
    hour := hours
    day := (parts.days + 1) % 256
    month := (parts.months + 1) % 256
    yearLow := parts.years % 256
    yearHigh := parts.years / 256 % 256 }

/-! ## The date it should be -/

/-- The day on which the count starts. -/
def epoch : Date := Date.newYear 1601

def dateOf (fileTime : Nat) : Date := epoch.after (fileTime / 10000000 / 86400)

/-- A date and the seconds since midnight. -/
def dateTime (d : Date) (seconds : Nat) : DateTime where
  unused := 0
  second := seconds % 60
  minute := seconds / 60 % 60
  hour := seconds / 3600
  day := d.day
  month := d.month
  yearLow := d.year % 256
  yearHigh := d.year / 256

/-- The result is the date and the time of the calendar. -/
def Converts (fileTime : Nat) : Prop :=
  fileTimeToDate fileTime = dateTime (dateOf fileTime) (fileTime / 10000000 % 86400)

/-- The leap days since 1601 are counted in 8 bits, leave the day in its year of 365 days,
and no month but January starts on the day. -/
structure Countable (d : Date) : Prop where
  leaps : leapYears 1601 (d.year - 1601) ≤ 255
  year : leapYears 1601 (d.year - 1601) + d.ordinal < 365
  month : d.day = 1 → d.month = 1

/-! ## The months -/

section Months

variable {table : List Nat} {j e months : Nat}

/-- The month of a day that is not the first one. -/
theorem monthLoop_day (hj : j < table.length) (he : e ≤ table[j]) (hpos : 0 < e ∨ j = 0) :
    monthLoop table ((table.take j).sum + e) months = (e, months + j) := by
  induction table generalizing j months with
  | nil => exact absurd hj (Nat.not_lt_zero j)
  | cons n rest ih =>
      cases j with
      | zero =>
          have hle : e ≤ n := he
          show monthLoop (n :: rest) (0 + e) months = _
          rw [Nat.zero_add, monthLoop, if_neg (Nat.not_lt.mpr hle)]
          rfl
      | succ j =>
          have hday : 0 < e := hpos.resolve_right (Nat.succ_ne_zero j)
          rw [List.take_succ_cons, List.sum_cons, monthLoop, if_pos (by omega),
            show n + (rest.take j).sum + e - n = (rest.take j).sum + e by omega,
            ih (Nat.lt_of_succ_lt_succ hj) he (Or.inl hday)]
          rw [Nat.add_assoc, Nat.add_comm 1]

/-- The first day of a month is taken for one more day of the month before. -/
theorem monthLoop_first (hj : j < table.length) (hpos : 0 < table[j]) :
    monthLoop table (table.take (j + 1)).sum months = (table[j], months + j) := by
  rw [List.take_succ_eq_append_getElem hj, List.sum_append, List.sum_singleton]
  exact monthLoop_day hj (Nat.le_refl _) (Or.inl hpos)

/-- The days that the loop takes off are those of the months that it counts. -/
theorem monthLoop_sum (table : List Nat) (days months : Nat) : ∃ j ≤ table.length,
    (monthLoop table days months).2 = months + j ∧
    (table.take j).sum + (monthLoop table days months).1 = days ∧
    ∀ hj : j < table.length, (monthLoop table days months).1 ≤ table[j] := by
  induction table generalizing days months with
  | nil => exact ⟨0, Nat.le_refl 0, rfl, Nat.zero_add _, nofun⟩
  | cons n rest ih =>
      rw [monthLoop]
      split
      · obtain ⟨j, hj, hmonths, hsum, hlast⟩ := ih (days - n) (months + 1)
        refine ⟨j + 1, Nat.succ_le_succ hj, ?_, ?_, ?_⟩
        · rw [hmonths, Nat.add_assoc, Nat.add_comm 1]
        · rw [List.take_succ_cons, List.sum_cons, Nat.add_assoc, hsum]
          omega
        · exact fun hlt => hlast (Nat.lt_of_succ_lt_succ hlt)
      · exact ⟨0, Nat.zero_le _, rfl, Nat.zero_add _, fun _ => Nat.le_of_not_lt ‹_›⟩

end Months

/-! ## The conversion -/

theorem leapYears_1601 (n : Nat) : leapYears 1601 n = n / 4 - n / 100 + n / 400 := by
  induction n with
  | zero => rfl
  | succ n ih =>
      rw [leapYears_succ, ih]
      unfold isLeap
      simp only [decide_eq_true_eq]
      split <;> omega

/-- The time of the day, as the last divisions take it apart. -/
theorem seconds_split {seconds : Nat} (h : seconds < 86400) :
    seconds / (60 * 60) % 256 = seconds / 3600 ∧
    (seconds - seconds / 3600 * (60 * 60)) / 60 % 256 = seconds / 60 % 60 ∧
    (seconds - seconds / 3600 * (60 * 60) - seconds / 60 % 60 * 60) % 256 = seconds % 60 := by
  have hhour : seconds - seconds / 3600 * (60 * 60) = seconds % 3600 := by omega
  have hminute : seconds / 60 % 60 = seconds % 3600 / 60 := by omega
  rw [hhour, hminute]
  omega

/-- The result in terms of the days since the epoch, taken as years of 365 days. -/
theorem fileTimeToDate_eq {fileTime days : Nat} (h : fileTime < 18446744073709551616)
    (hdays : fileTime / 10000000 / 86400 = days) :
    fileTimeToDate fileTime =
      let leapdays := (days / 365 / 4 - days / 365 / 100 + days / 365 / 400) % 256
      let parts := monthsOfYear (days / 365 + 1601) ((days % 365 + 65536 - leapdays) % 65536)
      let seconds := fileTime / 10000000 % 86400
      ⟨0, seconds % 60, seconds / 60 % 60, seconds / 3600, (parts.days + 1) % 256,
        (parts.months + 1) % 256, parts.years % 256, parts.years / 256 % 256⟩ := by
  have htime : fileTime / 10000000 < 1844674407371 := by omega
  unfold fileTimeToDate
  generalize fileTime / 10000000 = time at hdays htime ⊢
  have hyears : time / (60 * 60 * 24 * 365) % 65536 = days / 365 := by omega
  have hday : (time - days / 365 * (60 * 60 * 24 * 365)) / (60 * 60 * 24) % 65536 = days % 365 := by
    omega
  have hrest : time - days / 365 * (60 * 60 * 24 * 365) - days % 365 * (60 * 60 * 24) =
      time % 86400 := by omega
  have hyear : (days / 365 + 1601) % 65536 = days / 365 + 1601 := by omega
  obtain ⟨hhour, hminute, hsecond⟩ := seconds_split (Nat.mod_lt time (by decide : 0 < 86400))
  dsimp only
  rw [hyears, hday, hrest, hyear, hhour, hminute, hsecond]

/-! ## Exactness -/

theorem date_number (fileTime : Nat) : 1601 ≤ (dateOf fileTime).year ∧
    fileTime / 10000000 / 86400 = 365 * ((dateOf fileTime).year - 1601) +
      leapYears 1601 ((dateOf fileTime).year - 1601) + (dateOf fileTime).ordinal := by
  have hyear : 1601 ≤ (dateOf fileTime).year := Date.year_le_after epoch _
  have hnumber : (dateOf fileTime).number = daysBeforeYear 1601 + fileTime / 10000000 / 86400 :=
    Date.number_newYear_after 1601 _
  have hdays := daysBeforeYear_add 1601 ((dateOf fileTime).year - 1601)
  rw [Nat.add_sub_cancel' hyear] at hdays
  unfold Date.number at hnumber
  exact ⟨hyear, by omega⟩

theorem month_lt (d : Date) : d.month - 1 < (monthLengths d.year).length := by
  have hpos := d.month_pos
  have hle := d.month_le
  show d.month - 1 < 12
  omega

theorem day_le (d : Date) : d.day ≤ 31 := by
  have hday := d.day_le
  rw [daysInMonth_eq d.year (month_lt d)] at hday
  exact Nat.le_trans hday (monthLengths_le d.year _ (List.getElem_mem _))

theorem monthsOfYear_years_lt {year days : Nat} (hyear : year < 65536) :
    (monthsOfYear year days).years < 65536 := by
  unfold monthsOfYear
  dsimp only
  split
  · exact Nat.mod_lt _ (by decide)
  · exact hyear

/-- The loop finds the month of every day but the first of it. -/
theorem monthsOfYear_date {d : Date} (h : d.day = 1 → d.month = 1) :
    monthsOfYear d.year d.ordinal = ⟨d.day - 1, d.month - 1, d.year⟩ := by
  have hpos := d.day_pos
  have hmonths := month_lt d
  have hday : d.day - 1 ≤ (monthLengths d.year)[d.month - 1] := by
    rw [← daysInMonth_eq d.year hmonths]
    exact Nat.le_trans (Nat.sub_le _ _) d.day_le
  have hloop : monthLoop (monthLengths d.year) d.ordinal 0 = (d.day - 1, 0 + (d.month - 1)) :=
    monthLoop_day hmonths hday (by omega)
  have htwelve : ¬d.month - 1 ≥ 12 := Nat.not_le.mpr hmonths
  unfold monthsOfYear
  rw [hloop, Nat.zero_add]
  exact if_neg htwelve

/-- A loop that stops with no day left has stopped in January. -/
theorem monthLoop_zero {year days m : Nat} (hm : m < 12)
    (h : monthLoop (monthLengths year) days 0 = (0, m))
    (hsum : ((monthLengths year).take m).sum = days) : m = 0 := by
  cases m with
  | zero => rfl
  | succ j =>
      have hj : j < (monthLengths year).length := Nat.lt_of_succ_lt hm
      have hlength := monthLengths_ge year _ (List.getElem_mem hj)
      have hfirst := @monthLoop_first _ j 0 hj (by omega)
      rw [hsum, h] at hfirst
      have hzero := congrArg Prod.fst hfirst
      dsimp only at hzero
      omega

/-- Parts that show a date come from its place in the year, and from a day that the loop does
not take for one of the month before. -/
theorem monthsOfYear_eq {d : Date} {year days : Nat} (hyear : year < 65535) (hle : d.year ≤ year)
    (hd : (monthsOfYear year days).years = d.year)
    (hmonth : ((monthsOfYear year days).months + 1) % 256 = d.month)
    (hday : ((monthsOfYear year days).days + 1) % 256 = d.day) :
    year = d.year ∧ days = d.ordinal ∧ (d.day = 1 → d.month = 1) := by
  obtain ⟨j, hj, hmonths, hsum, hlast⟩ := monthLoop_sum (monthLengths year) days 0
  rcases hloop : monthLoop (monthLengths year) days 0 with ⟨e, m⟩
  have hj12 : j ≤ 12 := hj
  rw [hloop, Nat.zero_add] at hmonths
  obtain rfl : m = j := hmonths
  rw [hloop] at hsum hlast
  dsimp only at hsum hlast
  unfold monthsOfYear at hd hmonth hday
  rw [hloop] at hd hmonth hday
  dsimp only at hd hmonth hday
  by_cases htwelve : m ≥ 12
  · -- the carry is to a year behind that of the date
    rw [if_pos htwelve] at hd
    dsimp only at hd
    omega
  · rw [if_neg htwelve] at hd hmonth hday
    dsimp only at hd hmonth hday
    have hlt : m < (monthLengths year).length := by
      show m < 12
      omega
    have hsmall := monthLengths_le year _ (List.getElem_mem hlt)
    have he := hlast hlt
    have hm : m = d.month - 1 := by omega
    refine ⟨hd, ?_, fun hone => ?_⟩
    · unfold Date.ordinal daysBeforeMonth
      rw [← hm, ← hd]
      omega
    · obtain rfl : e = 0 := by omega
      have hzero := monthLoop_zero (by omega) hloop hsum
      omega

/-- The conversion is exact on the dates that the counts of leap days and months allow for. -/
theorem fileTimeToDate_exact_iff {fileTime : Nat} (h : fileTime < 18446744073709551616) :
    Converts fileTime ↔ Countable (dateOf fileTime) := by
  obtain ⟨hyear, hdays⟩ := date_number fileTime
  unfold Converts
  generalize dateOf fileTime = d at hyear hdays ⊢
  have hbound : fileTime / 10000000 / 86400 < 21350399 := by omega
  rw [fileTimeToDate_eq h rfl]
  generalize fileTime / 10000000 / 86400 = days at hdays hbound ⊢
  generalize fileTime / 10000000 % 86400 = seconds
  have hleaps := leapYears_1601 (days / 365)
  unfold dateTime
  dsimp only
  rw [← hleaps, DateTime.mk.injEq]
  constructor
  · rintro ⟨-, -, -, -, hday, hmonth, hlow, hhigh⟩
    have hlt := @monthsOfYear_years_lt (days / 365 + 1601)
      ((days % 365 + 65536 - leapYears 1601 (days / 365) % 256) % 65536) (by omega)
    have hquot : d.year ≤ days / 365 + 1601 := by omega
    obtain ⟨hyears, hplace, hfirst⟩ :=
      monthsOfYear_eq (by omega) hquot (by omega) hmonth hday
    have hyears' : days / 365 = d.year - 1601 := by omega
    rw [hyears'] at hplace
    refine ⟨?_, ?_, hfirst⟩
    · omega
    · omega
  · rintro ⟨hleap, hfit, hfirst⟩
    have hmonth := d.month_pos
    have hmonth12 := d.month_le
    have hday := d.day_pos
    have hday31 := day_le d
    have hquot : days / 365 = d.year - 1601 := by omega
    have hplace : (days % 365 + 65536 - leapYears 1601 (days / 365) % 256) % 65536 = d.ordinal := by
      rw [hquot]
      omega
    rw [hplace, hquot, Nat.sub_add_cancel hyear, monthsOfYear_date hfirst]
    refine ⟨rfl, rfl, rfl, rfl, ?_, ?_, rfl, ?_⟩
    · show (d.day - 1 + 1) % 256 = d.day
      omega
    · show (d.month - 1 + 1) % 256 = d.month
      omega
    · show d.year / 256 % 256 = d.year / 256
      omega

/-- Noon of the tenth of February 1601. -/
theorem fileTimeToDate_exact_noon : Countable (dateOf 34992000000000) ∧ Converts 34992000000000 := by
  have hcountable : Countable (dateOf 34992000000000) := by
    constructor
    · decide +kernel
    · decide +kernel
    · decide +kernel
  exact ⟨hcountable, (fileTimeToDate_exact_iff (by decide)).mpr hcountable⟩

/-- The first of February is shown as the 32nd of January. -/
theorem fileTimeToDate_first_of_month :
    fileTimeToDate 26784000000000 = ⟨0, 0, 0, 0, 32, 1, 65, 6⟩ ∧
      (dateOf 26784000000000).month = 2 ∧ ¬Converts 26784000000000 := by
  refine ⟨by decide +kernel, by decide +kernel, ?_⟩
  unfold Converts
  decide +kernel

end BdmAssault.Smb
