import Mathlib.Algebra.Ring.Nat
import Mathlib.Data.List.Basic
import Mathlib.Logic.Function.Iterate

/-! # The proleptic Gregorian calendar

Dates follow each other day by day; the number of a day counts the days from the start of
year 0.
-/

namespace BdmAssault.Lib.Calendar

def isLeap (year : Nat) : Bool := year % 4 = 0 ∧ (year % 100 ≠ 0 ∨ year % 400 = 0)

def monthLengths (year : Nat) : List Nat :=
  [31, if isLeap year then 29 else 28, 31, 30, 31, 30, 31, 31, 30, 31, 30, 31]

/-- Months are counted from 1. -/
def daysInMonth (year month : Nat) : Nat := (monthLengths year).getD (month - 1) 0

/-- The days of the year in front of a month. -/
def daysBeforeMonth (year month : Nat) : Nat := ((monthLengths year).take (month - 1)).sum

structure Date where
  year : Nat
  month : Nat
  day : Nat
  month_pos : 1 ≤ month
  month_le : month ≤ 12
  day_pos : 1 ≤ day
  day_le : day ≤ daysInMonth year month

section Months

variable (year : Nat) {month : Nat}

theorem monthLengths_ge : ∀ n ∈ monthLengths year, 28 ≤ n := by
  intro n hn
  unfold monthLengths at hn
  split at hn
  · revert n
    decide
  · revert n
    decide

theorem monthLengths_le : ∀ n ∈ monthLengths year, n ≤ 31 := by
  intro n hn
  unfold monthLengths at hn
  split at hn
  · revert n
    decide
  · revert n
    decide

theorem daysInMonth_eq (hmonth : month - 1 < (monthLengths year).length) :
    daysInMonth year month = (monthLengths year)[month - 1] := by
  unfold daysInMonth
  rw [List.getD_eq_getElem?_getD, List.getElem?_eq_getElem hmonth, Option.getD_some]

theorem daysInMonth_pos (hmonth : month ≤ 12) : 1 ≤ daysInMonth year month := by
  have hlt : month - 1 < (monthLengths year).length := by
    show month - 1 < 12
    omega
  rw [daysInMonth_eq year hlt]
  have hge := monthLengths_ge year _ (List.getElem_mem hlt)
  omega

theorem daysBeforeMonth_succ (hpos : 1 ≤ month) (hmonth : month ≤ 12) :
    daysBeforeMonth year (month + 1) = daysBeforeMonth year month + daysInMonth year month := by
  have hlt : month - 1 < (monthLengths year).length := by
    show month - 1 < 12
    omega
  unfold daysBeforeMonth
  rw [daysInMonth_eq year hlt, show month + 1 - 1 = month - 1 + 1 by omega,
    List.take_succ_eq_append_getElem hlt, List.sum_append, List.sum_singleton]

end Months

/-! ## Days in order -/

def yearLength (year : Nat) : Nat := (monthLengths year).sum

theorem yearLength_eq (year : Nat) : yearLength year = 365 + if isLeap year then 1 else 0 := by
  unfold yearLength monthLengths
  split <;> rfl

def daysBeforeYear : Nat → Nat
  | 0 => 0
  | year + 1 => daysBeforeYear year + yearLength year

namespace Date

/-- The first day of a month. -/
def first (year month : Nat) (hpos : 1 ≤ month) (hmonth : month ≤ 12) : Date :=
  ⟨year, month, 1, hpos, hmonth, Nat.le_refl 1, daysInMonth_pos year hmonth⟩

def newYear (year : Nat) : Date := first year 1 (Nat.le_refl 1) (by decide)

/-- The day after. -/
def next (d : Date) : Date :=
  if hday : d.day < daysInMonth d.year d.month then
    ⟨d.year, d.month, d.day + 1, d.month_pos, d.month_le, Nat.succ_pos _, hday⟩
  else if hmonth : d.month < 12 then first d.year (d.month + 1) (Nat.succ_pos _) hmonth
  else first (d.year + 1) 1 (Nat.le_refl 1) (by decide)

/-- The days of the year in front of a date. -/
def ordinal (d : Date) : Nat := daysBeforeMonth d.year d.month + (d.day - 1)

def number (d : Date) : Nat := daysBeforeYear d.year + d.ordinal

theorem number_next (d : Date) : d.next.number = d.number + 1 := by
  have hpos := d.month_pos
  have hle := d.month_le
  have hday := d.day_pos
  have hlast := d.day_le
  have hmonth := daysBeforeMonth_succ d.year hpos hle
  unfold next
  split
  · show daysBeforeYear d.year + (daysBeforeMonth d.year d.month + (d.day + 1 - 1)) =
      daysBeforeYear d.year + (daysBeforeMonth d.year d.month + (d.day - 1)) + 1
    omega
  · split
    · show daysBeforeYear d.year + (daysBeforeMonth d.year (d.month + 1) + (1 - 1)) =
        daysBeforeYear d.year + (daysBeforeMonth d.year d.month + (d.day - 1)) + 1
      omega
    · have hdecember : d.month = 12 := by omega
      have hyear : daysBeforeMonth d.year (12 + 1) = yearLength d.year := rfl
      rw [hdecember] at hmonth hlast
      show daysBeforeYear d.year + yearLength d.year + (daysBeforeMonth (d.year + 1) 1 + (1 - 1)) =
        daysBeforeYear d.year + (daysBeforeMonth d.year d.month + (d.day - 1)) + 1
      rw [hdecember, show daysBeforeMonth (d.year + 1) 1 = 0 from rfl]
      rename_i hend _
      rw [hdecember] at hend
      omega

theorem year_le_next (d : Date) : d.year ≤ d.next.year := by
  unfold next
  split
  · exact Nat.le_refl _
  · split
    · exact Nat.le_refl _
    · exact Nat.le_succ _

/-- `n` days after. -/
def after (d : Date) (n : Nat) : Date := next^[n] d

theorem number_after (d : Date) (n : Nat) : (d.after n).number = d.number + n := by
  induction n with
  | zero => rfl
  | succ n ih =>
      unfold after at ih ⊢
      rw [Function.iterate_succ_apply', number_next, ih, Nat.add_assoc]

theorem number_newYear_after (year n : Nat) : ((newYear year).after n).number = daysBeforeYear year + n :=
  number_after _ n

theorem year_le_after (d : Date) (n : Nat) : d.year ≤ (d.after n).year := by
  induction n with
  | zero => exact Nat.le_refl _
  | succ n ih =>
      unfold after at ih ⊢
      rw [Function.iterate_succ_apply']
      exact Nat.le_trans ih (year_le_next _)

end Date

/-- The leap years among the `n` years from `year` on. -/
def leapYears (year n : Nat) : Nat := (List.range n).countP fun i => isLeap (year + i)

theorem leapYears_succ (year n : Nat) :
    leapYears year (n + 1) = leapYears year n + if isLeap (year + n) then 1 else 0 := by
  unfold leapYears
  rw [List.range_succ, List.countP_append, List.countP_singleton]

theorem daysBeforeYear_add (year n : Nat) :
    daysBeforeYear (year + n) = daysBeforeYear year + 365 * n + leapYears year n := by
  induction n with
  | zero => rfl
  | succ n ih =>
      rw [← Nat.add_assoc, daysBeforeYear, ih, leapYears_succ, yearLength_eq]
      omega

end BdmAssault.Lib.Calendar
