import Mathlib.Algebra.BigOperators.Group.List.Basic
import Mathlib.Algebra.Order.Ring.Int
import Mathlib.Data.Int.SuccPred
import Mathlib.Order.SuccPred.Basic

/-!
# The calendar

Points of time, as numbers of seconds since the start of 1970, and their dates in the Gregorian
calendar without time zones.  `gmtime` gives the date of a point of time, and `mktime` the point
of time of a date, also for a day that the month does not have.

The year of a day is the only one that begins before it and ends after it.  All that is known of
`gmtime` and `mktime` follows from this, and from the division of a year into its months.
-/

namespace Calendar

/-! ### Years -/

def isLeap (year : ℤ) : Bool :=
  year % 4 = 0 && (year % 100 ≠ 0 || year % 400 = 0)

/-- The number of days of a year. -/
def yearLength (year : ℤ) : ℕ := if isLeap year then 366 else 365

/-- The number of days from the start of the year 1 to the start of a year. -/
def daysBefore (year : ℤ) : ℤ :=
  365 * (year - 1) + (year - 1) / 4 - (year - 1) / 100 + (year - 1) / 400

/-- The year of a day. -/
def yearOf (day : ℤ) : ℤ :=
  let year := 400 * day / 146097 + 1
  if day < daysBefore year then year - 1
  else if daysBefore (year + 1) ≤ day then year + 1
  else year

theorem daysBefore_succ (year : ℤ) :
  daysBefore (year + 1) = daysBefore year + yearLength year
  := by
  rw [daysBefore, daysBefore, yearLength, isLeap]
  split_ifs with hleap
  · simp only [Bool.and_eq_true, Bool.or_eq_true, decide_eq_true_eq] at hleap
    omega
  · simp only [Bool.and_eq_true, Bool.or_eq_true, decide_eq_true_eq] at hleap
    omega

theorem daysBefore_lt_iff {year year' : ℤ} :
  daysBefore year < daysBefore year' ↔ year < year'
  := by
  have hmono : StrictMono daysBefore := by
    apply strictMono_int_of_lt_succ
    intro year
    rw [daysBefore_succ, yearLength]
    split_ifs <;> omega
  apply hmono.lt_iff_lt

/-- A day is in its year. -/
theorem yearOf_spec (day : ℤ) :
  daysBefore (yearOf day) ≤ day ∧ day < daysBefore (yearOf day + 1)
  := by
  simp only [yearOf]
  split_ifs with hbefore hafter
  all_goals
    simp only [daysBefore] at *
    omega

theorem yearOf_eq_iff {day year : ℤ} :
  yearOf day = year ↔ daysBefore year ≤ day ∧ day < daysBefore (year + 1)
  := by
  constructor
  · rintro rfl
    apply yearOf_spec
  · rintro ⟨hfirst, hlast⟩
    obtain ⟨hfirst', hlast'⟩ := yearOf_spec day
    apply le_antisymm
    · apply Int.le_of_lt_add_one
      apply daysBefore_lt_iff.mp (hfirst'.trans_lt hlast)
    · apply Int.le_of_lt_add_one
      apply daysBefore_lt_iff.mp (hfirst.trans_lt hlast')

theorem yearOf_mono {day day' : ℤ} (h : day ≤ day') :
  yearOf day ≤ yearOf day'
  := by
  apply Int.le_of_lt_add_one
  apply daysBefore_lt_iff.mp
  apply ((yearOf_spec day).1.trans h).trans_lt (yearOf_spec day').2

/-! ### Months -/

/-- The numbers of days of the months. -/
def monthLengths (leap : Bool) : List ℕ :=
  [31, if leap then 29 else 28, 31, 30, 31, 30, 31, 31, 30, 31, 30, 31]

/-- The part in which a number is, for parts of the given lengths, and its place in it. -/
def split : List ℕ → ℕ → ℕ × ℕ
  | [], n => (0, n)
  | len :: lens, n =>
      if n < len then (0, n) else ((split lens (n - len)).1 + 1, (split lens (n - len)).2)

/-- A number is the lengths of the parts before it and its place in its own. -/
theorem sum_take_split (lens : List ℕ) (n : ℕ) :
  (lens.take (split lens n).1).sum + (split lens n).2 = n
  := by
  induction lens generalizing n with
  | nil => simp [split]
  | cons len lens ih =>
      rw [split]
      split_ifs with hn
      · simp
      · have hrest := ih (n - len)
        simp only [List.take_succ_cons, List.sum_cons]
        omega

/-- The place of a number is in one of the parts. -/
theorem split_lt {lens : List ℕ} {n : ℕ} (h : n < lens.sum) :
  ∃ len, lens[(split lens n).1]? = some len ∧ (split lens n).2 < len
  := by
  induction lens generalizing n with
  | nil => simp at h
  | cons len lens ih =>
      rw [split]
      split_ifs with hn
      · exact ⟨len, rfl, hn⟩
      · rw [List.sum_cons] at h
        obtain ⟨len', hlen', hlt⟩ := ih (show n - len < lens.sum by omega)
        exact ⟨len', hlen', hlt⟩

theorem sum_monthLengths (year : ℤ) :
  (monthLengths (isLeap year)).sum = yearLength year
  := by
  rw [yearLength]
  cases isLeap year <;> rfl

/-- A day of a month is a day of every year, when it is counted from the start of the month. -/
theorem day_lt {leap : Bool} {mon mday len : ℕ} (h : (monthLengths leap)[mon]? = some len)
    (hlt : mday < len) (leap' : Bool) :
  ((monthLengths leap').take mon).sum + mday < (monthLengths leap').sum
  := by
  have hall : ∀ leap leap' : Bool, ∀ mon < 12, ∀ mday < (monthLengths leap).getD mon 0,
      ((monthLengths leap').take mon).sum + mday < (monthLengths leap').sum := by
    decide +kernel
  apply hall leap
  · apply (List.getElem?_eq_some_iff.mp h).1
  · rw [List.getD_eq_getElem?_getD, h]
    apply hlt

/-! ### Dates -/

/-- `struct tm`: a date and a time of the day.  The months are counted from 0, and the years from
1900 on. -/
structure Tm where
  sec : ℤ
  min : ℤ
  hour : ℤ
  mday : ℤ
  mon : ℕ
  year : ℤ

/-- The date with another year. -/
def Tm.setYear (tm : Tm) (year : ℤ) : Tm := { tm with year := year }

/-- The day of a point of time, counted from the start of the year 1. -/
def dayOf (t : ℤ) : ℤ := t / 86400 + daysBefore 1970

/-- The date of a point of time. -/
def gmtime (t : ℤ) : Tm :=
  let year := yearOf (dayOf t)
  let month := split (monthLengths (isLeap year)) (dayOf t - daysBefore year).toNat
  { sec := t % 60
    min := t % 3600 / 60
    hour := t % 86400 / 3600
    mday := month.2 + 1
    mon := month.1
    year := year - 1900 }

/-- The day of a date, counted from the start of the year 1. -/
def Tm.day (tm : Tm) : ℤ :=
  daysBefore (tm.year + 1900) +
    (((monthLengths (isLeap (tm.year + 1900))).take tm.mon).sum + (tm.mday - 1))

/-- The point of time of a date. -/
def mktime (tm : Tm) : ℤ :=
  86400 * (tm.day - daysBefore 1970) + (3600 * tm.hour + (60 * tm.min + tm.sec))

variable {t t' : ℤ}

/-- The day in its year. -/
theorem day_gmtime :
  (gmtime t).day = dayOf t
  := by
  obtain ⟨hfirst, -⟩ := yearOf_spec (dayOf t)
  have hsplit := sum_take_split (monthLengths (isLeap (yearOf (dayOf t))))
    (dayOf t - daysBefore (yearOf (dayOf t))).toNat
  simp only [Tm.day, gmtime, sub_add_cancel, add_sub_cancel_right]
  omega

/-- The date of a point of time is the date of no other one. -/
theorem mktime_gmtime (t : ℤ) :
  mktime (gmtime t) = t
  := by
  rw [mktime, day_gmtime, dayOf]
  simp only [gmtime]
  omega

/-- The day of a date is in the year of the date, also when the year has been changed. -/
theorem yearOf_day (year : ℤ) :
  yearOf ((gmtime t).setYear year).day = year + 1900
  := by
  obtain ⟨hfirst, hlast⟩ := yearOf_spec (dayOf t)
  rw [daysBefore_succ, ← sum_monthLengths] at hlast
  have hlt : (dayOf t - daysBefore (yearOf (dayOf t))).toNat <
      (monthLengths (isLeap (yearOf (dayOf t)))).sum := by
    omega
  obtain ⟨len, hlen, hmday⟩ := split_lt hlt
  have hday := day_lt hlen hmday (isLeap (year + 1900))
  rw [yearOf_eq_iff, daysBefore_succ, ← sum_monthLengths]
  simp only [Tm.day, Tm.setYear, gmtime, add_sub_cancel_right]
  omega

/-- A time of the day does not change the day. -/
theorem dayOf_mktime (year : ℤ) :
  dayOf (mktime ((gmtime t).setYear year)) = ((gmtime t).setYear year).day
  := by
  simp only [dayOf, mktime, Tm.setYear, gmtime]
  omega

/-- The year of a date, also when it has been changed. -/
theorem year_gmtime_mktime (year : ℤ) :
  (gmtime (mktime ((gmtime t).setYear year))).year = year
  := by
  have hyear : yearOf ((gmtime t).setYear year).day = year + 1900 := yearOf_day year
  rw [← dayOf_mktime] at hyear
  simp only [gmtime] at hyear ⊢
  omega

/-- Earlier points of time are in earlier years. -/
theorem year_gmtime_mono (h : t ≤ t') :
  (gmtime t).year ≤ (gmtime t').year
  := by
  have hday : dayOf t ≤ dayOf t' := by
    simp only [dayOf]
    omega
  have hyear := yearOf_mono hday
  simp only [gmtime]
  omega

end Calendar
