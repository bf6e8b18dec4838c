import Listing.Text.Numeral

/-!
# The proleptic Gregorian calendar

Dates and the numbering of days from 1970-01-01. `yearStart` counts the days up to a year by the
leap rule in closed form, and `yearOf` estimates the year of a day from the mean length of a
year, which is never more than one year off. Main statements: a day lies between the starts of
its year and of the next one, and the date of a day is a date of the calendar.
-/

namespace Listing
namespace Calendar

def IsLeap (year : Int) : Prop := year % 4 = 0 ∧ (year % 100 ≠ 0 ∨ year % 400 = 0)

instance (year : Int) : Decidable (IsLeap year) :=
  inferInstanceAs (Decidable (year % 4 = 0 ∧ (year % 100 ≠ 0 ∨ year % 400 = 0)))

def monthLengths (leap : Bool) : List Nat :=
  [31, if leap then 29 else 28, 31, 30, 31, 30, 31, 31, 30, 31, 30, 31]

/-- Months are numbered from 1; there are no days in a month that is not one of the twelve. -/
def monthLength (leap : Bool) (month : Nat) : Nat := (0 :: monthLengths leap).getD month 0

def yearLength (leap : Bool) : Nat := if leap then 366 else 365

/-- The number of the first day of a year. -/
def yearStart (year : Int) : Int :=
  365 * year + (year + 3) / 4 - (year + 99) / 100 + (year + 399) / 400 - 719528

theorem yearStart_succ (year : Int) :
    yearStart (year + 1) = yearStart year + yearLength (decide (IsLeap year)) := by
  by_cases h : IsLeap year
  · simp only [yearLength, h, decide_true, if_true, yearStart]
    unfold IsLeap at h
    omega
  · simp only [yearLength, h, decide_false, Bool.false_eq_true, if_false, yearStart]
    unfold IsLeap at h
    omega

/-- The year that a day lies in. -/
def yearOf (day : Int) : Int :=
  let guess := 400 * (day + 719528) / 146097
  if day < yearStart guess then guess - 1
  else if yearStart (guess + 1) ≤ day then guess + 1
  else guess

theorem yearStart_yearOf_le (day : Int) : yearStart (yearOf day) ≤ day := by
  unfold yearOf
  dsimp only
  split
  · unfold yearStart
    omega
  · split <;> omega

theorem lt_yearStart_yearOf_succ (day : Int) : day < yearStart (yearOf day + 1) := by
  unfold yearOf
  dsimp only
  split
  · simpa using ‹day < _›
  · split
    · unfold yearStart
      omega
    · omega

end Calendar

open Calendar

/-- A day of the calendar. -/
structure Date where
  year : Int
  month : Nat
  day : Nat
  day_pos : 1 ≤ day
  day_le : day ≤ monthLength (decide (IsLeap year)) month
  deriving DecidableEq

namespace Calendar

/-- The month and the day of the month of a day counted from zero through consecutive months of
the given lengths, the first of which is month `month`. -/
def locate (month : Nat) : List Nat → Nat → Nat × Nat
  | [], offset => (month, offset + 1)
  | length :: lengths, offset =>
    if offset < length then (month, offset + 1)
    else locate (month + 1) lengths (offset - length)

def monthDay (leap : Bool) (offset : Nat) : Nat × Nat := locate 1 (monthLengths leap) offset

theorem monthDay_valid (leap : Bool) (offset : Fin 366) (h : offset.val < yearLength leap) :
    1 ≤ (monthDay leap offset).2 ∧
      (monthDay leap offset).2 ≤ monthLength leap (monthDay leap offset).1 := by
  revert leap offset
  decide +kernel

theorem dayOfYear_lt (day : Int) :
    (day - yearStart (yearOf day)).toNat < yearLength (decide (IsLeap (yearOf day))) := by
  have h1 := yearStart_yearOf_le day
  have h2 := lt_yearStart_yearOf_succ day
  rw [yearStart_succ] at h2
  omega

theorem yearLength_le (leap : Bool) : yearLength leap ≤ 366 := by
  cases leap <;> decide

end Calendar

namespace Date

/-- The date with these numbers, if the calendar has one. -/
def ofNumbers? (year : Int) (month day : Nat) : Option Date :=
  if h : 1 ≤ day ∧ day ≤ monthLength (decide (IsLeap year)) month then
    some ⟨year, month, day, h.1, h.2⟩
  else
    none

/-- Days from 1970-01-01. -/
def dayNumber (d : Date) : Int :=
  let lengths := (monthLengths (decide (IsLeap d.year))).take (d.month - 1)
  let earlier : Nat := lengths.foldl (· + ·) 0
  yearStart d.year + earlier + d.day - 1

def ofDayNumber (day : Int) : Date :=
  let year := yearOf day
  let offset := (day - yearStart year).toNat
  let place := monthDay (decide (IsLeap year)) offset
  have h := dayOfYear_lt day
  have valid := monthDay_valid _ ⟨offset, Nat.lt_of_lt_of_le h (yearLength_le _)⟩ h
  ⟨year, place.1, place.2, valid.1, valid.2⟩

/-- Years 0 to 9999 have four digits; others have a sign and at least four digits. -/
def yearText (year : Int) : Text :=
  if 0 ≤ year ∧ year ≤ 9999 then Text.fixedDecimal 4 year.toNat
  else
    (if year < 0 then '-' else '+') ::
      (if year.natAbs ≤ 9999 then Text.fixedDecimal 4 year.natAbs else Text.decimal year.natAbs)

def text (d : Date) : Text :=
  yearText d.year ++ '-' :: Text.fixedDecimal 2 d.month ++ '-' :: Text.fixedDecimal 2 d.day

/-- Reads exactly `DDDD-DD-DD` with the numbers of a day of the calendar. -/
def read? : Text → Option Date
  | [y₁, y₂, y₃, y₄, s₁, m₁, m₂, s₂, d₁, d₂] =>
    if s₁ = '-' ∧ s₂ = '-' ∧ [y₁, y₂, y₃, y₄, m₁, m₂, d₁, d₂].all Char.isDigit then
      ofNumbers? (Text.digitsValue [y₁, y₂, y₃, y₄]) (Text.digitsValue [m₁, m₂])
        (Text.digitsValue [d₁, d₂])
    else
      none
  | _ => none

end Date
end Listing
