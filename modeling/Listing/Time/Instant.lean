import Listing.Time.Calendar

/-!
# Instants

Instants of UTC in nanoseconds, within the range of representable instants: from the start of
the year -262143 to the end of the year 262142. Leap seconds are not counted. Shifting by days
fails exactly when the result leaves the range.
-/

namespace Listing

namespace Calendar

def secondsPerDay : Int := 86400

/-- The first second of the year -262143. -/
def firstSecond : Int := yearStart (-262143) * secondsPerDay

/-- The last second of the year 262142. -/
def lastSecond : Int := yearStart 262143 * secondsPerDay - 1

theorem firstSecond_eq : firstSecond = -8334601228800 := by decide

theorem lastSecond_eq : lastSecond = 8210266876799 := by decide

end Calendar

open Calendar

/-- Seconds from 1970-01-01T00:00:00Z, and nanoseconds into that second. -/
structure Instant where
  seconds : Int
  nanos : Nat
  nanos_lt : nanos < 1000000000
  first_le : firstSecond ≤ seconds
  le_last : seconds ≤ lastSecond
  deriving DecidableEq

namespace Instant

def ofUnix? (seconds : Int) (nanos : Nat) : Option Instant :=
  if h : nanos < 1000000000 ∧ firstSecond ≤ seconds ∧ seconds ≤ lastSecond then
    some ⟨seconds, nanos, h.1, h.2.1, h.2.2⟩
  else
    none

/-- Nanoseconds from 1970-01-01T00:00:00Z; instants are ordered by them. -/
def ticks (i : Instant) : Int := i.seconds * 1000000000 + i.nanos

instance : LE Instant := ⟨fun i j => i.ticks ≤ j.ticks⟩

instance : LT Instant := ⟨fun i j => i.ticks < j.ticks⟩

instance (i j : Instant) : Decidable (i ≤ j) := inferInstanceAs (Decidable (i.ticks ≤ j.ticks))

instance (i j : Instant) : Decidable (i < j) := inferInstanceAs (Decidable (i.ticks < j.ticks))

def addDays? (i : Instant) (days : Int) : Option Instant :=
  ofUnix? (i.seconds + secondsPerDay * days) i.nanos

def midnight? (d : Date) : Option Instant := ofUnix? (d.dayNumber * secondsPerDay) 0

def date (i : Instant) : Date := Date.ofDayNumber (i.seconds / secondsPerDay)

def year (i : Instant) : Int := i.date.year

/-- The fewest of 0, 3, 6 and 9 digits that give the nanoseconds exactly. -/
def fractionText (nanos : Nat) : Text :=
  if nanos = 0 then []
  else if nanos % 1000000 = 0 then '.' :: Text.fixedDecimal 3 (nanos / 1000000)
  else if nanos % 1000 = 0 then '.' :: Text.fixedDecimal 6 (nanos / 1000)
  else '.' :: Text.fixedDecimal 9 nanos

def timeOfDayText (second : Nat) : Text :=
  Text.fixedDecimal 2 (second / 3600) ++ ':' :: Text.fixedDecimal 2 (second / 60 % 60) ++
    ':' :: Text.fixedDecimal 2 (second % 60)

/-- The form of RFC 3339, in UTC. -/
def text (i : Instant) : Text :=
  i.date.text ++ 'T' :: timeOfDayText (i.seconds % secondsPerDay).toNat ++
    fractionText i.nanos ++ ['Z']

@[simp] theorem ofUnix?_self (i : Instant) : ofUnix? i.seconds i.nanos = some i := by
  simp [ofUnix?, i.nanos_lt, i.first_le, i.le_last]

theorem ofUnix?_eq_some_iff {seconds : Int} {nanos : Nat} {i : Instant} :
    ofUnix? seconds nanos = some i ↔ i.seconds = seconds ∧ i.nanos = nanos := by
  constructor
  · intro h
    obtain ⟨_, hi⟩ := Option.dite_none_right_eq_some.mp h
    obtain rfl := Option.some.inj hi
    exact ⟨rfl, rfl⟩
  · rintro ⟨rfl, rfl⟩
    exact ofUnix?_self i

theorem ofUnix?_eq_none_iff {i : Instant} {seconds : Int} :
    ofUnix? seconds i.nanos = none ↔ seconds < firstSecond ∨ lastSecond < seconds := by
  have := i.nanos_lt
  simp only [ofUnix?, dite_eq_right_iff, reduceCtorEq, imp_false]
  omega

end Instant
end Listing
