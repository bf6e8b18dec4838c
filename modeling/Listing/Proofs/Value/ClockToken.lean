import Listing.Proofs.Time.CalendarOrder
import Listing.Proofs.Time.Shift
import Listing.Proofs.Value.DateLiteral

/-!
# Clock tokens and date literals

The year that a token gives is computed from the seconds of now, and a date literal is an instant
by another way. They agree: now lies between the first days of its year and of the next one. The
tokens that count days move now by whole days, and those ahead undo those back.
-/

namespace Listing

open Calendar

namespace Date

/-- The first day of a year. -/
def newYear (year : Int) : Date :=
  ⟨year, 1, 1, Nat.le_refl 1, by cases decide (IsLeap year) <;> decide⟩

theorem dayNumber_newYear (year : Int) : (newYear year).dayNumber = yearStart year := by
  simp [dayNumber_eq, newYear, monthStart]

/-- The literal of the first day of a year, with four digits for the year. -/
def newYearText (year : Int) : Text := Text.fixedDecimal 4 year.toNat ++ "-01-01".toList

theorem text_newYear {year : Int} (h : (newYear year).HasPlainYear) :
    (newYear year).text = newYearText year := by
  have hrest : '-' :: Text.fixedDecimal 2 1 ++ '-' :: Text.fixedDecimal 2 1 = "-01-01".toList := by
    decide
  rw [text_of_hasPlainYear h, newYearText, List.append_assoc, newYear, hrest]

end Date

namespace Instant

/-- A day has begun when its number is at most that of today. -/
theorem midnight_le_iff {d : Date} {i : Instant} (hd : midnight? d = some i) (now : Instant) :
    i ≤ now ↔ d.dayNumber ≤ now.seconds / secondsPerDay := by
  obtain ⟨hseconds, hnanos⟩ := midnight?_eq_some_iff.mp hd
  have hnow := now.nanos_lt
  have hle : i ≤ now ↔ i.ticks ≤ now.ticks := Iff.rfl
  rw [hle, ticks, ticks, hseconds, hnanos, Int.le_ediv_iff_mul_le (by decide)]
  omega

theorem lt_midnight_iff {d : Date} {i : Instant} (hd : midnight? d = some i) (now : Instant) :
    now < i ↔ now.seconds / secondsPerDay < d.dayNumber := by
  have hlt : now < i ↔ ¬i ≤ now := Int.not_le.symm
  rw [hlt, midnight_le_iff hd, Int.not_le]

theorem addDays?_eq_some_iff {i j : Instant} {days : Int} :
    i.addDays? days = some j ↔
      j.seconds = i.seconds + secondsPerDay * days ∧ j.nanos = i.nanos :=
  ofUnix?_eq_some_iff

/-- There is an instant so many days away, at the same time of day, when it is in the range. -/
theorem exists_addDays?_iff {i : Instant} {days : Int} : (∃ j, i.addDays? days = some j) ↔
    firstSecond ≤ i.seconds + secondsPerDay * days ∧
      i.seconds + secondsPerDay * days ≤ lastSecond := by
  constructor
  · rintro ⟨j, hj⟩
    obtain ⟨hseconds, -⟩ := addDays?_eq_some_iff.mp hj
    exact ⟨hseconds ▸ j.first_le, hseconds ▸ j.le_last⟩
  · rintro ⟨hfirst, hlast⟩
    exact ⟨⟨_, i.nanos, i.nanos_lt, hfirst, hlast⟩, addDays?_eq_some_iff.mpr ⟨rfl, rfl⟩⟩

section Days

variable {i j : Instant} {days : Nat}

theorem daysAgo_eq_some_iff : i.addDays? (-(days : Int)) = some j ↔
    j.seconds = i.seconds - secondsPerDay * days ∧ j.nanos = i.nanos := by
  rw [addDays?_eq_some_iff, Int.mul_neg, Int.sub_eq_add_neg]

theorem exists_daysAgo_iff : (∃ j, i.addDays? (-(days : Int)) = some j) ↔
    firstSecond ≤ i.seconds - secondsPerDay * days := by
  have hlast := i.le_last
  have hperDay : secondsPerDay = 86400 := rfl
  rw [exists_addDays?_iff, Int.mul_neg, ← Int.sub_eq_add_neg, hperDay]
  omega

theorem exists_daysAhead_iff : (∃ j, i.addDays? days = some j) ↔
    i.seconds + secondsPerDay * days ≤ lastSecond := by
  have hfirst := i.first_le
  have hperDay : secondsPerDay = 86400 := rfl
  rw [exists_addDays?_iff, hperDay]
  omega

/-- Days back are undone by as many days ahead. -/
theorem daysAhead_of_daysAgo (h : i.addDays? (-(days : Int)) = some j) :
    j.addDays? days = some i := by
  obtain ⟨hseconds, hnanos⟩ := daysAgo_eq_some_iff.mp h
  exact addDays?_eq_some_iff.mpr ⟨by rw [hseconds, Int.sub_add_cancel], hnanos.symm⟩

end Days

end Instant

namespace Dynamic

theorem resolve_eq_ok_instant_iff {now i : Instant} {days : Nat} :
    ((shift .backward days).resolve now = .ok (.instant i) ↔
        now.addDays? (-(days : Int)) = some i) ∧
      ((shift .forward days).resolve now = .ok (.instant i) ↔ now.addDays? days = some i) := by
  constructor
  · rw [shift, resolve]
    cases now.addDays? (-(days : Int)) <;> simp
  · rw [shift, resolve]
    cases now.addDays? days <;> simp

end Dynamic

open Listing.Dynamic (dayCounts shiftToken)

namespace Value

theorem read_shiftToken {days : Nat} (hdays : days ∈ dayCounts) (direction : OutOfRange)
    (now : Instant) :
    read now (shiftToken direction days) = (Dynamic.shift direction days).resolve now := by
  rw [read, Dynamic.ofToken?_eq_shift_iff.mpr ⟨hdays, rfl⟩]

theorem read_ago_iff {days : Nat} (hdays : days ∈ dayCounts) {now i : Instant} :
    read now (shiftToken .backward days) = .ok (.instant i) ↔
      now.addDays? (-(days : Int)) = some i := by
  rw [read_shiftToken hdays, Dynamic.resolve_eq_ok_instant_iff.1]

theorem read_ahead_iff {days : Nat} (hdays : days ∈ dayCounts) {now i : Instant} :
    read now (shiftToken .forward days) = .ok (.instant i) ↔ now.addDays? days = some i := by
  rw [read_shiftToken hdays, Dynamic.resolve_eq_ok_instant_iff.2]

/-- The first day of a year is read as its midnight, whatever the time. -/
theorem read_newYearText {year : Int} (hfirst : 0 ≤ year) (hlast : year ≤ 9999) :
    ∃ i, Instant.midnight? (Date.newYear year) = some i ∧
      ∀ now, read now (Date.newYearText year) = .ok (.instant i) := by
  have hplain : (Date.newYear year).HasPlainYear := ⟨hfirst, hlast⟩
  obtain ⟨i, hi⟩ := Instant.exists_midnight? hplain
  rw [← Date.text_newYear hplain]
  exact ⟨i, hi, read_of_read? (Date.read?_text hfirst hlast) hi⟩

/-- The tokens for years give the year of now and the next one, and now lies between the literals
of their first days. The tokens for days give the instants that are exactly so many days away,
wherever these are in the range, and a token ahead leads back from where its `_ago` led. -/
theorem read_clock_tokens (now : Instant) :
    (0 ≤ now.year → now.year ≤ 9998 → ∃ y,
        read now "current_year".toList = .ok (.integer y) ∧
        read now "next_year".toList = .ok (.integer (y + 1)) ∧
        ∃ i j, (∀ other, read other (Date.newYearText y) = .ok (.instant i)) ∧
          (∀ other, read other (Date.newYearText (y + 1)) = .ok (.instant j)) ∧
          i ≤ now ∧ now < j) ∧
      ∀ days ∈ dayCounts,
        (∀ i, read now (shiftToken .backward days) = .ok (.instant i) ↔
          i.seconds = now.seconds - secondsPerDay * days ∧ i.nanos = now.nanos) ∧
        ((∃ i, read now (shiftToken .backward days) = .ok (.instant i)) ↔
          firstSecond ≤ now.seconds - secondsPerDay * days) ∧
        (∀ i, read now (shiftToken .forward days) = .ok (.instant i) ↔
          i.seconds = now.seconds + secondsPerDay * days ∧ i.nanos = now.nanos) ∧
        ((∃ i, read now (shiftToken .forward days) = .ok (.instant i)) ↔
          now.seconds + secondsPerDay * days ≤ lastSecond) ∧
        ∀ i, read now (shiftToken .backward days) = .ok (.instant i) →
          read i (shiftToken .forward days) = .ok (.instant now) := by
  refine ⟨fun hfirst hlast => ?_, fun days hdays => ?_⟩
  · obtain ⟨i, hi, hreadi⟩ := read_newYearText hfirst (Int.le_trans hlast (by decide))
    obtain ⟨j, hj, hreadj⟩ := read_newYearText (Int.le_add_one hfirst)
      (Int.add_le_add_right hlast 1)
    refine ⟨now.year, rfl, rfl, i, j, hreadi, hreadj, ?_, ?_⟩
    · rw [Instant.midnight_le_iff hi, Date.dayNumber_newYear]
      exact yearStart_yearOf_le _
    · rw [Instant.lt_midnight_iff hj, Date.dayNumber_newYear]
      exact lt_yearStart_yearOf_succ _
  · simp only [read_ago_iff hdays, read_ahead_iff hdays]
    exact ⟨fun i => Instant.daysAgo_eq_some_iff, Instant.exists_daysAgo_iff,
      fun i => Instant.addDays?_eq_some_iff, Instant.exists_daysAhead_iff,
      fun i => Instant.daysAhead_of_daysAgo⟩

/-- The last nanosecond of the leap year 1968, and thirty days before it. -/
theorem read_tokens_end_of_leap_year :
    let now : Instant := ⟨-31536001, 999999999, by decide, by decide, by decide⟩
    let i : Instant := ⟨-63158400, 0, by decide, by decide, by decide⟩
    let j : Instant := ⟨-31536000, 0, by decide, by decide, by decide⟩
    let ago : Instant := ⟨-34128001, 999999999, by decide, by decide, by decide⟩
    (0 ≤ now.year ∧ now.year ≤ 9998 ∧ 30 ∈ dayCounts) ∧
      read now "current_year".toList = .ok (.integer 1968) ∧
      read now "next_year".toList = .ok (.integer 1969) ∧
      (read now "1968-01-01".toList = .ok (.instant i) ∧
        read now "1969-01-01".toList = .ok (.instant j) ∧ i ≤ now ∧ now < j) ∧
      read now "30_days_ago".toList = .ok (.instant ago) ∧
      read ago "30_days".toList = .ok (.instant now) := by
  intro now i j ago
  have hbounds : 0 ≤ now.year ∧ now.year ≤ 9998 ∧ 30 ∈ dayCounts := by decide +kernel
  have hyear : read now "current_year".toList = .ok (.integer 1968) := by decide +kernel
  have hi : read now "1968-01-01".toList = .ok (.instant i) := by decide +kernel
  have hj : read now "1969-01-01".toList = .ok (.instant j) := by decide +kernel
  have hago : read now "30_days_ago".toList = .ok (.instant ago) := by decide +kernel
  obtain ⟨hyears, hdays⟩ := read_clock_tokens now
  obtain ⟨y, hy, hnext, i', j', hreadi, hreadj, hle, hlt⟩ := hyears hbounds.1 hbounds.2.1
  obtain rfl : y = 1968 := by simpa using hy.symm.trans hyear
  obtain rfl : i' = i := by simpa using (hreadi now).symm.trans hi
  obtain rfl : j' = j := by simpa using (hreadj now).symm.trans hj
  obtain ⟨-, -, -, -, hundo⟩ := hdays 30 hbounds.2.2
  exact ⟨hbounds, hyear, hnext, ⟨hi, hj, hle, hlt⟩, hago, hundo ago hago⟩

end Value

end Listing
