import Listing.Proofs.Time.DateText
import Mathlib.Order.Monotone.Basic

/-!
# The order of dates and of their midnights

Dates are ordered by year, then month, then day. Their day numbers are ordered in the same way, so
a date is found again from its day number, and from its midnight. Years of four digits lie in the
range of instants, and there the texts of dates are in order as well.
-/

namespace Listing

namespace Calendar

theorem yearLength_pos (leap : Bool) : 0 < yearLength leap := by
  cases leap <;> decide

theorem yearStart_lt_of_lt {year later : Int} (h : year < later) :
    yearStart year < yearStart later := by
  have hmono : StrictMono yearStart := by
    refine strictMono_int_of_lt_succ fun year => ?_
    rw [yearStart_succ]
    have := yearLength_pos (decide (IsLeap year))
    omega
  exact hmono h

theorem yearStart_le_of_le {year later : Int} (h : year ≤ later) :
    yearStart year ≤ yearStart later := by
  rcases Int.lt_or_eq_of_le h with hlt | rfl
  · exact Int.le_of_lt (yearStart_lt_of_lt hlt)
  · exact Int.le_refl _

/-- The number of days of a year before a month. -/
def monthStart (leap : Bool) (month : Nat) : Nat := ((monthLengths leap).take (month - 1)).sum

/-- A month is over before later months start; the year ends where a thirteenth would start. -/
theorem monthStart_add_monthLength_le (leap : Bool) {month later : Nat} (h : month < later)
    (hlater : later ≤ 13) :
    monthStart leap month + monthLength leap month ≤ monthStart leap later := by
  have hall : ∀ leap : Bool, ∀ later : Fin 14, ∀ month : Fin 14, month < later →
      monthStart leap month + monthLength leap month ≤ monthStart leap later := by
    decide +kernel
  exact hall leap ⟨later, by omega⟩ ⟨month, by omega⟩ h

theorem monthStart_thirteen (leap : Bool) : monthStart leap 13 = yearLength leap := by
  cases leap <;> decide

end Calendar

open Calendar

namespace Date

theorem dayNumber_eq (d : Date) :
    d.dayNumber = yearStart d.year + monthStart (decide (IsLeap d.year)) d.month + d.day - 1 := by
  rw [dayNumber, monthStart, ← List.sum_eq_foldl]

theorem yearStart_le_dayNumber (d : Date) : yearStart d.year ≤ d.dayNumber := by
  have := d.day_pos
  rw [dayNumber_eq]
  omega

theorem dayNumber_lt_yearStart_succ (d : Date) : d.dayNumber < yearStart (d.year + 1) := by
  have hmonth := d.month_le
  have hday := d.day_le
  have hyear := monthStart_add_monthLength_le (decide (IsLeap d.year))
    (Nat.lt_succ_of_le d.month_le) (Nat.le_refl 13)
  rw [monthStart_thirteen] at hyear
  rw [dayNumber_eq, yearStart_succ]
  omega

/-- Earlier in the calendar. -/
def Precedes (d e : Date) : Prop :=
  d.year < e.year ∨ d.year = e.year ∧ (d.month < e.month ∨ d.month = e.month ∧ d.day < e.day)

theorem precedes_trichotomy (d e : Date) : d.Precedes e ∨ d = e ∨ e.Precedes d := by
  by_cases heq : d.year = e.year ∧ d.month = e.month ∧ d.day = e.day
  · obtain ⟨hyear, hmonth, hday⟩ := heq
    refine .inr (.inl ?_)
    cases d
    cases e
    subst hyear hmonth hday
    rfl
  · unfold Precedes
    omega

theorem dayNumber_lt_of_precedes {d e : Date} (h : d.Precedes e) : d.dayNumber < e.dayNumber := by
  rcases h with hyear | ⟨hyear, hmonth | ⟨hmonth, hday⟩⟩
  · calc
      d.dayNumber < yearStart (d.year + 1) := d.dayNumber_lt_yearStart_succ
      _ ≤ yearStart e.year := yearStart_le_of_le hyear
      _ ≤ e.dayNumber := e.yearStart_le_dayNumber
  · have hstart := monthStart_add_monthLength_le (decide (IsLeap d.year)) hmonth
      (Nat.le_succ_of_le e.month_le)
    have hd := d.day_le
    have he := e.day_pos
    rw [dayNumber_eq, dayNumber_eq, ← hyear]
    omega
  · rw [dayNumber_eq, dayNumber_eq, ← hyear, ← hmonth]
    omega

theorem dayNumber_lt_iff {d e : Date} : d.dayNumber < e.dayNumber ↔ d.Precedes e := by
  refine ⟨fun h => ?_, dayNumber_lt_of_precedes⟩
  rcases precedes_trichotomy d e with hlt | rfl | hgt
  · exact hlt
  · exact absurd h (Int.lt_irrefl _)
  · exact absurd h (Int.not_lt_of_ge (Int.le_of_lt (dayNumber_lt_of_precedes hgt)))

theorem dayNumber_injective {d e : Date} (h : d.dayNumber = e.dayNumber) : d = e := by
  rcases precedes_trichotomy d e with hlt | heq | hgt
  · exact absurd h (Int.ne_of_lt (dayNumber_lt_of_precedes hlt))
  · exact heq
  · exact absurd h (Int.ne_of_gt (dayNumber_lt_of_precedes hgt))

/-- A date is the date of its day number. -/
@[simp] theorem ofDayNumber_dayNumber (d : Date) : ofDayNumber d.dayNumber = d :=
  dayNumber_injective (dayNumber_ofDayNumber d.dayNumber)

/-! ## Texts -/

/-- Years that are written with four digits and without a sign. -/
def HasPlainYear (d : Date) : Prop := 0 ≤ d.year ∧ d.year ≤ 9999

theorem text_of_hasPlainYear {d : Date} (h : d.HasPlainYear) :
    d.text = Text.fixedDecimal 4 d.year.toNat ++ '-' :: Text.fixedDecimal 2 d.month ++
      '-' :: Text.fixedDecimal 2 d.day := by
  rw [text, yearText, if_pos ⟨h.1, h.2⟩]

/-- Texts of dates are ordered as the dates. -/
theorem text_lt_text_iff {d e : Date} (hd : d.HasPlainYear) (he : e.HasPlainYear) :
    d.text < e.text ↔ d.Precedes e := by
  have hdash (t u : Text) : '-' :: t < '-' :: u ↔ t < u := by simp
  have hmonth (d : Date) : d.month < 10 ^ 2 := Nat.lt_of_le_of_lt d.month_le (by decide)
  have hday (d : Date) : d.day < 10 ^ 2 := Nat.lt_of_le_of_lt d.day_le_31 (by decide)
  have hyear {d : Date} (h : d.HasPlainYear) :
      d.year.toNat < 10 ^ 4 ∧ (d.year.toNat : Int) = d.year := by
    obtain ⟨hfirst, hlast⟩ := h
    omega
  obtain ⟨hdlast, hdyear⟩ := hyear hd
  obtain ⟨helast, heyear⟩ := hyear he
  rw [text_of_hasPlainYear hd, text_of_hasPlainYear he, List.append_assoc, List.append_assoc,
    List.cons_append, List.cons_append, Text.fixedDecimal_append_lt_iff hdlast helast, hdash,
    Text.fixedDecimal_append_lt_iff (hmonth d) (hmonth e), hdash,
    Text.fixedDecimal_lt_iff (hday d) (hday e), Precedes]
  omega

/-- Different dates have different texts. -/
theorem text_inj {d e : Date} (hd : d.HasPlainYear) (he : e.HasPlainYear) :
    d.text = e.text ↔ d = e := by
  refine ⟨fun h => ?_, congrArg text⟩
  have hread := read?_text hd.1 hd.2
  rw [h, read?_text he.1 he.2] at hread
  exact (Option.some.inj hread).symm

end Date

namespace Instant

theorem midnight?_eq_some_iff {d : Date} {i : Instant} :
    midnight? d = some i ↔ i.seconds = d.dayNumber * secondsPerDay ∧ i.nanos = 0 :=
  ofUnix?_eq_some_iff

/-- Every date with a plain year has a midnight. -/
theorem exists_midnight? {d : Date} (h : d.HasPlainYear) : ∃ i, midnight? d = some i := by
  have hfirst : yearStart 0 ≤ d.dayNumber :=
    (yearStart_le_of_le h.1).trans d.yearStart_le_dayNumber
  have hlast : d.dayNumber < yearStart 10000 :=
    d.dayNumber_lt_yearStart_succ.trans_le
      (yearStart_le_of_le (Int.add_le_add_right h.2 1))
  have hzero : yearStart 0 = -719528 := by decide
  have hend : yearStart 10000 = 2932897 := by decide
  have hperDay : secondsPerDay = 86400 := rfl
  have hrange : firstSecond ≤ d.dayNumber * secondsPerDay ∧
      d.dayNumber * secondsPerDay ≤ lastSecond := by
    rw [firstSecond_eq, lastSecond_eq, hperDay]
    omega
  exact ⟨⟨_, 0, by decide, hrange.1, hrange.2⟩, midnight?_eq_some_iff.mpr ⟨rfl, rfl⟩⟩

section Midnights

variable {d e : Date} {i j : Instant} (hd : midnight? d = some i) (he : midnight? e = some j)

include hd

theorem date_of_midnight? : i.date = d := by
  obtain ⟨hseconds, -⟩ := midnight?_eq_some_iff.mp hd
  have hday : i.seconds / secondsPerDay = d.dayNumber := by
    rw [hseconds, Int.mul_ediv_cancel _ (by decide)]
  rw [date, hday, Date.ofDayNumber_dayNumber]

/-- A midnight is written as its date, and a time of day without a fraction. -/
theorem text_of_midnight? : i.text = d.text ++ "T00:00:00Z".toList := by
  obtain ⟨hseconds, hnanos⟩ := midnight?_eq_some_iff.mp hd
  have htime : i.seconds % secondsPerDay = 0 := by
    rw [hseconds, Int.mul_emod_left]
  rw [text, date_of_midnight? hd, htime, hnanos, List.append_assoc, List.append_assoc]
  rfl

include he

theorem lt_iff_precedes : i < j ↔ d.Precedes e := by
  obtain ⟨hi, hinanos⟩ := midnight?_eq_some_iff.mp hd
  obtain ⟨hj, hjnanos⟩ := midnight?_eq_some_iff.mp he
  have hperDay : secondsPerDay = 86400 := rfl
  have hlt : i < j ↔ i.ticks < j.ticks := Iff.rfl
  rw [hlt, ← Date.dayNumber_lt_iff, ticks, ticks, hi, hj, hinanos, hjnanos, hperDay]
  omega

theorem eq_iff_date_eq : i = j ↔ d = e := by
  constructor
  · rintro rfl
    exact (date_of_midnight? hd).symm.trans (date_of_midnight? he)
  · rintro rfl
    exact Option.some.inj (hd.symm.trans he)

end Midnights

end Instant

end Listing
