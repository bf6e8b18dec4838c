import Listing.Proofs.Time.CalendarOrder
import Listing.Proofs.Value.Scalar

/-!
# Date literals

A text is read as a date exactly when it has four, two and two digits with dashes between them and
its numbers are a day of the calendar. Its value is the midnight of that day: written out it starts
with the text again, and midnights are in the order of their texts. A text of the same form whose
numbers are no day of the calendar stays a text.
-/

namespace Listing

namespace Calendar

/-- The days of a month: thirty in four of them, fewer in February, and thirty-one otherwise. -/
def daysInMonth (year month : Nat) : Nat :=
  if month = 2 then if year % 4 = 0 ∧ (year % 100 = 0 → year % 400 = 0) then 29 else 28
  else if month ∈ [4, 6, 9, 11] then 30
  else 31

theorem monthLength_eq_daysInMonth {year month : Nat} (hfirst : 1 ≤ month) (hlast : month ≤ 12) :
    monthLength (decide (IsLeap year)) month = daysInMonth year month := by
  have hleap : (year % 4 = 0 ∧ (year % 100 = 0 → year % 400 = 0)) ↔ IsLeap year := by
    unfold IsLeap
    omega
  have hall : ∀ leap : Bool, ∀ month : Fin 13, 1 ≤ month.val → monthLength leap month =
      if month.val = 2 then if leap then 29 else 28
      else if month.val ∈ [4, 6, 9, 11] then 30 else 31 := by
    decide +kernel
  have hmonth := hall (decide (IsLeap year)) ⟨month, by omega⟩ hfirst
  simpa only [daysInMonth, hleap, decide_eq_true_eq] using hmonth

end Calendar

open Calendar Text

namespace Date

/-- The text is four, two and two digits with dashes between them. -/
structure Spells (ys ms ds t : Text) : Prop where
  eq : t = ys ++ '-' :: ms ++ '-' :: ds
  length_year : ys.length = 4
  length_month : ms.length = 2
  length_day : ds.length = 2
  digits : ∀ c ∈ ys ++ ms ++ ds, c.isDigit = true

def HasDateForm (t : Text) : Prop := ∃ ys ms ds, Spells ys ms ds t

/-- The form of a date, with the numbers of a day of the calendar. -/
def IsCalendarDate (t : Text) : Prop :=
  ∃ ys ms ds, Spells ys ms ds t ∧ 1 ≤ digitsValue ms ∧ digitsValue ms ≤ 12 ∧
    1 ≤ digitsValue ds ∧ digitsValue ds ≤ daysInMonth (digitsValue ys) (digitsValue ms)

theorem month_pos (d : Date) : 1 ≤ d.month := by
  have hlength := Nat.le_trans d.day_pos d.day_le
  rw [Nat.one_le_iff_ne_zero]
  intro hzero
  rw [hzero, monthLength, List.getD_cons_zero] at hlength
  exact absurd hlength (by decide)

theorem ofNumbers?_eq_some_iff {year : Int} {month day : Nat} {d : Date} :
    ofNumbers? year month day = some d ↔ d.year = year ∧ d.month = month ∧ d.day = day := by
  constructor
  · intro h
    obtain ⟨_, hd⟩ := Option.dite_none_right_eq_some.mp h
    obtain rfl := Option.some.inj hd
    exact ⟨rfl, rfl, rfl⟩
  · rintro ⟨rfl, rfl, rfl⟩
    exact ofNumbers?_self d

theorem read?_of_spells {ys ms ds t : Text} (h : Spells ys ms ds t) :
    read? t = ofNumbers? (digitsValue ys) (digitsValue ms) (digitsValue ds) := by
  rw [h.eq]
  exact read?_of_digits h.length_year h.length_month h.length_day h.digits

theorem hasDateForm_of_read? {t : Text} {d : Date} (h : read? t = some d) : HasDateForm t := by
  unfold read? at h
  split at h
  · rename_i y₁ y₂ y₃ y₄ s₁ m₁ m₂ s₂ d₁ d₂
    split at h
    · rename_i hform
      obtain ⟨rfl, rfl, hdigits⟩ := hform
      exact ⟨[y₁, y₂, y₃, y₄], [m₁, m₂], [d₁, d₂], rfl, rfl, rfl, rfl,
        List.all_eq_true.mp hdigits⟩
    · cases h
  · cases h

/-- The numbers of a date that is read are those of its runs of digits. -/
theorem exists_spells_of_read? {t : Text} {d : Date} (h : read? t = some d) :
    ∃ ys ms ds, Spells ys ms ds t ∧ d.year = digitsValue ys ∧ d.month = digitsValue ms ∧
      d.day = digitsValue ds := by
  obtain ⟨ys, ms, ds, hspells⟩ := hasDateForm_of_read? h
  rw [read?_of_spells hspells, ofNumbers?_eq_some_iff] at h
  exact ⟨ys, ms, ds, hspells, h⟩

theorem Spells.dash_mem {ys ms ds t : Text} (h : Spells ys ms ds t) : '-' ∈ t := by
  simp [h.eq]

/-- Dates are read from their texts alone. -/
theorem read?_eq_some_iff {t : Text} {d : Date} :
    read? t = some d ↔ d.HasPlainYear ∧ t = d.text := by
  constructor
  · intro h
    obtain ⟨ys, ms, ds, hspells, hyear, hmonth, hday⟩ := exists_spells_of_read? h
    have hdigits := hspells.digits
    simp only [List.forall_mem_append] at hdigits
    obtain ⟨⟨hys, hms⟩, hds⟩ := hdigits
    have hlast := digitsValue_lt hys
    rw [hspells.length_year] at hlast
    have hplain : d.HasPlainYear := by
      rw [HasPlainYear, hyear]
      omega
    refine ⟨hplain, ?_⟩
    rw [text_of_hasPlainYear hplain, hyear, hmonth, hday, Int.toNat_natCast,
      fixedDecimal_digitsValue hspells.length_year hys,
      fixedDecimal_digitsValue hspells.length_month hms,
      fixedDecimal_digitsValue hspells.length_day hds]
    exact hspells.eq
  · rintro ⟨⟨hfirst, hlast⟩, rfl⟩
    exact read?_text hfirst hlast

theorem isCalendarDate_iff {t : Text} : IsCalendarDate t ↔ ∃ d, read? t = some d := by
  constructor
  · rintro ⟨ys, ms, ds, hspells, hfirst, hlast, hday, hlength⟩
    rw [← monthLength_eq_daysInMonth hfirst hlast] at hlength
    exact ⟨⟨_, _, _, hday, hlength⟩, (read?_of_spells hspells).trans
      (ofNumbers?_eq_some_iff.mpr ⟨rfl, rfl, rfl⟩)⟩
  · rintro ⟨d, h⟩
    obtain ⟨ys, ms, ds, hspells, hyear, hmonth, hday⟩ := exists_spells_of_read? h
    have hlength := d.day_le
    rw [hyear, monthLength_eq_daysInMonth d.month_pos d.month_le, hmonth, hday] at hlength
    exact ⟨ys, ms, ds, hspells, hmonth ▸ d.month_pos, hmonth ▸ d.month_le, hday ▸ d.day_pos,
      hlength⟩

instance (t : Text) : Decidable (IsCalendarDate t) :=
  decidable_of_iff ((read? t).isSome = true)
    (Option.isSome_iff_exists.trans isCalendarDate_iff.symm)

end Date

namespace Value

/-- The text is no token of the clock, and the reading of dates gives it an instant. -/
def IsReadAsDate (t : Text) : Prop :=
  Dynamic.ofToken? t = none ∧ ∃ i, (Date.read? t).bind Instant.midnight? = some i

section

variable {t : Text} {d : Date} {i : Instant}

theorem read_of_read? (ht : Date.read? t = some d) (hd : Instant.midnight? d = some i)
    (now : Instant) : read now t = .ok (.instant i) := by
  obtain ⟨-, rfl⟩ := Date.read?_eq_some_iff.mp ht
  have htoken := Dynamic.ofToken?_eq_none_of_dash d.dash_mem_text
  simp only [read_of_ofToken?_eq_none htoken, ofLiteral, ht, Option.bind_some, hd]

/-- A calendar date is read as the midnight of the day that it is the text of. -/
theorem exists_midnight_of_isCalendarDate (h : Date.IsCalendarDate t) : ∃ d i,
    d.HasPlainYear ∧ t = d.text ∧ Instant.midnight? d = some i ∧
      ∀ now, read now t = .ok (.instant i) := by
  obtain ⟨d, hread⟩ := Date.isCalendarDate_iff.mp h
  obtain ⟨hplain, htext⟩ := Date.read?_eq_some_iff.mp hread
  obtain ⟨i, hi⟩ := Instant.exists_midnight? hplain
  exact ⟨d, i, hplain, htext, hi, read_of_read? hread hi⟩

theorem isReadAsDate_iff : IsReadAsDate t ↔ Date.IsCalendarDate t := by
  constructor
  · rintro ⟨-, i, hi⟩
    obtain ⟨d, hread, -⟩ := Option.bind_eq_some_iff.mp hi
    exact Date.isCalendarDate_iff.mpr ⟨d, hread⟩
  · intro h
    obtain ⟨d, hread⟩ := Date.isCalendarDate_iff.mp h
    obtain ⟨hplain, rfl⟩ := Date.read?_eq_some_iff.mp hread
    obtain ⟨i, hi⟩ := Instant.exists_midnight? hplain
    exact ⟨Dynamic.ofToken?_eq_none_of_dash d.dash_mem_text, i, by rw [hread, Option.bind_some, hi]⟩

/-- Without the clock, only the reading of dates gives instants. -/
theorem ofLiteral_eq_instant_iff :
    ofLiteral t = .instant i ↔ (Date.read? t).bind Instant.midnight? = some i := by
  unfold ofLiteral
  cases (Date.read? t).bind Instant.midnight? with
  | some j => simp
  | none =>
    dsimp only
    split_ifs <;> simp

theorem isPlain_of_hasDateForm (hform : Date.HasDateForm t) (h : ¬Date.IsCalendarDate t) :
    IsPlain t := by
  obtain ⟨ys, ms, ds, hspells⟩ := hform
  refine ⟨Dynamic.ofToken?_eq_none_of_dash hspells.dash_mem, ?_, fun hword => ?_⟩
  · rw [Option.eq_none_iff_forall_ne_some]
    exact fun d hread => h (Date.isCalendarDate_iff.mpr ⟨d, hread⟩)
  · have hwords : ∀ word ∈ words, '-' ∉ word := by decide
    exact hwords t hword hspells.dash_mem

end

/-- The dates among the scalars are the texts in the form of a date whose numbers are a day of the
calendar; no other scalar is read as an instant, clock tokens apart. Their values do not depend on
the clock, are written as the text and midnight, and are in the order of the texts. What has the
form of a date and is no day of the calendar stays a text. -/
theorem read_date_literals (now : Instant) :
    (∀ t, (IsReadAsDate t ↔ Date.IsCalendarDate t) ∧
        ((Dynamic.ofToken? t = none ∧ ∃ i, read now t = .ok (.instant i)) ↔
          Date.IsCalendarDate t)) ∧
      (∀ t, Date.IsCalendarDate t → ∃ i, (∀ other, read other t = .ok (.instant i)) ∧
        i.text = t ++ "T00:00:00Z".toList) ∧
      (∀ t u i j, Date.IsCalendarDate t → Date.IsCalendarDate u →
        read now t = .ok (.instant i) → read now u = .ok (.instant j) →
          (i < j ↔ t < u) ∧ (i = j ↔ t = u)) ∧
      ∀ t, Date.HasDateForm t → ¬Date.IsCalendarDate t → read now t = .ok (.text t) := by
  refine ⟨fun t => ⟨isReadAsDate_iff, ?_⟩, fun t ht => ?_, fun t u i j ht hu hi hj => ?_,
    fun t hform ht => ?_⟩
  · rw [← isReadAsDate_iff]
    refine and_congr_right fun htoken => exists_congr fun i => ?_
    rw [read_of_ofToken?_eq_none htoken, Except.ok.injEq, ofLiteral_eq_instant_iff]
  · obtain ⟨d, i, -, rfl, hmidnight, hread⟩ := exists_midnight_of_isCalendarDate ht
    exact ⟨i, hread, Instant.text_of_midnight? hmidnight⟩
  · obtain ⟨d, i', hd, rfl, hdi, hread⟩ := exists_midnight_of_isCalendarDate ht
    obtain ⟨e, j', he, rfl, hej, hread'⟩ := exists_midnight_of_isCalendarDate hu
    obtain rfl : i' = i := by simpa using (hread now).symm.trans hi
    obtain rfl : j' = j := by simpa using (hread' now).symm.trans hj
    refine ⟨(Instant.lt_iff_precedes hdi hej).trans (Date.text_lt_text_iff hd he).symm, ?_⟩
    rw [Instant.eq_iff_date_eq hdi hej, Date.text_inj hd he]
  · have hplain := isPlain_of_hasDateForm hform ht
    rw [read_of_ofToken?_eq_none hplain.1, ofLiteral_of_isPlain hplain]

/-- The year 0 has a leap day and the year 1900 has none; both dates lie before 1970. -/
theorem read_leap_days :
    let first := "0000-02-29".toList
    let last := "1969-12-31".toList
    let other := "1900-02-29".toList
    let now : Instant := ⟨0, 0, by decide, by decide, by decide⟩
    let i : Instant := ⟨-62162121600, 0, by decide, by decide, by decide⟩
    let j : Instant := ⟨-86400, 0, by decide, by decide, by decide⟩
    (Date.IsCalendarDate first ∧ Date.IsCalendarDate last ∧ Date.HasDateForm other ∧
        ¬Date.IsCalendarDate other) ∧
      (read now first = .ok (.instant i) ∧ i.text = "0000-02-29T00:00:00Z".toList) ∧
      (read now last = .ok (.instant j) ∧ i < j ∧ first < last) ∧
      read now other = .ok (.text other) := by
  intro first last other now i j
  have hfirst : Date.IsCalendarDate first := by decide +kernel
  have hlast : Date.IsCalendarDate last := by decide +kernel
  have hform : Date.HasDateForm other :=
    ⟨"1900".toList, "02".toList, "29".toList, rfl, rfl, rfl, rfl, List.all_eq_true.mp rfl⟩
  have hother : ¬Date.IsCalendarDate other := by decide +kernel
  have hi : read now first = .ok (.instant i) := by decide +kernel
  have hj : read now last = .ok (.instant j) := by decide +kernel
  obtain ⟨-, hvalue, horder, hrest⟩ := read_date_literals now
  obtain ⟨i', hread, htext⟩ := hvalue first hfirst
  obtain rfl : i' = i := by simpa [hi] using (hread now).symm
  exact ⟨⟨hfirst, hlast, hform, hother⟩, ⟨hi, htext⟩,
    ⟨hj, by decide, ((horder first last _ _ hfirst hlast hi hj).1.mp (by decide))⟩,
    hrest other hform hother⟩

end Value

end Listing
