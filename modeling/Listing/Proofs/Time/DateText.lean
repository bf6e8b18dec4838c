import Listing.Proofs.Text.Digits
import Listing.Time.Instant

/-!
# Dates and their texts

The number of a day and its date determine each other, and the text of a date with a year of four
digits is read as that date. So an instant at midnight is found again from the text of its date.
-/

namespace Listing

namespace Calendar

/-- The place of a day in consecutive months: the months before it and its day of the month
add up to the days counted. -/
theorem locate_spec {lengths : List Nat} (month : Nat) {offset : Nat} (h : offset < lengths.sum) :
    month ≤ (locate month lengths offset).1 ∧
      (lengths.take ((locate month lengths offset).1 - month)).sum +
        (locate month lengths offset).2 = offset + 1 := by
  induction lengths generalizing month offset with
  | nil => simp at h
  | cons length lengths ih =>
    rw [List.sum_cons] at h
    by_cases hfirst : offset < length
    · simp [locate, hfirst]
    · have hoffset : offset - length < lengths.sum := by omega
      obtain ⟨hle, hsum⟩ := ih (month + 1) hoffset
      simp only [locate, hfirst, if_false]
      refine ⟨by omega, ?_⟩
      obtain ⟨k, hk⟩ : ∃ k, (locate (month + 1) lengths (offset - length)).1 - month = k + 1 :=
        ⟨(locate (month + 1) lengths (offset - length)).1 - (month + 1), by omega⟩
      have hk' : (locate (month + 1) lengths (offset - length)).1 - (month + 1) = k := by omega
      rw [hk'] at hsum
      rw [hk, List.take_succ_cons, List.sum_cons]
      omega

theorem sum_monthLengths (leap : Bool) : (monthLengths leap).sum = yearLength leap := by
  cases leap <;> decide

theorem month_bounds {leap : Bool} {month : Nat} (h : 1 ≤ monthLength leap month) :
    month ≤ 12 ∧ monthLength leap month ≤ 31 := by
  have hmonth : month < 13 := by
    by_contra hlarge
    have hlength : (0 :: monthLengths leap).length ≤ month := by
      simp [monthLengths]
      omega
    rw [monthLength, List.getD_eq_getElem?_getD, List.getElem?_eq_none hlength] at h
    exact absurd h (by decide)
  have hall : ∀ leap : Bool, ∀ m : Fin 13, monthLength leap m ≤ 31 := by decide
  exact ⟨by omega, hall leap ⟨month, hmonth⟩⟩

end Calendar

open Calendar

namespace Date

@[simp] theorem ofNumbers?_self (d : Date) : ofNumbers? d.year d.month d.day = some d := by
  simp [ofNumbers?, d.day_pos, d.day_le]

/-- The date of a day has the number of that day. -/
@[simp] theorem dayNumber_ofDayNumber (day : Int) : (ofDayNumber day).dayNumber = day := by
  let lengths := monthLengths (decide (IsLeap (yearOf day)))
  let offset := (day - yearStart (yearOf day)).toNat
  have hnumber : (ofDayNumber day).dayNumber = yearStart (yearOf day) +
      ((lengths.take ((locate 1 lengths offset).1 - 1)).foldl (· + ·) 0 : Nat) +
        (locate 1 lengths offset).2 - 1 := rfl
  have hoffset : offset < lengths.sum := by
    rw [sum_monthLengths]
    exact dayOfYear_lt day
  have hplace := (locate_spec 1 hoffset).2
  have hstart : (offset : Int) = day - yearStart (yearOf day) :=
    Int.toNat_of_nonneg (Int.sub_nonneg_of_le (yearStart_yearOf_le day))
  rw [hnumber, ← List.sum_eq_foldl]
  omega

theorem month_le (d : Date) : d.month ≤ 12 :=
  (month_bounds (Nat.le_trans d.day_pos d.day_le)).1

theorem day_le_31 (d : Date) : d.day ≤ 31 :=
  Nat.le_trans d.day_le (month_bounds (Nat.le_trans d.day_pos d.day_le)).2

theorem read?_of_digits {ys ms ds : Text} (hys : ys.length = 4) (hms : ms.length = 2)
    (hds : ds.length = 2) (hdigits : ∀ c ∈ ys ++ ms ++ ds, c.isDigit = true) :
    read? (ys ++ '-' :: ms ++ '-' :: ds) =
      ofNumbers? (Text.digitsValue ys) (Text.digitsValue ms) (Text.digitsValue ds) := by
  match ys, ms, ds with
  | [y₁, y₂, y₃, y₄], [m₁, m₂], [d₁, d₂] =>
    have hall : [y₁, y₂, y₃, y₄, m₁, m₂, d₁, d₂].all Char.isDigit = true := by
      simpa using hdigits
    simp only [read?, List.cons_append, List.nil_append, hall, and_self, if_true]

/-- The text of a date with a year of four digits is read as the date. -/
theorem read?_text {d : Date} (hfirst : 0 ≤ d.year) (hlast : d.year ≤ 9999) :
    read? d.text = some d := by
  have hyear : d.year.toNat < 10 ^ 4 := by omega
  have hmonth := d.month_le
  have hday := d.day_le_31
  rw [text, yearText, if_pos ⟨hfirst, hlast⟩, read?_of_digits (by simp) (by simp) (by simp)]
  · rw [Text.digitsValue_fixedDecimal, Text.digitsValue_fixedDecimal,
      Text.digitsValue_fixedDecimal, Nat.mod_eq_of_lt hyear, Nat.mod_eq_of_lt (by omega),
      Nat.mod_eq_of_lt (by omega), Int.toNat_of_nonneg hfirst, ofNumbers?_self]
  · intro c hc
    simp only [List.mem_append] at hc
    rcases hc with (hc | hc) | hc <;> exact Text.isDigit_of_mem_fixedDecimal hc

theorem dash_mem_text (d : Date) : '-' ∈ d.text := by simp [text]

theorem eq_dash_or_isDigit_of_mem_text {d : Date} (hfirst : 0 ≤ d.year) (hlast : d.year ≤ 9999)
    {c : Char} (h : c ∈ d.text) : c = '-' ∨ c.isDigit = true := by
  rw [text, yearText, if_pos ⟨hfirst, hlast⟩] at h
  simp only [List.mem_append, List.mem_cons] at h
  rcases h with (h | rfl | h) | rfl | h
  · exact .inr (Text.isDigit_of_mem_fixedDecimal h)
  · exact .inl rfl
  · exact .inr (Text.isDigit_of_mem_fixedDecimal h)
  · exact .inl rfl
  · exact .inr (Text.isDigit_of_mem_fixedDecimal h)

/-- The text of a date needs no care when it is put into a list. -/
theorem isToken_text {d : Date} (hfirst : 0 ≤ d.year) (hlast : d.year ≤ 9999)
    {separators : List Char} (hdash : '-' ∉ separators)
    (hdigits : separators.any Char.isDigit = false) : Text.IsToken separators d.text := by
  refine ⟨List.ne_nil_of_mem d.dash_mem_text, Text.isTrimmed_of_forall fun c hc => ?_, ?_⟩
  · rcases eq_dash_or_isDigit_of_mem_text hfirst hlast hc with rfl | hdigit
    · decide
    · exact Text.isBlankChar_of_isDigit hdigit
  · intro c hc hmem
    rcases eq_dash_or_isDigit_of_mem_text hfirst hlast hmem with rfl | hdigit
    · exact hdash hc
    · exact List.any_eq_false.mp hdigits c hc hdigit

end Date

namespace Instant

/-- An instant at which a day starts. -/
def IsMidnight (i : Instant) : Prop := i.nanos = 0 ∧ i.seconds % secondsPerDay = 0

instance (i : Instant) : Decidable i.IsMidnight :=
  inferInstanceAs (Decidable (i.nanos = 0 ∧ i.seconds % secondsPerDay = 0))

/-- A midnight is the midnight of its date. -/
theorem midnight?_date {i : Instant} (h : i.IsMidnight) : midnight? i.date = some i := by
  obtain ⟨hnanos, hseconds⟩ := h
  have hday : i.date.dayNumber * secondsPerDay = i.seconds := by
    rw [date, Date.dayNumber_ofDayNumber]
    exact Int.ediv_mul_cancel (Int.dvd_of_emod_eq_zero hseconds)
  rw [midnight?, hday, ← hnanos, ofUnix?_self]

end Instant

end Listing
