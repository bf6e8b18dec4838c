import Listing.Value.Literal
import Mathlib.Data.List.Basic

/-!
# Shifts that leave the range of instants

A shift by days keeps the time of day, so whether it leaves the range is a question about the
nanoseconds of now alone. Twelve of the clock tokens are such shifts: six numbers of days, each
backward and forward. Reading a scalar fails exactly when it is one of them and its shift leaves
the range, and the failure tells the direction.
-/

namespace Listing

open Calendar

namespace Instant

def ticksPerDay : Int := secondsPerDay * 1000000000

/-- The first nanosecond of the range. -/
def firstTick : Int := firstSecond * 1000000000

/-- The last nanosecond of the range. -/
def lastTick : Int := lastSecond * 1000000000 + 999999999

theorem firstTick_le_ticks (i : Instant) : firstTick ≤ i.ticks := by
  have := i.first_le
  unfold firstTick ticks
  omega

theorem ticks_le_lastTick (i : Instant) : i.ticks ≤ lastTick := by
  have hseconds := i.le_last
  have hnanos := i.nanos_lt
  unfold lastTick ticks
  omega

/-- There is no instant so many days away exactly when it would be out of the range. -/
theorem addDays?_eq_none_iff (i : Instant) (days : Int) : i.addDays? days = none ↔
    i.ticks + days * ticksPerDay < firstTick ∨ lastTick < i.ticks + days * ticksPerDay := by
  have hnanos := i.nanos_lt
  rw [addDays?, ofUnix?_eq_none_iff]
  unfold ticks ticksPerDay firstTick lastTick secondsPerDay
  omega

end Instant

open Instant

/-- So many days before now lie before the range, or so many days from now after it. -/
def OutOfRange.IsBeyond (now : Instant) : OutOfRange → Nat → Prop
  | backward, days => now.ticks - days * ticksPerDay < firstTick
  | forward, days => lastTick < now.ticks + days * ticksPerDay

instance (now : Instant) : (direction : OutOfRange) → (days : Nat) →
    Decidable (direction.IsBeyond now days)
  | .backward, days => inferInstanceAs (Decidable (now.ticks - days * ticksPerDay < firstTick))
  | .forward, days => inferInstanceAs (Decidable (lastTick < now.ticks + days * ticksPerDay))

theorem Instant.addDays?_neg_eq_none_iff (i : Instant) (days : Nat) :
    i.addDays? (-(days : Int)) = none ↔ OutOfRange.backward.IsBeyond i days := by
  have hlast := i.ticks_le_lastTick
  rw [addDays?_eq_none_iff]
  unfold OutOfRange.IsBeyond ticksPerDay secondsPerDay
  omega

theorem Instant.addDays?_natCast_eq_none_iff (i : Instant) (days : Nat) :
    i.addDays? days = none ↔ OutOfRange.forward.IsBeyond i days := by
  have hfirst := i.firstTick_le_ticks
  rw [addDays?_eq_none_iff]
  unfold OutOfRange.IsBeyond ticksPerDay secondsPerDay
  omega

namespace Dynamic

/-- The numbers of days that have tokens. -/
def dayCounts : List Nat := [1, 7, 14, 30, 60, 90]

def shift : OutOfRange → Nat → Dynamic
  | .backward, days => daysAgo days
  | .forward, days => daysFromNow days

/-- A number of days ahead is written bare, and one of days back ends in `_ago`. -/
def shiftToken (direction : OutOfRange) (days : Nat) : Text :=
  Text.decimal days ++ (if days = 1 then "_day".toList else "_days".toList) ++
    match direction with
    | .backward => "_ago".toList
    | .forward => []

theorem tokens_eq : tokens =
    dayCounts.map (fun days => (shiftToken .backward days, shift .backward days)) ++
      dayCounts.map (fun days => (shiftToken .forward days, shift .forward days)) ++
        [("current_year".toList, currentYear), ("next_year".toList, nextYear),
          ("current_time".toList, currentTime)] := by
  decide +kernel

theorem mem_tokens_of_ofToken? {t : Text} {d : Dynamic} (h : ofToken? t = some d) :
    (t, d) ∈ tokens := by
  obtain ⟨before, after, htokens, _⟩ := List.lookup_eq_some_iff.mp h
  rw [htokens]
  simp

theorem ofToken?_eq_shift_iff {t : Text} {direction : OutOfRange} {days : Nat} :
    ofToken? t = some (shift direction days) ↔
      days ∈ dayCounts ∧ t = shiftToken direction days := by
  constructor
  · intro h
    have hmem := mem_tokens_of_ofToken? h
    rw [tokens_eq] at hmem
    cases direction with
    | backward => simpa [shift, eq_comm] using hmem
    | forward => simpa [shift, eq_comm] using hmem
  · rintro ⟨hdays, rfl⟩
    have hread : ∀ days ∈ dayCounts, ofToken? (shiftToken direction days) =
        some (shift direction days) := by
      cases direction <;> decide +kernel
    exact hread days hdays

/-- A shift fails in its own direction, and only when it goes too far. -/
theorem resolve_shift_eq_error_iff {now : Instant} {direction other : OutOfRange} {days : Nat} :
    (shift direction days).resolve now = .error other ↔
      direction = other ∧ direction.IsBeyond now days := by
  cases direction with
  | backward =>
    rw [← now.addDays?_neg_eq_none_iff days, shift, resolve]
    cases now.addDays? (-(days : Int)) <;> simp
  | forward =>
    rw [← now.addDays?_natCast_eq_none_iff days, shift, resolve]
    cases now.addDays? days <;> simp

/-- Of all tokens, only shifts can fail. -/
theorem resolve_eq_error_iff {now : Instant} {d : Dynamic} {direction : OutOfRange} :
    d.resolve now = .error direction ↔
      ∃ days, d = shift direction days ∧ direction.IsBeyond now days := by
  constructor
  · intro h
    obtain ⟨other, days, rfl⟩ : ∃ other days, d = shift other days := by
      cases d with
      | daysAgo days => exact ⟨.backward, days, rfl⟩
      | daysFromNow days => exact ⟨.forward, days, rfl⟩
      | currentYear => cases h
      | nextYear => cases h
      | currentTime => cases h
    obtain ⟨rfl, hbeyond⟩ := resolve_shift_eq_error_iff.mp h
    exact ⟨days, rfl, hbeyond⟩
  · rintro ⟨days, rfl, hbeyond⟩
    exact resolve_shift_eq_error_iff.mpr ⟨rfl, hbeyond⟩

end Dynamic

/-- The scalar is a token of so many days back or ahead, and these lead out of the range. -/
def LeavesRange (now : Instant) (t : Text) (direction : OutOfRange) : Prop :=
  ∃ days ∈ Dynamic.dayCounts, t = Dynamic.shiftToken direction days ∧ direction.IsBeyond now days

instance (now : Instant) (t : Text) (direction : OutOfRange) :
    Decidable (LeavesRange now t direction) :=
  inferInstanceAs (Decidable (∃ days ∈ Dynamic.dayCounts,
    t = Dynamic.shiftToken direction days ∧ direction.IsBeyond now days))

/-- Reading a scalar fails exactly when it is a shift that leaves the range. -/
theorem Value.read_eq_error_iff {now : Instant} {t : Text} {direction : OutOfRange} :
    read now t = .error direction ↔ LeavesRange now t direction := by
  constructor
  · intro h
    unfold read at h
    split at h
    · rename_i token htoken
      obtain ⟨days, rfl, hbeyond⟩ := Dynamic.resolve_eq_error_iff.mp h
      obtain ⟨hdays, ht⟩ := Dynamic.ofToken?_eq_shift_iff.mp htoken
      exact ⟨days, hdays, ht, hbeyond⟩
    · cases h
  · rintro ⟨days, hdays, ht, hbeyond⟩
    rw [read, Dynamic.ofToken?_eq_shift_iff.mpr ⟨hdays, ht⟩]
    exact Dynamic.resolve_eq_error_iff.mpr ⟨days, rfl, hbeyond⟩

end Listing
