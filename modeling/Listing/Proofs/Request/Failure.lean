import Listing.Proofs.Filter.Clause
import Listing.Proofs.Filter.Resolution
import Listing.Proofs.Time.Shift

/-!
# When reading fails

Reading a request goes through the scalars of its clauses in order and fails at the first one that
is a shift out of the range of instants. Nothing else fails, and scalars of clauses that would be
dropped count as well. Ninety days away from both ends of the range every request is read.
-/

namespace Listing

open Text Instant

section FirstFailure

variable {ε α β : Type}

/-- The failure of a computation that fails. -/
def failure? : Except ε α → Option ε
  | .ok _ => none
  | .error e => some e

theorem failure?_eq_some_iff {x : Except ε α} {e : ε} : failure? x = some e ↔ x = .error e := by
  cases x <;> simp [failure?]

theorem failure?_eq_none_iff {x : Except ε α} : failure? x = none ↔ ∃ a, x = .ok a := by
  cases x <;> simp [failure?]

@[simp] theorem failure?_map (f : α → β) (x : Except ε α) : failure? (x.map f) = failure? x := by
  cases x <;> rfl

/-- A traversal fails as its first element that fails. -/
theorem failure?_mapM (f : α → Except ε β) (as : List α) :
    failure? (as.mapM f) = as.findSome? fun a => failure? (f a) := by
  induction as with
  | nil => rfl
  | cons a as ih =>
    rw [List.mapM_cons, List.findSome?_cons, ← ih]
    cases f a with
    | error e => rfl
    | ok b => cases as.mapM f <;> rfl

theorem findSome?_flatMap (f : β → Option ε) (g : α → List β) (as : List α) :
    (as.flatMap g).findSome? f = as.findSome? fun a => (g a).findSome? f := by
  induction as with
  | nil => rfl
  | cons a as ih =>
    rw [List.flatMap_cons, List.findSome?_append, ih, List.findSome?_cons]
    cases (g a).findSome? f <;> rfl

end FirstFailure

theorem Operand.failure?_read (now : Instant) (o : Operand) :
    failure? (o.read now) = o.scalars.findSome? fun t => failure? (Value.read now t) := by
  cases o with
  | scalar t =>
    rw [read, scalars, List.findSome?_cons, List.findSome?_nil]
    cases failure? (Value.read now t) <;> rfl
  | list ts => rw [read, failure?_map, failure?_mapM, scalars]

theorem Draft.failure?_resolveAll (now : Instant) (drafts : List Draft) :
    failure? (resolveAll now drafts) =
      (drafts.flatMap fun d => d.operand.scalars).findSome? fun t => failure? (Value.read now t) := by
  rw [resolveAll, failure?_map, failure?_mapM, findSome?_flatMap]
  simp only [resolve, failure?_map, Operand.failure?_read]

namespace Request

theorem failure?_read (c : Config) (now : Instant) (p : Params) :
    failure? (read c now p) = (scalars c p).findSome? fun t => failure? (Value.read now t) := by
  rw [read, failure?_map, readFilters, Draft.failure?_resolveAll, drafts_eq, scalars,
    List.flatMap_map]
  simp only [Clause.scalars_operand_draft]

/-- A scalar that is no shift out of the range is read. -/
theorem failure?_read_eq_none_iff {now : Instant} {t : Text} :
    failure? (Value.read now t) = none ↔ ∀ e, ¬LeavesRange now t e := by
  rw [Option.eq_none_iff_forall_ne_some]
  apply forall_congr'
  intro e
  rw [ne_eq, failure?_eq_some_iff, Value.read_eq_error_iff]

theorem read_eq_error_iff {c : Config} {now : Instant} {p : Params} {e : OutOfRange} :
    read c now p = .error e ↔ ∃ earlier t later, scalars c p = earlier ++ t :: later ∧
      LeavesRange now t e ∧ ∀ u ∈ earlier, ∀ other, ¬LeavesRange now u other := by
  rw [← failure?_eq_some_iff, failure?_read, List.findSome?_eq_some_iff]
  simp only [failure?_eq_some_iff, Value.read_eq_error_iff, failure?_read_eq_none_iff]

theorem exists_read_eq_ok_iff {c : Config} {now : Instant} {p : Params} :
    (∃ r, read c now p = .ok r) ↔ ∀ t ∈ scalars c p, ∀ e, ¬LeavesRange now t e := by
  rw [← failure?_eq_none_iff, failure?_read, List.findSome?_eq_none_iff]
  simp only [failure?_read_eq_none_iff]

/-- No token shifts by more than ninety days. -/
theorem not_leavesRange {now : Instant} (hfirst : firstTick + 90 * ticksPerDay ≤ now.ticks)
    (hlast : now.ticks + 90 * ticksPerDay ≤ lastTick) (t : Text) (e : OutOfRange) :
    ¬LeavesRange now t e := by
  rintro ⟨days, hdays, rfl, hbeyond⟩
  have hcounts : ∀ days ∈ Dynamic.dayCounts, days ≤ 90 := by decide
  have hle := hcounts days hdays
  have hperDay : ticksPerDay = 86400000000000 := rfl
  rw [hperDay] at hfirst hlast
  cases e with
  | backward =>
    simp only [OutOfRange.IsBeyond, hperDay] at hbeyond
    omega
  | forward =>
    simp only [OutOfRange.IsBeyond, hperDay] at hbeyond
    omega

/-- A request cannot be read exactly when one of its scalars is a shift that leaves the range; the
first of these gives the failure. -/
theorem read_fails_at_first_shift (c : Config) (now : Instant) (p : Params) :
    (∀ e, read c now p = .error e ↔ ∃ earlier t later, scalars c p = earlier ++ t :: later ∧
        LeavesRange now t e ∧ ∀ u ∈ earlier, ∀ other, ¬LeavesRange now u other) ∧
      ((∃ e, read c now p = .error e) ↔ ∃ t ∈ scalars c p, ∃ e, LeavesRange now t e) ∧
      (firstTick + 90 * ticksPerDay ≤ now.ticks → now.ticks + 90 * ticksPerDay ≤ lastTick →
        ∃ r, read c now p = .ok r) := by
  refine ⟨fun e => read_eq_error_iff, ?_, ?_⟩
  · have hok : (∃ r, read c now p = .ok r) ↔ ∀ t ∈ scalars c p, ∀ e, ¬LeavesRange now t e :=
      exists_read_eq_ok_iff
    cases hread : read c now p with
    | error e => simpa [hread] using hok
    | ok r => simpa [hread] using hok
  · intro hfirst hlast
    rw [exists_read_eq_ok_iff]
    intro t _
    exact not_leavesRange hfirst hlast t

/-- Forty days after the start of the range sixty days back are too many, in a filter without a
name; ninety days after the start all of it can be read. -/
theorem read_fails_at_sixty_days_ago :
    let p : Params :=
      ⟨[("at".toList, .single "7_days_ago".toList), ("page".toList, .single "90_days_ago".toList),
        (" :in".toList, .many ["[x, 60_days_ago".toList, "90_days]".toList]),
        ("to".toList, .single "90_days_ago".toList)]⟩
    let now : Instant :=
      ⟨Calendar.firstSecond + 40 * 86400, 5, by decide, by decide, by decide⟩
    let later : Instant :=
      ⟨Calendar.firstSecond + 90 * 86400, 0, by decide, by decide, by decide⟩
    read .default now p = .error .backward ∧
      firstTick + 90 * ticksPerDay ≤ later.ticks ∧ later.ticks + 90 * ticksPerDay ≤ lastTick ∧
      ∃ r, read .default later p = .ok r := by
  intro p now later
  have hfirst : firstTick + 90 * ticksPerDay ≤ later.ticks := by decide
  have hlast : later.ticks + 90 * ticksPerDay ≤ lastTick := by decide
  have hscalars : scalars .default p = ["7_days_ago".toList, "x".toList] ++ "60_days_ago".toList ::
      ["90_days".toList, "90_days_ago".toList] := by decide +kernel
  have hleaves : LeavesRange now "60_days_ago".toList .backward := by decide +kernel
  have hearlier : ∀ u ∈ ["7_days_ago".toList, "x".toList], ∀ other,
      ¬LeavesRange now u other := by
    intro u hu other
    revert u
    cases other <;> decide +kernel
  refine ⟨((read_fails_at_first_shift .default now p).1 _).mpr
    ⟨_, _, _, hscalars, hleaves, hearlier⟩, hfirst, hlast, ?_⟩
  exact (read_fails_at_first_shift .default later p).2.2 hfirst hlast

end Request

end Listing
