import Listing.Proofs.Filter.Clause
import Listing.Proofs.Filter.Resolution

/-!
# Which clauses give filters

A clause is dropped for two reasons only: its field is blank, or it is a range whose raw texts
hold fewer than two elements. Every other clause gives exactly one filter, with the trimmed field,
the operator of the clause and the values of its scalars, and the filters stand in the order of
their clauses. An operator on lists never meets a value that is not a list.
-/

namespace Listing

open Text

namespace Test

theorem exists_of_list {op : Operator} (hop : op.takesList = true) {items : List Value}
    (hbounds : op = .between → 2 ≤ items.length) : ∃ t, of op (.list items) = .ok t := by
  cases op with
  | compare c => cases hop
  | oneOf => exact ⟨.oneOf items, rfl⟩
  | noneOf => exact ⟨.noneOf items, rfl⟩
  | between =>
    match items, hbounds rfl with
    | [_], h => simp at h
    | low :: high :: _, _ => exact ⟨.between low high, rfl⟩

theorem of_list_ne_listRequired {op : Operator} (items : List Value) (other : Operator) :
    of op (.list items) ≠ .error (.listRequired other) := by
  intro h
  cases op with
  | compare c => cases h
  | oneOf => cases h
  | noneOf => cases h
  | between =>
    match items, h with
    | [], h => cases h
    | [_], h => cases h
    | _ :: _ :: _, h => cases h

end Test

namespace Operator

theorem exists_compare {op : Operator} (h : op.takesList = false) : ∃ c, op = compare c := by
  cases op with
  | compare c => exact ⟨c, rfl⟩
  | oneOf => cases h
  | noneOf => cases h
  | between => cases h

end Operator

namespace Clause

/-- A clause that gives a filter: the field is not blank, and a range has two bounds. -/
structure IsKept (s : Clause) : Prop where
  field : isBlank s.field = false
  bounds : s.operator = .between → 2 ≤ s.elements.length

instance (s : Clause) : Decidable s.IsKept :=
  decidable_of_iff (isBlank s.field = false ∧ (s.operator = .between → 2 ≤ s.elements.length))
    ⟨fun h => ⟨h.1, h.2⟩, fun h => ⟨h.field, h.bounds⟩⟩

/-- The filter that a clause gives: a range takes the first two of its elements. -/
structure Gives (now : Instant) (s : Clause) (f : Filter) : Prop where
  field : f.field = trim s.field
  operator : f.operator = s.operator
  scalar : s.operator.takesList = false → Value.read now s.scalar = .ok f.value
  list : s.operator.takesList = true → ∃ vs, s.elements.mapM (Value.read now) = .ok vs ∧
    f.value = .list (if s.operator = .between then vs.take 2 else vs)

section Reading

variable {now : Instant} {s : Clause} {v : Value}

theorem read_of_takesList (hop : s.operator.takesList = true) :
    s.draft.operand.read now = .ok v ↔
      ∃ vs, s.elements.mapM (Value.read now) = .ok vs ∧ Value.list vs = v := by
  rw [operand_draft_of_takesList hop, Operand.read_list_eq_ok_iff]

theorem read_of_takesList_eq_false (hop : s.operator.takesList = false) :
    s.draft.operand.read now = .ok v ↔ Value.read now s.scalar = .ok v := by
  rw [operand_draft_of_takesList_eq_false hop, Operand.read]

/-- A clause that is not dropped for its bounds has a test, whose value is told by the clause. -/
theorem test_eq_ok_iff (hread : s.draft.operand.read now = .ok v) {t : Test} :
    Test.of s.operator v = .ok t ↔
      (s.operator = .between → 2 ≤ s.elements.length) ∧ t.operator = s.operator ∧
        (s.operator.takesList = false → Value.read now s.scalar = .ok t.value) ∧
        (s.operator.takesList = true → ∃ vs, s.elements.mapM (Value.read now) = .ok vs ∧
          t.value = .list (if s.operator = .between then vs.take 2 else vs)) := by
  cases hop : s.operator.takesList with
  | true =>
    obtain ⟨vs, hvs, rfl⟩ := (read_of_takesList hop).mp hread
    rw [Test.of_list_eq_ok_iff hop, length_mapM_ok hvs]
    simp [hvs]
  | false =>
    have hscalar := (read_of_takesList_eq_false hop).mp hread
    obtain ⟨c, hc⟩ := Operator.exists_compare hop
    rw [hc]
    constructor
    · rintro h
      cases h
      exact ⟨by simp, rfl, fun _ => hscalar, by simp⟩
    · rintro ⟨_, hoperator, hvalue, _⟩
      obtain rfl : v = t.value := Except.ok.inj (hscalar.symm.trans (hvalue rfl))
      have hself := Test.of_operator_value t
      rwa [hoperator] at hself

theorem exists_test (hread : s.draft.operand.read now = .ok v)
    (hbounds : s.operator = .between → 2 ≤ s.elements.length) :
    ∃ t, Test.of s.operator v = .ok t := by
  cases hop : s.operator.takesList with
  | true =>
    obtain ⟨vs, hvs, rfl⟩ := (read_of_takesList hop).mp hread
    exact Test.exists_of_list hop (length_mapM_ok hvs ▸ hbounds)
  | false =>
    obtain ⟨c, hc⟩ := Operator.exists_compare hop
    exact ⟨.compare c v, hc ▸ rfl⟩

/-- An operator on lists is always given a list. -/
theorem of_ne_listRequired (hread : s.draft.operand.read now = .ok v) (other : Operator) :
    Filter.of s.draft.field s.draft.operator v ≠ .error (.listRequired other) := by
  intro h
  unfold Filter.of at h
  split at h
  · cases hop : s.operator.takesList with
    | true =>
      obtain ⟨vs, _, rfl⟩ := (read_of_takesList hop).mp hread
      have hne : Test.of s.operator (.list vs) ≠ .error (.listRequired other) :=
        Test.of_list_ne_listRequired vs other
      cases htest : Test.of s.draft.operator (.list vs) with
      | ok t =>
        rw [htest] at h
        cases h
      | error rejection =>
        rw [htest] at h
        cases h
        exact hne htest
    | false =>
      obtain ⟨c, hc⟩ := Operator.exists_compare hop
      have hoperator : s.draft.operator = .compare c := hc
      rw [hoperator] at h
      cases h
  · cases h

/-- What one clause contributes: its filter if it is kept, and else nothing. -/
theorem resolve_draft_eq_ok_some_iff {f : Filter} :
    s.draft.resolve now = .ok (some f) ↔ s.IsKept ∧ s.Gives now f := by
  rw [Draft.resolve_eq_ok_some_iff]
  constructor
  · rintro ⟨v, hread, hfield, htest⟩
    obtain ⟨hbounds, hoperator, hscalar, hlist⟩ := (test_eq_ok_iff hread).mp htest
    have hblank := f.field_not_blank
    rw [hfield] at hblank
    exact ⟨⟨(isBlank_trim s.field).symm.trans hblank, hbounds⟩,
      ⟨hfield, hoperator, hscalar, hlist⟩⟩
  · rintro ⟨hkept, hgives⟩
    obtain ⟨v, hread⟩ : ∃ v, s.draft.operand.read now = .ok v := by
      cases hop : s.operator.takesList with
      | true =>
        obtain ⟨vs, hvs, _⟩ := hgives.list hop
        exact ⟨.list vs, (read_of_takesList hop).mpr ⟨vs, hvs, rfl⟩⟩
      | false => exact ⟨f.value, (read_of_takesList_eq_false hop).mpr (hgives.scalar hop)⟩
    exact ⟨v, hread, hgives.field, (test_eq_ok_iff hread).mpr
      ⟨hkept.bounds, hgives.operator, hgives.scalar, hgives.list⟩⟩

theorem not_isKept_of_resolve (h : s.draft.resolve now = .ok none) : ¬s.IsKept := by
  intro hkept
  obtain ⟨v, hread, hnone⟩ := Except.map_eq_ok_iff.mp h
  obtain ⟨t, ht⟩ := exists_test hread hkept.bounds
  have hfield : isBlank (trim s.field) = false := (isBlank_trim s.field).trans hkept.field
  have hfilter : Filter.of s.draft.field s.draft.operator v = .ok ⟨trim s.field, t, hfield⟩ :=
    Filter.of_eq_ok_iff.mpr ⟨rfl, ht⟩
  rw [hfilter] at hnone
  cases hnone

end Reading

/-- The filters of some clauses are those of the kept ones, one for each and in order. -/
theorem forall₂_gives_of_resolveAll {now : Instant} {clauses : List Clause} {fs : List Filter}
    (h : Draft.resolveAll now (clauses.map draft) = .ok fs) :
    List.Forall₂ (Gives now) (clauses.filter IsKept) fs := by
  induction clauses generalizing fs with
  | nil =>
    cases h
    exact .nil
  | cons s clauses ih =>
    obtain ⟨f?, rest, hs, hrest, rfl⟩ := Draft.resolveAll_cons_eq_ok_iff.mp h
    cases f? with
    | none =>
      rw [List.filter_cons_of_neg (by simpa using not_isKept_of_resolve hs)]
      exact ih hrest
    | some f =>
      obtain ⟨hkept, hgives⟩ := resolve_draft_eq_ok_some_iff.mp hs
      rw [List.filter_cons_of_pos (by simpa using hkept)]
      exact .cons hgives (ih hrest)

end Clause

namespace Request

/-- The filters of a request are those of its kept clauses, one for each and in order. -/
theorem forall₂_gives_of_readFilters {c : Config} {now : Instant} {p : Params} {fs : List Filter}
    (h : readFilters c now p = .ok fs) :
    List.Forall₂ (Clause.Gives now) ((clauses c p).filter Clause.IsKept) fs := by
  apply Clause.forall₂_gives_of_resolveAll
  rwa [← drafts_eq]

/-- No filter is lost but those of blank fields and of ranges without two bounds, none comes
twice, and each has the field, the operator and the values that its clause states. -/
theorem filters_of_kept_clauses {c : Config} {now : Instant} {p : Params} {fs : List Filter}
    (h : readFilters c now p = .ok fs) :
    (p.get? c.batchKey = none →
        List.Forall₂ (Clause.Gives now)
          (((p.entries.filter fun entry => c.isReserved (before ':' entry.1) = false).map
            Clause.ofEntry).filter Clause.IsKept) fs) ∧
      (∀ batch, p.get? c.batchKey = some batch →
        List.Forall₂ (Clause.Gives now)
          ((((batch.items.flatMap Batch.splitTopLevel).filter fun token => ':' ∈ token).map
            Clause.ofToken).filter Clause.IsKept) fs) ∧
      ∀ d ∈ drafts c p, ∀ v, d.operand.read now = .ok v →
        ∀ op, Filter.of d.field d.operator v ≠ .error (.listRequired op) := by
  have hkept := forall₂_gives_of_readFilters h
  refine ⟨?_, ?_, ?_⟩
  · intro hbatch
    simpa only [clauses, hbatch] using hkept
  · intro batch hbatch
    simpa only [clauses, hbatch] using hkept
  · intro d hd v hread op
    rw [drafts_eq] at hd
    obtain ⟨s, _, rfl⟩ := List.mem_map.mp hd
    exact Clause.of_ne_listRequired hread op

/-- Both notations with reserved, blank and unknown names, and with ranges of every length. -/
theorem filters_of_kept_untidy_clauses :
    let now : Instant := ⟨0, 0, by decide, by decide, by decide⟩
    let p : Params :=
      ⟨[(" age :gte".toList, .single " 18".toList), ("page:gt".toList, .single "2".toList),
        (" :eq".toList, .single "x".toList), ("score:btw".toList, .single "[1,,]".toList),
        ("score:btw:".toList, .single "[1,2]".toList),
        ("r:btw".toList, .many ["[1".toList, "2,3]".toList]), ("t".toList, .many [])]⟩
    let fs : List Filter :=
      [⟨"age".toList, .compare .gte (.text " 18".toList), by decide⟩,
        ⟨"score".toList, .compare .eq (.text "[1,2]".toList), by decide⟩,
        ⟨"r".toList, .between (.text ['1']) (.text ['2']), by decide⟩,
        ⟨"t".toList, .compare .eq (.text []), by decide⟩]
    let batch : RawValue :=
      .many ["a:btw:[1,2],b, :eq:1,c:in".toList, "d:null,e:gt:1:2,s:btw:[x],page:x:3".toList]
    let q : Params := ⟨[("status".toList, .single "active".toList), ("filters".toList, batch)]⟩
    let gs : List Filter :=
      [⟨"a".toList, .between (.text ['1']) (.text ['2']), by decide⟩,
        ⟨"c".toList, .oneOf [], by decide⟩, ⟨"d".toList, .compare .eq .null, by decide⟩,
        ⟨"e".toList, .compare .gt (.text "1:2".toList), by decide⟩,
        ⟨"page".toList, .compare .eq (.text ['3']), by decide⟩]
    (readFilters .default now p = .ok fs ∧ p.get? Config.default.batchKey = none ∧
        List.Forall₂ (Clause.Gives now)
          (((p.entries.filter fun entry =>
            Config.default.isReserved (before ':' entry.1) = false).map
              Clause.ofEntry).filter Clause.IsKept) fs) ∧
      readFilters .default now q = .ok gs ∧ q.get? Config.default.batchKey = some batch ∧
        List.Forall₂ (Clause.Gives now)
          ((((batch.items.flatMap Batch.splitTopLevel).filter fun token => ':' ∈ token).map
            Clause.ofToken).filter Clause.IsKept) gs := by
  intro now p fs batch q gs
  have hp : readFilters .default now p = .ok fs := by decide +kernel
  have hq : readFilters .default now q = .ok gs := by decide +kernel
  have hnone : p.get? Config.default.batchKey = none := by decide +kernel
  have hsome : q.get? Config.default.batchKey = some batch := by decide +kernel
  exact ⟨⟨hp, hnone, (filters_of_kept_clauses hp).1 hnone⟩, hq, hsome,
    (filters_of_kept_clauses hq).2.1 batch hsome⟩

end Request

end Listing
