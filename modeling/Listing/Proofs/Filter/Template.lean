import Listing.Proofs.Filter.Conjunction
import Listing.Proofs.Text.Token

/-!
# Placeholders of templates

The template of a condition has a question mark for each value that the condition lists: two for a
range, and one for a list of values whatever its length. A field is copied into the template, its
own question marks included, so the numbers agree exactly when no field has one. Then the question
marks and the values belong together in order: putting the values in the place of the question
marks, one after the other, writes every filter with its own values.
-/

namespace Listing

open Text

namespace Text

/-- Puts texts in the place of the question marks, in order. -/
def fill : Text → List Text → Text
  | [], _ => []
  | c :: t, us => if c = '?' then us.headD ['?'] ++ fill t us.tail else c :: fill t us

theorem fill_of_not_mem {t : Text} (h : '?' ∉ t) (us : List Text) : fill t us = t := by
  induction t with
  | nil => rfl
  | cons c t ih =>
    obtain ⟨hc, ht⟩ := not_or.mp (mt List.mem_cons.mpr h)
    rw [fill, if_neg (Ne.symm hc), ih ht]

/-- What comes later is filled by the texts that are left over. -/
theorem fill_append_append {t : Text} {us : List Text} (h : t.count '?' = us.length) (u : Text)
    (vs : List Text) : fill (t ++ u) (us ++ vs) = fill t us ++ fill u vs := by
  induction t generalizing us with
  | nil =>
    obtain rfl := List.eq_nil_of_length_eq_zero h.symm
    rfl
  | cons c t ih =>
    by_cases hc : c = '?'
    · subst hc
      cases us with
      | nil => simp at h
      | cons v us =>
        have hcount : t.count '?' = us.length := by simpa using h
        simp [fill, ih hcount]
    · have hcount : t.count '?' = us.length := by rwa [List.count_cons_of_ne hc] at h
      simp [fill, hc, ih hcount]

theorem fill_append_of_not_mem {t : Text} (h : '?' ∉ t) (u : Text) (vs : List Text) :
    fill (t ++ u) vs = t ++ fill u vs := by
  have hcount : t.count '?' = ([] : List Text).length := List.count_eq_zero.mpr h
  have hfill := fill_append_append hcount u vs
  rwa [List.nil_append, fill_of_not_mem h] at hfill

/-- Parts that are joined are filled by their own texts. -/
theorem fill_join {α : Type} {sep : Text} (hsep : '?' ∉ sep) {template : α → Text}
    {texts : α → List Text} {as : List α} (h : ∀ a ∈ as, (template a).count '?' = (texts a).length) :
    fill (join sep (as.map template)) (as.flatMap texts) =
      join sep (as.map fun a => fill (template a) (texts a)) := by
  induction as with
  | nil => rfl
  | cons a as ih =>
    obtain ⟨ha, has⟩ := List.forall_mem_cons.mp h
    cases as with
    | nil => simp [join]
    | cons b as =>
      simp only [List.map_cons, List.flatMap_cons, join] at ih ⊢
      rw [List.append_assoc, fill_append_append ha, fill_append_of_not_mem hsep, ih has,
        List.append_assoc]

end Text

theorem Operator.not_mem_symbol (op : Operator) : '?' ∉ op.symbol := by
  rcases op with (_ | _ | _ | _ | _ | _) | _ | _ | _ <;> decide

namespace Predicate

/-- The predicate with its values written out. -/
def filled (write : Value → Text) (p : Predicate) : Text :=
  match p.test with
  | .between low high =>
    p.accessor ++ " BETWEEN ".toList ++ write low ++ " AND ".toList ++ write high
  | test => p.accessor ++ ' ' :: test.operator.symbol ++ " (".toList ++ write test.value ++ [')']

theorem count_template (p : Predicate) :
    p.template.count '?' = p.values.length + p.accessor.count '?' := by
  rcases p with ⟨accessor, test⟩
  have hone (op : Operator) :
      (accessor ++ ' ' :: op.symbol ++ " (?)".toList).count '?' = 1 + accessor.count '?' := by
    have hsymbol := List.count_eq_zero_of_not_mem op.not_mem_symbol
    have hvalue : " (?)".toList.count '?' = 1 := by decide
    rw [List.count_append, List.count_append, List.count_cons_of_ne (by decide), hsymbol, hvalue,
      Nat.add_zero, Nat.add_comm]
  cases test with
  | compare c v => exact hone (.compare c)
  | oneOf items => exact hone .oneOf
  | noneOf items => exact hone .noneOf
  | between low high =>
    have hbounds : " BETWEEN ? AND ?".toList.count '?' = 2 := by decide
    simp only [template, values, List.count_append, hbounds, List.length_cons, List.length_nil]
    omega

theorem fill_template {p : Predicate} (h : '?' ∉ p.accessor) (write : Value → Text) :
    fill p.template (p.values.map write) = p.filled write := by
  rcases p with ⟨accessor, test⟩
  have hone (op : Operator) (t : Text) : fill (accessor ++ ' ' :: op.symbol ++ " (?)".toList) [t] =
      accessor ++ ' ' :: op.symbol ++ " (".toList ++ t ++ [')'] := by
    have hfront : '?' ∉ accessor ++ ' ' :: op.symbol := by
      simpa using ⟨h, op.not_mem_symbol⟩
    rw [fill_append_of_not_mem hfront]
    simp [fill]
  cases test with
  | compare c v => exact hone (.compare c) (write v)
  | oneOf items => exact hone .oneOf (write (.list items))
  | noneOf items => exact hone .noneOf (write (.list items))
  | between low high =>
    rw [template, fill_append_of_not_mem h]
    simp [values, fill, filled]

end Predicate

namespace Condition

theorem count_template (c : Condition) : c.template.count '?' =
    c.values.length + (c.predicates.flatMap Predicate.accessor).count '?' := by
  rw [template, count_join (by decide), ← List.flatMap_def, values]
  induction c.predicates with
  | nil => rfl
  | cons p ps ih =>
    simp only [List.flatMap_cons, List.count_append, List.length_append, p.count_template, ih]
    omega

theorem fill_template {c : Condition} (h : ∀ p ∈ c.predicates, '?' ∉ p.accessor)
    (write : Value → Text) :
    fill c.template (c.values.map write) =
      join " AND ".toList (c.predicates.map (Predicate.filled write)) := by
  have hcount : ∀ p ∈ c.predicates, p.template.count '?' = (p.values.map write).length := by
    intro p hp
    rw [Predicate.count_template, List.count_eq_zero_of_not_mem (h p hp), List.length_map,
      Nat.add_zero]
  rw [template, values, List.map_flatMap, fill_join (by decide) hcount]
  exact congrArg _ (List.map_congr_left fun p hp => Predicate.fill_template (h p hp) write)

/-- A condition goes on where a condition on fewer predicates ends. -/
theorem isPrefix_of_predicates {c d : Condition} (h : c.predicates <+: d.predicates) :
    c.template <+: d.template ∧ c.values <+: d.values := by
  obtain ⟨ps, hps⟩ := h
  constructor
  · by_cases hrest : ps = []
    · simp [template, ← hps, hrest]
    · have hc : c.predicates.map Predicate.template ≠ [] := by simp [c.ne_nil]
      have hps' : ps.map Predicate.template ≠ [] := by simp [hrest]
      refine ⟨" AND ".toList ++ join " AND ".toList (ps.map Predicate.template), ?_⟩
      rw [template, template, ← hps, List.map_append, join_append _ hc hps', List.append_assoc]
  · refine ⟨ps.flatMap Predicate.values, ?_⟩
    rw [values, values, ← hps, List.flatMap_append]

end Condition

namespace Request

variable {r : Request} {c : Condition}

theorem condition?_eq_none_iff : r.condition? = none ↔ r.filters = [] := by
  rw [condition?, Condition.all?_eq_none_iff, conditions, List.map_eq_nil_iff]

theorem predicates_of_mem_condition? (h : c ∈ r.condition?) :
    c.predicates = r.filters.map Predicate.ofFilter :=
  Condition.predicates_of_mem (Filter.conjunction?_eq r.filters ▸ h)

theorem count_template (h : c ∈ r.condition?) : c.template.count '?' =
    c.values.length + (r.filters.flatMap Filter.field).count '?' := by
  have haccessor (f : Filter) : (Predicate.ofFilter f).accessor.count '?' = f.field.count '?' :=
    FieldPath.count_accessor (by decide) f.field
  rw [Condition.count_template, predicates_of_mem_condition? h, List.flatMap_map]
  simp only [List.count_flatMap, Function.comp_def, haccessor]

theorem count_template_eq_iff (h : c ∈ r.condition?) :
    c.template.count '?' = c.values.length ↔ ∀ f ∈ r.filters, '?' ∉ f.field := by
  rw [count_template h, Nat.add_eq_left, List.count_eq_zero, List.mem_flatMap]
  simp only [not_exists, not_and]

theorem fill_template (hfields : ∀ f ∈ r.filters, '?' ∉ f.field) (h : c ∈ r.condition?)
    (write : Value → Text) : fill c.template (c.values.map write) =
      join " AND ".toList (r.filters.map fun f => (Predicate.ofFilter f).filled write) := by
  have haccessors : ∀ p ∈ c.predicates, '?' ∉ p.accessor := by
    rw [predicates_of_mem_condition? h, List.forall_mem_map]
    exact fun f hf => FieldPath.not_mem_accessor (by decide) (hfields f hf)
  rw [Condition.fill_template haccessors, predicates_of_mem_condition? h, List.map_map]
  rfl

/-- There is a condition exactly when there are filters. For the first filters of a request, as
many as one likes, the template has a question mark for each value and those of the fields, so the
numbers agree exactly when no field has any; and the template and the values of all filters go on
where theirs end. Without question marks in fields the values, put in the place of the question
marks in order, are each filter's own. -/
theorem placeholders_match_values (r : Request) :
    (r.condition? = none ↔ r.filters = []) ∧
      (∀ xs, xs <+: r.filters → ∀ c ∈ ({ r with filters := xs } : Request).condition?,
        c.template.count '?' = c.values.length + (xs.flatMap Filter.field).count '?' ∧
          (c.template.count '?' = c.values.length ↔ ∀ f ∈ xs, '?' ∉ f.field) ∧
          ∀ d ∈ r.condition?, c.template <+: d.template ∧ c.values <+: d.values) ∧
      ((∀ f ∈ r.filters, '?' ∉ f.field) → ∀ c ∈ r.condition?, ∀ write : Value → Text,
        fill c.template (c.values.map write) =
          join " AND ".toList (r.filters.map fun f => (Predicate.ofFilter f).filled write)) := by
  refine ⟨condition?_eq_none_iff, fun xs hxs c hc => ?_, fun hfields c hc write => ?_⟩
  · refine ⟨count_template hc, count_template_eq_iff hc, fun d hd => ?_⟩
    apply Condition.isPrefix_of_predicates
    rw [predicates_of_mem_condition? hc, predicates_of_mem_condition? hd]
    exact hxs.map _
  · exact fill_template hfields hc write

/-- A list, a JSON path and a range; then a key of a JSON path that has question marks itself. -/
theorem placeholders_match_values_before_odd_key :
    let fs : List Filter :=
      [⟨"role".toList, .oneOf [.text "a?".toList, .null], by decide⟩,
        ⟨"meta.tier".toList, .compare .neq (.bool true), by decide⟩,
        ⟨"score".toList, .between (.integer 1) (.integer 9), by decide⟩]
    let odd : Filter := ⟨"meta.a?b?".toList, .compare .eq (.integer 0), by decide⟩
    let r : Request := ⟨fs ++ [odd], none, [], [], [], none, 1, 20⟩
    ∃ c ∈ ({ r with filters := fs } : Request).condition?, ∃ d ∈ r.condition?,
      c.template.count '?' = 4 ∧ c.values.length = 4 ∧ d.template.count '?' = 7 ∧
        d.values.length = 5 ∧ c.template <+: d.template ∧
        fill c.template (c.values.map fun v => v.json.render) =
          "role IN ([\"a?\",null]) AND meta ->> 'tier' != (\"true\")".toList ++
            " AND score BETWEEN 1 AND 9".toList := by
  intro fs odd r
  have hfs : ∀ f ∈ fs, '?' ∉ f.field := by decide
  let c : Condition := ⟨fs.map Predicate.ofFilter, by simp [fs]⟩
  let d : Condition := ⟨r.filters.map Predicate.ofFilter, by simp [r, fs]⟩
  obtain ⟨-, hparts, -⟩ := placeholders_match_values r
  obtain ⟨-, -, hfill⟩ := placeholders_match_values { r with filters := fs }
  obtain ⟨-, hagree, hlonger⟩ := hparts fs ⟨[odd], rfl⟩ c rfl
  obtain ⟨hcount, -, -⟩ := hparts r.filters List.prefix_rfl d rfl
  refine ⟨c, rfl, d, rfl, hagree.mpr hfs, rfl, hcount, rfl, (hlonger d rfl).1, ?_⟩
  rw [hfill hfs c rfl]
  decide

end Request

end Listing
