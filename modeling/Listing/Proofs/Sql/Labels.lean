import Listing.Proofs.Sql.AllowedKeys
import Listing.Request.Reading

/-!
# Labels of selected values

What an allow-list of plain names says about the select list. The SQL of a selected value is an
allowed column, possibly with one closed literal that is the key of its JSON path. The label after
it repeats that key as it stands, so the label is a plain name exactly when the key is one.
-/

namespace Listing

/-- A text that is a plain name as far as its characters go. -/
def IsName (t : Text) : Prop := t.all isNameChar = true

instance (t : Text) : Decidable (IsName t) := inferInstanceAs (Decidable (t.all isNameChar = true))

theorem isName_append_iff {t u : Text} : IsName (t ++ u) ↔ IsName t ∧ IsName u := by
  simp [IsName]

theorem isName_cons_iff {c : Char} {t : Text} :
    IsName (c :: t) ↔ isNameChar c = true ∧ IsName t := by
  simp [IsName]

theorem AllowList.isName_of_allows {a : AllowList} (ha : a.HasPlainNames) {field : Text}
    (h : a.allows field = true) : IsName (FieldPath.of field).columnName :=
  ha _ (allows_eq_true_iff.mp h)

theorem AllowList.allows_of_mem_select {a : AllowList} {r : Request} (hr : a.check r = .ok ())
    {s : Selection} (hs : s ∈ r.select) : a.allows s.field = true :=
  (Request.forall_mem_fields_iff.mp (check_eq_ok_iff.mp hr)).2.2.1 s hs

theorem Aggregation.isName_key (a : Aggregation) : IsName a.key := by
  cases a <;> decide

namespace FieldPath

/-- The label of a path is as plain as its key. -/
theorem isName_label_iff {path : FieldPath} (h : IsName path.columnName) :
    IsName path.label ↔ ∀ key ∈ path.key?, IsName key := by
  cases path with
  | column name =>
    have hlabel : IsName (column name).label := by
      refine List.all_eq_true.mpr fun c hc => ?_
      obtain ⟨d, hd, rfl⟩ := List.mem_map.mp hc
      split
      · decide
      · exact List.all_eq_true.mp h d hd
    simpa [key?] using hlabel
  | json name key =>
    have hname : IsName name := h
    have hunderscore : isNameChar '_' = true := by decide
    simp [label, key?, isName_append_iff, isName_cons_iff, hname, hunderscore]

end FieldPath

namespace Selection

/-- The SQL of the selected value, without the literal in it. -/
def bareExpression (s : Selection) : Text :=
  let path := FieldPath.of s.field
  let accessor := FieldPath.bareAccessor path.columnName path.isJson
  match s.aggregation with
  | some a => a.function ++ '(' :: accessor ++ [')']
  | none => accessor

open Sql

/-- The only literal in the SQL of a selected value is the key of its path, and it is closed. -/
theorem read_expression {s : Selection} (h : '\'' ∉ (FieldPath.of s.field).columnName) :
    read .outside s.expression =
      ⟨s.bareExpression, (FieldPath.of s.field).key?.toList, true⟩ := by
  unfold expression bareExpression
  cases s.aggregation with
  | none => exact read_accessor h
  | some a =>
    have hfunction : '\'' ∉ a.function ++ ['('] := by
      cases a <;> decide
    have hclose : read .outside [')'] = ⟨[')'], [], true⟩ := rfl
    have hread := read_append_of_not_mem hfunction ((FieldPath.of s.field).accessor ++ [')'])
    rw [read_accessor_append h (by decide), hclose] at hread
    simpa [Reading.append] using hread

/-- The label is as plain as the key of the path; a function adds nothing to it. -/
theorem isName_iff_of_label? {s : Selection} {label : Text} (hlabel : s.label? = some label)
    (h : IsName (FieldPath.of s.field).columnName) :
    IsName label ↔ ∀ key ∈ (FieldPath.of s.field).key?, IsName key := by
  rw [← FieldPath.isName_label_iff h]
  unfold label? at hlabel
  cases ha : s.aggregation with
  | none =>
    simp only [ha, Option.ite_none_right_eq_some, Option.some.injEq] at hlabel
    rw [← hlabel.2]
  | some a =>
    have hunderscore : isNameChar '_' = true := by decide
    simp only [ha, Option.some.injEq] at hlabel
    rw [← hlabel, isName_append_iff, isName_cons_iff]
    simp [hunderscore, a.isName_key]

theorem sql_of_label? {s : Selection} {label : Text} (h : s.label? = some label) :
    s.sql = s.expression ++ " AS ".toList ++ label := by
  simp only [sql, h]

end Selection

namespace Sql

/-- What an allow-list of plain names lets pass is selected through an allowed column and closed
literals; a label is a plain name exactly when the key that it repeats is one. -/
theorem select_of_check {a : AllowList} (ha : a.HasPlainNames) {r : Request}
    (hr : a.check r = .ok ()) :
    ∀ s ∈ r.select, (FieldPath.of s.field).columnName ∈ a.columns ∧
      read .outside s.expression =
        ⟨s.bareExpression, (FieldPath.of s.field).key?.toList, true⟩ ∧
      ∀ label, s.label? = some label → s.sql = s.expression ++ " AS ".toList ++ label ∧
        (IsName label ↔ ∀ key ∈ (FieldPath.of s.field).key?, IsName key) := by
  intro s hs
  have hallowed := AllowList.allows_of_mem_select hr hs
  refine ⟨by simpa [AllowList.allows] using hallowed,
    Selection.read_expression (AllowList.quote_not_mem_of_allows ha hallowed),
    fun label hlabel => ⟨Selection.sql_of_label? hlabel, ?_⟩⟩
  exact Selection.isName_iff_of_label? hlabel (AllowList.isName_of_allows ha hallowed)

/-- A column, a key that is a name, and a key that tries to leave its literal. -/
theorem select_of_mixed_keys :
    let a : AllowList := ⟨["meta".toList, "age".toList]⟩
    let s : Selection := ⟨"meta.it's".toList, some .max⟩
    let r : Request :=
      { filters := []
        sort := none
        includes := []
        select := [⟨"age".toList, some .count⟩, ⟨"meta.tier_2".toList, none⟩, s]
        groupBy := []
        keywords := none
        page := 1
        perPage := 20 }
    a.HasPlainNames ∧ a.check r = .ok () ∧
      read .outside s.expression = ⟨"MAX(meta ->> )".toList, ["it's".toList], true⟩ ∧
      s.sql = "MAX(meta ->> 'it''s') AS meta_it's_max".toList := by
  intro a s r
  have h := select_of_check (a := a) (by decide) (r := r) rfl s (by decide)
  exact ⟨by decide, rfl, h.2.1, (h.2.2 "meta_it's_max".toList rfl).1.trans rfl⟩

/-- A key that is no name reaches the select list outside of a literal, through its label. -/
theorem label_leaves_literal :
    let a : AllowList := ⟨["meta".toList]⟩
    let s : Selection := ⟨"meta.id FROM users--".toList, none⟩
    let r : Request :=
      { filters := []
        sort := none
        includes := []
        select := [s]
        groupBy := []
        keywords := none
        page := 1
        perPage := 20 }
    let now : Instant := ⟨0, 0, by decide, by decide, by decide⟩
    a.HasPlainNames ∧
      Request.read .default now (Params.ofQuery "select=meta.id%20FROM%20users--".toList) = .ok r ∧
      a.check r = .ok () ∧ s.sql = "meta ->> 'id FROM users--' AS meta_id FROM users--".toList ∧
      ¬∀ label, s.label? = some label → IsName label := by
  intro a s r now
  refine ⟨by decide, by decide +kernel, rfl, rfl, fun h => ?_⟩
  exact absurd (h "meta_id FROM users--".toList rfl) (by decide)

end Sql

end Listing
