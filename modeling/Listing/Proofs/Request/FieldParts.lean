import Listing.Proofs.Request.AllowedFields

/-!
# The parts of a field

A field names a key in a JSON column exactly when it is two texts with a dot between them, neither
of them empty and neither with a dot inside; any other field is the name of a column. All that a
request does with its fields goes by the same parts: what an allow-list looks up, what the SQL of
filters, order, selection and grouping reads, and the name that a selected value is given.
-/

namespace Listing
namespace FieldPath

/-- The two sides of the only dot of a field, neither of them empty. -/
structure IsKeyPath (field name key : Text) : Prop where
  eq_append : field = name ++ '.' :: key
  name_ne_nil : name ≠ []
  key_ne_nil : key ≠ []
  dot_not_mem_name : '.' ∉ name
  dot_not_mem_key : '.' ∉ key

/-- The text with an underscore for each dot. -/
def undotted (t : Text) : Text := t.map fun c => if c = '.' then '_' else c

/-- The SQL that reads a column, or the value under a key in it. -/
def accessorAt (name : Text) : Option Text → Text
  | none => name
  | some key => name ++ " ->> ".toList ++ Text.quoted '\'' key

/-- Whatever a request does with a field, it looks for the column `name`, and for a key in it if
there is one; a selected value is named after the whole field. -/
structure UsedAs (field name : Text) (key? : Option Text) : Prop where
  allowList : ∀ a : AllowList, a.allows field = true ↔ name ∈ a.columns
  filter : ∀ f : Filter, f.field = field → Predicate.ofFilter f =
    ⟨accessorAt name key?, if key?.isSome then f.test.map Value.asPathText else f.test⟩
  sort : ∀ o : SortOrder, o.field = field → o.term =
    if key?.isSome then .accessor (accessorAt name key?) o.direction else .column name o.direction
  select : ∀ s : Selection, s.field = field → s.sql =
    match s.aggregation with
    | some a => a.function ++ '(' :: accessorAt name key? ++ ") AS ".toList ++
        (undotted field ++ '_' :: a.key)
    | none => accessorAt name key? ++ if key?.isSome then " AS ".toList ++ undotted field else []
  groupBy : ∀ g : Grouping, g.field = field → g.sql =
    (Grouping.frame g.period key?.isSome).1 ++ accessorAt name key? ++
      (Grouping.frame g.period key?.isSome).2

/-! ## Parts -/

variable {field name key : Text}

theorem of_eq_json_iff_isKeyPath : of field = json name key ↔ IsKeyPath field name key := by
  rw [of_eq_json_iff, Text.split_eq_pair_iff]
  constructor
  · rintro ⟨⟨hfield, hname, hkey⟩, hname_ne, hkey_ne⟩
    exact ⟨hfield, hname_ne, hkey_ne, hname, hkey⟩
  · intro h
    exact ⟨⟨h.eq_append, h.dot_not_mem_name, h.dot_not_mem_key⟩, h.name_ne_nil, h.key_ne_nil⟩

theorem of_eq_column_iff :
    of field = column name ↔ name = field ∧ ∀ left right, ¬IsKeyPath field left right := by
  constructor
  · intro h
    have hplain : (of field).isJson = false := by rw [h, isJson]
    refine ⟨column.inj (h.symm.trans (of_eq_column hplain)), fun left right hpath => ?_⟩
    rw [of_eq_json_iff_isKeyPath.mpr hpath] at h
    cases h
  · rintro ⟨rfl, hnone⟩
    apply of_eq_column
    cases hpath : of name with
    | column => rfl
    | json left right => exact absurd (of_eq_json_iff_isKeyPath.mp hpath) (hnone left right)

/-! ## The label -/

theorem undotted_of_not_mem {t : Text} (h : '.' ∉ t) : undotted t = t := by
  refine (List.map_congr_left fun c hc => ?_).trans (List.map_id t)
  have hdot : c ≠ '.' := fun heq => h (heq ▸ hc)
  exact if_neg hdot

/-- However a label is put together, it is the field with underscores for dots. -/
theorem label_of (field : Text) : (of field).label = undotted field := by
  cases hpath : of field with
  | column name =>
    obtain ⟨rfl, -⟩ := of_eq_column_iff.mp hpath
    rfl
  | json name key =>
    have h := of_eq_json_iff_isKeyPath.mp hpath
    calc
      name ++ '_' :: key = undotted name ++ '_' :: undotted key := by
        rw [undotted_of_not_mem h.dot_not_mem_name, undotted_of_not_mem h.dot_not_mem_key]
      _ = undotted (name ++ '.' :: key) := by
        rw [undotted, undotted, undotted, List.map_append, List.map_cons, if_pos rfl]
      _ = undotted field := by rw [h.eq_append]

/-! ## Uses -/

theorem accessor_eq (path : FieldPath) : path.accessor = accessorAt path.columnName path.key? := by
  cases path <;> rfl

theorem isSome_key? (path : FieldPath) : path.key?.isSome = path.isJson := by
  cases path <;> rfl

theorem usedAs_of (field : Text) : UsedAs field (of field).columnName (of field).key? := by
  refine ⟨fun a => AllowList.allows_eq_true_iff, ?_, ?_, ?_, ?_⟩
  · rintro f rfl
    rw [isSome_key?, ← accessor_eq]
    rfl
  · rintro o rfl
    rw [isSome_key?, ← accessor_eq]
    cases hjson : (of o.field).isJson with
    | true => exact SortOrder.term_of_json hjson
    | false => exact SortOrder.term_of_column hjson
  · rintro s rfl
    rw [isSome_key?, ← accessor_eq, ← label_of]
    unfold Selection.sql Selection.label? Selection.expression
    cases s.aggregation with
    | none => cases hjson : (of s.field).isJson <;> simp [hjson]
    | some a => simp
  · rintro g rfl
    rw [isSome_key?, ← accessor_eq]
    exact g.sql_eq

/-- A field is a key path exactly when it has one dot and something on both sides of it, and is the
name of a column otherwise. Its label is the field with underscores for dots. An allow-list and the
SQL of filters, order, selection and grouping all go by these parts. -/
theorem path_and_uses_of_field (field : Text) :
    (∀ name key, of field = json name key ↔ IsKeyPath field name key) ∧
      (∀ name, of field = column name ↔
        name = field ∧ ∀ left right, ¬IsKeyPath field left right) ∧
      (of field).label = undotted field ∧
      (∀ name key, IsKeyPath field name key → UsedAs field name (some key)) ∧
      ((∀ left right, ¬IsKeyPath field left right) → UsedAs field field none) := by
  refine ⟨fun name key => of_eq_json_iff_isKeyPath, fun name => of_eq_column_iff, label_of field,
    fun name key h => ?_, fun hnone => ?_⟩
  · have huses := usedAs_of field
    rwa [of_eq_json_iff_isKeyPath.mpr h] at huses
  · have huses := usedAs_of field
    rwa [of_eq_column_iff.mpr ⟨rfl, hnone⟩] at huses

/-- A key with a quote in it, and a field of three parts, which is a column. -/
theorem path_and_uses_of_quote_and_dots :
    let path := "meta.it's".toList
    let plain := "a.b.c".toList
    IsKeyPath path "meta".toList "it's".toList ∧ (∀ left right, ¬IsKeyPath plain left right) ∧
      (SortOrder.mk path .asc).term = .accessor "meta ->> 'it''s'".toList .asc ∧
      (SortOrder.mk plain .asc).term = .column plain .asc ∧
      (Selection.mk path (some .max)).sql = "MAX(meta ->> 'it''s') AS meta_it's_max".toList ∧
      (Selection.mk plain (some .max)).sql = "MAX(a.b.c) AS a_b_c_max".toList ∧
      (AllowList.mk ["meta".toList]).allows path = true ∧
      (AllowList.mk ["a".toList]).allows plain = false := by
  intro path plain
  obtain ⟨hpath, -, -, hkey, -⟩ := path_and_uses_of_field path
  obtain ⟨-, hcolumn, -, -, hnone⟩ := path_and_uses_of_field plain
  have hparts : IsKeyPath path "meta".toList "it's".toList := (hpath _ _).mp rfl
  have hplain : ∀ left right, ¬IsKeyPath plain left right := ((hcolumn plain).mp rfl).2
  have huses := hkey _ _ hparts
  have hwhole := hnone hplain
  refine ⟨hparts, hplain, huses.sort _ rfl, hwhole.sort _ rfl, huses.select _ rfl,
    hwhole.select _ rfl, (huses.allowList _).mpr List.mem_cons_self, ?_⟩
  rw [← Bool.not_eq_true, hwhole.allowList]
  decide

end FieldPath
end Listing
