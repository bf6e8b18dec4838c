import Listing.AllowList
import Listing.Proofs.Sql.Literals
import Mathlib.Data.List.Basic

/-!
# Keys stay inside literals

When an allow-list of plain names lets a request pass, the only quotes in its statement are those
around the keys of its JSON paths and those inside the keys, which are doubled. So the literals of
the statement are these keys, in order, and what stands outside depends on the columns, the kinds
of paths, the shapes of tests and the direction alone.
-/

namespace Listing

/-- ASCII letters, digits and the underscore. -/
def isNameChar (c : Char) : Bool := c.isAlphanum || c = '_'

namespace AllowList

/-- An allow-list of columns whose names need no quoting anywhere. -/
def HasPlainNames (a : AllowList) : Prop := ∀ name ∈ a.columns, name.all isNameChar = true

instance (a : AllowList) : Decidable a.HasPlainNames :=
  inferInstanceAs (Decidable (∀ name ∈ a.columns, name.all isNameChar = true))

theorem quote_not_mem_of_allows {a : AllowList} (ha : a.HasPlainNames) {field : Text}
    (h : a.allows field = true) : '\'' ∉ (FieldPath.of field).columnName := by
  intro hquote
  have hname := ha _ (allows_eq_true_iff.mp h)
  exact absurd (List.all_eq_true.mp hname _ hquote) (by decide)

end AllowList

namespace FieldPath

/-- The SQL that reads a field, without the literal in it. -/
def bareAccessor (column : Text) (json : Bool) : Text :=
  if json then column ++ " ->> ".toList else column

end FieldPath

namespace Sql

open FieldPath

theorem read_accessor_append {path : FieldPath} (h : '\'' ∉ path.columnName) {u : Text}
    (hu : u.head? ≠ some '\'') :
    read .outside (path.accessor ++ u) =
      Reading.append ⟨bareAccessor path.columnName path.isJson, path.key?.toList, true⟩
        (read .outside u) := by
  cases path with
  | column name => exact read_append_of_not_mem h u
  | json name key =>
    have harrow : '\'' ∉ name ++ " ->> ".toList := by
      simp only [List.mem_append, not_or]
      exact ⟨h, by decide⟩
    rw [accessor, List.append_assoc, read_append_of_not_mem harrow, read_quoted_append key hu]
    simp [Reading.append, bareAccessor, columnName, isJson, key?]

theorem read_accessor {path : FieldPath} (h : '\'' ∉ path.columnName) :
    read .outside path.accessor =
      ⟨bareAccessor path.columnName path.isJson, path.key?.toList, true⟩ := by
  simpa [read, Reading.append] using read_accessor_append h (u := []) (by simp)

theorem detached_accessor {path : FieldPath} (h : '\'' ∉ path.columnName) :
    Detached path.accessor := by
  refine ⟨?_, fun u hu => ?_⟩
  · cases path with
    | column name => exact fun hhead => h (List.mem_of_mem_head? hhead)
    | json name key =>
      intro hhead
      cases name with
      | nil => simp [accessor] at hhead
      | cons c name => exact h (by simp_all [accessor, columnName])
  · rw [read_accessor_append h hu, read_accessor h]

theorem literals_accessor {path : FieldPath} (h : '\'' ∉ path.columnName) :
    literals path.accessor = path.key?.toList := by
  rw [literals, read_accessor h]

theorem outsideText_accessor {path : FieldPath} (h : '\'' ∉ path.columnName) :
    outsideText path.accessor = bareAccessor path.columnName path.isJson := by
  rw [outsideText, read_accessor h]

end Sql

namespace Filter

/-- What stands outside of literals in a predicate: its column, whether it reads a key there, and
the shape of its test. -/
def profile (f : Filter) : Text × Bool × Test.Shape :=
  ((FieldPath.of f.field).columnName, (FieldPath.of f.field).isJson, f.test.shape)

/-- The key that a predicate names; it names none when it does not look at the field. -/
def keys (f : Filter) : List Text :=
  if f.test.isConstant then [] else (FieldPath.of f.field).key?.toList

end Filter

namespace SortOrder

/-- What stands outside of literals in a sort term. -/
def profile (o : SortOrder) : Text × Bool × Direction :=
  ((FieldPath.of o.field).columnName, (FieldPath.of o.field).isJson, o.direction)

def keys (o : SortOrder) : List Text := (FieldPath.of o.field).key?.toList

theorem keys_of_column {o : SortOrder} (h : (FieldPath.of o.field).isJson = false) :
    o.keys = [] := by
  rw [keys, FieldPath.of_eq_column h]
  rfl

end SortOrder

/-- The keys that a request names: those of its filters, in order, and that of its sort order. -/
def Request.keys (r : Request) : List Text :=
  r.filters.flatMap Filter.keys ++ r.sort.toList.flatMap SortOrder.keys

open Sql

theorem Predicate.isConstant_ofFilter (f : Filter) :
    (ofFilter f).test.isConstant = f.test.isConstant := by
  unfold ofFilter
  dsimp only
  split
  · rcases f with ⟨field, _ | (_ | _) | (_ | _) | _, hfield⟩ <;> rfl
  · rfl

/-- The outline of any predicate with this profile. -/
def Predicate.ofProfile (profile : Text × Bool × Test.Shape) : Predicate :=
  ⟨FieldPath.bareAccessor profile.1 profile.2.1, profile.2.2.blank⟩

/-- The outline of any sort term with this profile. -/
def SortTerm.ofProfile (profile : Text × Bool × Direction) : SortTerm :=
  if profile.2.1 then .accessor (FieldPath.bareAccessor profile.1 true) profile.2.2
  else .column profile.1 profile.2.2

namespace Sql

theorem outline_ofFilter_eq_ofProfile {f : Filter}
    (h : '\'' ∉ (FieldPath.of f.field).columnName) :
    (Predicate.ofFilter f).outline outsideText = Predicate.ofProfile f.profile := by
  rw [Predicate.outline_ofFilter, outsideText_accessor h]
  rfl

theorem outline_term_eq_ofProfile {o : SortOrder}
    (h : '\'' ∉ (FieldPath.of o.field).columnName) :
    o.term.outline outsideText = SortTerm.ofProfile o.profile := by
  cases hjson : (FieldPath.of o.field).isJson with
  | true =>
    rw [SortOrder.term_of_json hjson, SortTerm.outline, outsideText_accessor h]
    simp only [SortTerm.ofProfile, SortOrder.profile, hjson, if_true]
  | false =>
    rw [SortOrder.term_of_column hjson, SortTerm.outline]
    simp only [SortTerm.ofProfile, SortOrder.profile, hjson, Bool.false_eq_true, if_false]

theorem literals_piece_term {o : SortOrder} (h : '\'' ∉ (FieldPath.of o.field).columnName) :
    o.term.piece.literals = o.keys := by
  cases hjson : (FieldPath.of o.field).isJson with
  | true =>
    rw [SortOrder.term_of_json hjson]
    exact literals_accessor h
  | false =>
    rw [SortOrder.term_of_column hjson, SortOrder.keys_of_column hjson]
    rfl

theorem isDetached_piece_term {o : SortOrder} (h : '\'' ∉ (FieldPath.of o.field).columnName) :
    o.term.piece.IsDetached := by
  cases hjson : (FieldPath.of o.field).isJson with
  | true =>
    rw [SortOrder.term_of_json hjson]
    exact detached_accessor h
  | false =>
    rw [SortOrder.term_of_column hjson]
    exact h

section Allowed

variable {table : Text} (htable : '\'' ∉ table) {r : Request}
  (hr : ∀ field ∈ r.fields, '\'' ∉ (FieldPath.of field).columnName)

include hr

theorem quote_not_mem_of_mem_filters {f : Filter} (hf : f ∈ r.filters) :
    '\'' ∉ (FieldPath.of f.field).columnName :=
  (Request.forall_mem_fields_iff.mp hr).1 f hf

theorem quote_not_mem_of_mem_sort {o : SortOrder} (ho : o ∈ r.sort) :
    '\'' ∉ (FieldPath.of o.field).columnName :=
  (Request.forall_mem_fields_iff.mp hr).2.1 o ho

theorem statementLiterals_selectFiltered :
    statementLiterals (selectFiltered table r.filters r.sort) = r.keys := by
  have hfilters : ∀ f ∈ r.filters, (Predicate.ofFilter f).gathered Piece.literals = f.keys := by
    intro f hf
    have hkey := literals_accessor (quote_not_mem_of_mem_filters hr hf)
    simp only [Predicate.gathered, Predicate.isConstant_ofFilter, literals_parameter, Filter.keys,
      ← hkey, List.flatMap_eq_nil_iff.mpr fun _ _ => rfl, List.append_nil]
    rfl
  have hsort : ((r.sort.map SortOrder.term).toList.flatMap fun o => o.piece.literals) =
      r.sort.toList.flatMap SortOrder.keys := by
    cases ho : r.sort with
    | none => rfl
    | some o => simpa using literals_piece_term (quote_not_mem_of_mem_sort hr ho)
  rw [statementLiterals, selectFiltered, Filter.conjunction?_eq,
    gather_selectAll fun _ ht => literals_of_mem_vocabulary ht, literals_name, List.nil_append,
    List.flatMap_map, hsort, List.flatMap_congr hfilters, Request.keys]

theorem outline_selectFiltered :
    outline outsideText (selectFiltered table r.filters r.sort) =
      selectAll table
        (Condition.ofPredicates? ((r.filters.map Filter.profile).map Predicate.ofProfile))
        ((r.sort.map SortOrder.profile).map SortTerm.ofProfile) := by
  have hfilters : ∀ f ∈ r.filters, (Predicate.outline outsideText ∘ Predicate.ofFilter) f =
      (Predicate.ofProfile ∘ Filter.profile) f := fun f hf =>
    outline_ofFilter_eq_ofProfile (quote_not_mem_of_mem_filters hr hf)
  have hsort : (r.sort.map SortOrder.term).map (SortTerm.outline outsideText) =
      (r.sort.map SortOrder.profile).map SortTerm.ofProfile := by
    cases ho : r.sort with
    | none => rfl
    | some o => exact congrArg some (outline_term_eq_ofProfile (quote_not_mem_of_mem_sort hr ho))
  rw [selectFiltered, outline_selectAll fun t ht => outsideText_of_mem_vocabulary ht,
    Filter.conjunction?_eq, Condition.map_outline_ofPredicates?, List.map_map, hsort,
    List.map_map, List.map_congr_left hfilters]

include htable

theorem isDetached_of_mem_selectFiltered :
    ∀ piece ∈ selectFiltered table r.filters r.sort, piece.IsDetached := by
  apply forall_mem_selectAll
  · exact fun t ht => detached_of_not_mem (vocabulary_not_mem ht)
  · exact fun q => trivial
  · exact htable
  · intro c hc p hp
    rw [Filter.conjunction?_eq] at hc
    rw [Condition.predicates_of_mem hc] at hp
    obtain ⟨f, hf, rfl⟩ := List.mem_map.mp hp
    exact detached_accessor (quote_not_mem_of_mem_filters hr hf)
  · intro t ht
    obtain ⟨o, ho, rfl⟩ := Option.map_eq_some_iff.mp ht
    exact isDetached_piece_term (quote_not_mem_of_mem_sort hr ho)

end Allowed

/-- The statement of a request that an allow-list of plain names lets pass ends outside of
literals, its literals are the keys of the request, and what stands outside of them is the same
for every such request with the same profiles of filters and order. The table is not part of the
request; its name has no quotes. -/
theorem read_statement_of_check {a : AllowList} (ha : a.HasPlainNames) {r : Request}
    (hr : a.check r = .ok ()) {table : Text} (htable : '\'' ∉ table) (d : Dialect) :
    (read .outside (render d (selectAll table r.condition? r.sortTerm?))).closed = true ∧
      literals (render d (selectAll table r.condition? r.sortTerm?)) = r.keys ∧
      ∀ (b : AllowList) (q : Request), b.HasPlainNames → b.check q = .ok () →
        q.filters.map Filter.profile = r.filters.map Filter.profile →
        q.sort.map SortOrder.profile = r.sort.map SortOrder.profile →
        outsideText (render d (selectAll table q.condition? q.sortTerm?)) =
          outsideText (render d (selectAll table r.condition? r.sortTerm?)) := by
  -- One reading for all requests that pass.
  have hread : ∀ (b : AllowList) (q : Request), b.HasPlainNames → b.check q = .ok () →
      read .outside (render d (selectFiltered table q.filters q.sort)) =
        ⟨render d (selectAll table
          (Condition.ofPredicates? ((q.filters.map Filter.profile).map Predicate.ofProfile))
          ((q.sort.map SortOrder.profile).map SortTerm.ofProfile)), q.keys, true⟩ := by
    intro b q hb hq
    have hquote : ∀ field ∈ q.fields, '\'' ∉ (FieldPath.of field).columnName :=
      fun field hfield =>
        AllowList.quote_not_mem_of_allows hb (AllowList.check_eq_ok_iff.mp hq field hfield)
    have h := (read_renderFrom (isDetached_of_mem_selectFiltered htable hquote) d 1).2
    rwa [outline_selectFiltered hquote, statementLiterals_selectFiltered hquote] at h
  have hself := hread a r ha hr
  refine ⟨congrArg Reading.closed hself, congrArg Reading.literals hself, ?_⟩
  intro b q hb hq hfilters hsort
  have hother := hread b q hb hq
  rw [hfilters, hsort] at hother
  exact (congrArg Reading.outside hother).trans (congrArg Reading.outside hself).symm

/-- Keys that try to leave their literals stay in them. -/
theorem read_statement_of_hostile_keys :
    let a : AllowList := ⟨["meta".toList, "age".toList]⟩
    let r : Request :=
      { filters := [⟨"meta.it's".toList, .compare .eq (.text "x".toList), by decide⟩,
          ⟨"meta.') OR 1 = 1 --".toList, .noneOf [.null, .bool true], by decide⟩,
          ⟨"meta.''".toList, .oneOf [], by decide⟩,
          ⟨"age".toList, .between (.integer 1) (.integer 9), by decide⟩]
        sort := some ⟨"meta.'?'".toList, .asc⟩
        includes := []
        select := []
        groupBy := []
        keywords := none
        page := 1
        perPage := 20 }
    a.HasPlainNames ∧ a.check r = .ok () ∧
      (read .outside (render .mysql (selectAll "t".toList r.condition? r.sortTerm?))).closed =
        true ∧
      literals (render .mysql (selectAll "t".toList r.condition? r.sortTerm?)) =
        ["it's".toList, "') OR 1 = 1 --".toList, "'?'".toList] := by
  intro a r
  have h := read_statement_of_check (a := a) (by decide) (r := r) rfl
    (by decide : '\'' ∉ "t".toList) .mysql
  exact ⟨by decide, rfl, h.1, h.2.1.trans rfl⟩

end Sql

end Listing
