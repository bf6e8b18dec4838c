import Listing.AllowList
import Listing.Proofs.Sql.Outline
import Mathlib.Data.List.Basic
import Mathlib.Data.Option.Basic

/-!
# Checking and cutting down

An allow-list can refuse a request or cut it down. Both look at the same fields: a request passes
the check exactly when cutting it down changes nothing, and what is left of a request passes. The
SQL of such a request reads allowed columns only, as they are or through a key in one.
-/

namespace Listing

namespace AllowList

variable {a : AllowList} {r : Request}

/-! ## What is left of a request -/

/-- The fields that are left are the allowed ones, in their order. -/
theorem fields_retain (a : AllowList) (r : Request) :
    (a.retain r).fields = r.fields.filter a.allows := by
  have hsort : ((r.sort.filter fun o => a.allows o.field).toList.map SortOrder.field) =
      (r.sort.toList.map SortOrder.field).filter a.allows := by
    cases r.sort with
    | none => rfl
    | some o => cases h : a.allows o.field <;> simp [h]
  simp only [Request.fields, retain, hsort, List.filter_append, List.filter_map, Function.comp_def]

theorem retain_eq_self_iff : a.retain r = r ↔ ∀ field ∈ r.fields, a.allows field = true := by
  constructor
  · intro h
    rw [← List.filter_eq_self, ← fields_retain, h]
  · intro h
    obtain ⟨hfilters, hsort, hselect, hgroupBy⟩ := Request.forall_mem_fields_iff.mp h
    have hkept : r.sort.filter (fun o => a.allows o.field) = r.sort := by
      cases ho : r.sort with
      | none => rfl
      | some o => exact Option.filter_some_pos (hsort o ho)
    rw [retain, List.filter_eq_self.mpr hfilters, hkept, List.filter_eq_self.mpr hselect,
      List.filter_eq_self.mpr hgroupBy]

theorem allows_of_mem_fields_retain {field : Text} (h : field ∈ (a.retain r).fields) :
    a.allows field = true := by
  rw [fields_retain] at h
  exact (List.mem_filter.mp h).2

theorem check_retain (a : AllowList) (r : Request) : a.check (a.retain r) = .ok () :=
  check_eq_ok_iff.mpr fun _ => allows_of_mem_fields_retain

theorem retain_retain (a : AllowList) (r : Request) : a.retain (a.retain r) = a.retain r :=
  retain_eq_self_iff.mpr fun _ => allows_of_mem_fields_retain

/-! ## What the SQL reads -/

/-- The SQL that reads an allowed column, as it is or through a key in it. -/
inductive Reads (a : AllowList) : Text → Prop where
  | column {name : Text} (hname : name ∈ a.columns) : a.Reads name
  | key {name : Text} (hname : name ∈ a.columns) (key : Text) :
      a.Reads (name ++ " ->> ".toList ++ Text.quoted '\'' key)

theorem reads_accessor {field : Text} (h : a.allows field = true) :
    a.Reads (FieldPath.of field).accessor := by
  have hname := allows_eq_true_iff.mp h
  cases hpath : FieldPath.of field with
  | column name =>
    rw [hpath] at hname
    exact .column hname
  | json name key =>
    rw [hpath] at hname
    exact .key hname key

theorem reads_term {o : SortOrder} (h : a.allows o.field = true) :
    (∀ sql d, o.term = .accessor sql d → a.Reads sql) ∧
      ∀ name d, o.term = .column name d → name ∈ a.columns := by
  cases hjson : (FieldPath.of o.field).isJson with
  | true =>
    rw [SortOrder.term_of_json hjson]
    refine ⟨fun sql d hsql => ?_, nofun⟩
    obtain ⟨rfl, -⟩ := SortTerm.accessor.inj hsql
    exact reads_accessor h
  | false =>
    rw [SortOrder.term_of_column hjson]
    refine ⟨nofun, fun name d hname => ?_⟩
    obtain ⟨rfl, -⟩ := SortTerm.column.inj hname
    exact allows_eq_true_iff.mp h

end AllowList

/-- What the template of a predicate says after its accessor. -/
def Operator.templateTail : Operator → Text
  | between => " BETWEEN ? AND ?".toList
  | op => ' ' :: op.symbol ++ " (?)".toList

/-- What the SQL of a grouping says before and after the accessor. -/
def Grouping.frame (period? : Option Period) (json : Bool) : Text × Text :=
  match period?, json with
  | none, _ => ([], [])
  | some p, false => ("date_trunc('".toList ++ p.key ++ "', ".toList, ")".toList)
  | some p, true => ("date_trunc('".toList ++ p.key ++ "', (".toList, ")::timestamptz)".toList)

theorem Predicate.template_eq (p : Predicate) :
    p.template = p.accessor ++ p.test.operator.templateTail := by
  rcases p with ⟨accessor, test⟩
  cases test with
  | compare c v => exact List.append_assoc ..
  | oneOf items => exact List.append_assoc ..
  | noneOf items => exact List.append_assoc ..
  | between low high => rfl

theorem Grouping.sql_eq (g : Grouping) :
    g.sql = (frame g.period (FieldPath.of g.field).isJson).1 ++ (FieldPath.of g.field).accessor ++
      (frame g.period (FieldPath.of g.field).isJson).2 := by
  unfold sql frame
  cases g.period with
  | none => simp
  | some p => cases h : (FieldPath.of g.field).isJson <;> simp [h]

namespace AllowList

/-- The template, the sort term and the groupings of a request read allowed columns only; all
else in them is fixed text. -/
structure Confines (a : AllowList) (r : Request) : Prop where
  template : ∀ c ∈ r.condition?, c.template = Text.join " AND ".toList
    (c.predicates.map fun p => p.accessor ++ p.test.operator.templateTail)
  predicates : ∀ c ∈ r.condition?, ∀ p ∈ c.predicates, a.Reads p.accessor
  sortAccessor : ∀ sql d, r.sortTerm? = some (.accessor sql d) → a.Reads sql
  sortColumn : ∀ name d, r.sortTerm? = some (.column name d) → name ∈ a.columns
  groupBy : ∀ g ∈ r.groupBy, ∃ accessor, a.Reads accessor ∧
    g.sql = (Grouping.frame g.period (FieldPath.of g.field).isJson).1 ++ accessor ++
      (Grouping.frame g.period (FieldPath.of g.field).isJson).2

variable {a : AllowList} {r : Request}

theorem confines_of_allows (h : ∀ field ∈ r.fields, a.allows field = true) : a.Confines r := by
  obtain ⟨hfilters, hsort, -, hgroupBy⟩ := Request.forall_mem_fields_iff.mp h
  refine ⟨?_, ?_, ?_, ?_, ?_⟩
  · intro c _
    rw [Condition.template, List.map_congr_left fun p _ => p.template_eq]
  · intro c hc p hp
    have hcondition : c ∈ Condition.ofPredicates? (r.filters.map Predicate.ofFilter) := by
      rwa [← Filter.conjunction?_eq]
    rw [Condition.predicates_of_mem hcondition] at hp
    obtain ⟨f, hf, rfl⟩ := List.mem_map.mp hp
    exact reads_accessor (hfilters f hf)
  · intro sql d hterm
    obtain ⟨o, ho, hsql⟩ := Option.map_eq_some_iff.mp hterm
    exact (reads_term (hsort o ho)).1 sql d hsql
  · intro name d hterm
    obtain ⟨o, ho, hname⟩ := Option.map_eq_some_iff.mp hterm
    exact (reads_term (hsort o ho)).2 name d hname
  · exact fun g hg => ⟨_, reads_accessor (hgroupBy g hg), g.sql_eq⟩

/-- A request passes the check exactly when nothing of it is cut off; what is left of a request
passes, is cut down no further, and reads allowed columns only. What is left is, in order, all that
names an allowed field, and the first field that is not allowed is the one that is reported. -/
theorem check_iff_retain_eq (a : AllowList) (r : Request) :
    (a.check r = .ok () ↔ a.retain r = r) ∧
      a.check (a.retain r) = .ok () ∧ a.retain (a.retain r) = a.retain r ∧
      a.retain r =
        { r with
          filters := r.filters.filter fun f => a.allows f.field
          sort := r.sort.filter fun o => a.allows o.field
          select := r.select.filter fun s => a.allows s.field
          groupBy := r.groupBy.filter fun g => a.allows g.field } ∧
      (∀ e, a.check r = .error e ↔ ∃ earlier field later,
        r.filters.map Filter.field ++ r.sort.toList.map SortOrder.field ++
            r.select.map Selection.field ++ r.groupBy.map Grouping.field =
          earlier ++ field :: later ∧
        (∀ other ∈ earlier, a.allows other = true) ∧ a.allows field = false ∧
          e = .unknownField field) ∧
      a.Confines (a.retain r) :=
  ⟨check_eq_ok_iff.trans retain_eq_self_iff.symm, check_retain a r, retain_retain a r, rfl,
    fun _ => check_eq_error_iff, confines_of_allows fun _ => allows_of_mem_fields_retain⟩

end AllowList

end Listing
