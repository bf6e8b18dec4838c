import Listing.Proofs.Sql.Outline
import Mathlib.Data.List.Basic

/-!
# Conjunctions of conjunctions

The template of a conjunction is made from the templates of its parts, with " AND " between them,
and its values and predicates are those of its parts, one after the other. How the parts were
grouped before leaves no trace: neither in the template and the values nor in the SQL, whose
parentheses depend on the number of predicates only.
-/

namespace Listing

namespace Condition

theorem all?_eq_none_iff {cs : List Condition} : all? cs = none ↔ cs = [] := by
  rw [all?, ofPredicates?_eq_none_iff, List.flatMap_eq_nil_iff]
  constructor
  · intro h
    cases cs with
    | nil => rfl
    | cons c cs => exact absurd (h c List.mem_cons_self) c.ne_nil
  · rintro rfl
    simp

theorem predicates_of_mem_all? {cs : List Condition} {c : Condition} (h : c ∈ all? cs) :
    c.predicates = cs.flatMap predicates :=
  predicates_of_mem h

theorem flatMap_predicates_all? (cs : List Condition) :
    (all? cs).toList.flatMap predicates = cs.flatMap predicates := by
  cases h : all? cs with
  | none =>
    rw [all?_eq_none_iff.mp h]
    rfl
  | some c => simpa using predicates_of_mem_all? h

/-- Joining the conjunctions of some groups is joining everything in the groups. -/
theorem all?_filterMap_all? (groups : List (List Condition)) :
    all? (groups.filterMap all?) = all? groups.flatten := by
  have hgroups : (groups.filterMap all?).flatMap predicates =
      groups.flatten.flatMap predicates := by
    induction groups with
    | nil => rfl
    | cons group groups ih =>
      rw [List.flatten_cons, List.flatMap_append, ← ih, ← flatMap_predicates_all? group]
      -- An empty group is left out on the left, and has no predicates on the right.
      cases h : all? group <;> simp [h]
  rw [all?, all?, hgroups]

/-- The condition is joined from the parts of these conditions: their templates with " AND "
between neighbours, and their values and predicates one after the other. -/
structure IsJoinedFrom (c : Condition) (cs : List Condition) : Prop where
  template : c.template = Text.join " AND ".toList (cs.map Condition.template)
  values : c.values = cs.flatMap Condition.values
  predicates : c.predicates = cs.flatMap Condition.predicates
  json : c.json = .object
    [("template".toList, .text (Text.join " AND ".toList (cs.map Condition.template))),
      ("values".toList, .array ((cs.flatMap Condition.values).map Value.json))]

theorem isJoinedFrom_of_mem_all? {cs : List Condition} {c : Condition} (h : c ∈ all? cs) :
    c.IsJoinedFrom cs := by
  have hpredicates := predicates_of_mem_all? h
  have htemplate : c.template = Text.join " AND ".toList (cs.map Condition.template) := by
    have hne : ∀ group ∈ cs.map fun c => c.predicates.map Predicate.template, group ≠ [] := by
      simp only [List.forall_mem_map, ne_eq, List.map_eq_nil_iff]
      exact fun c _ => c.ne_nil
    have hjoin := Text.join_flatten " AND ".toList hne
    rw [template, hpredicates, List.map_flatMap, List.flatMap_def, ← hjoin, List.map_map]
    rfl
  have hvalues : c.values = cs.flatMap Condition.values := by
    rw [values, hpredicates, List.flatMap_assoc]
    rfl
  exact ⟨htemplate, hvalues, hpredicates, by rw [json, htemplate, hvalues]⟩

open Sql

/-- A conjunction does not depend on how its conditions are grouped: joined group by group or all
at once, its template and values are joined from those of the groups and from those of the single
conditions alike, and it is written and sent as the same statement. There is none exactly when
there is no condition. So the filters of a request can be divided and their conditions joined. -/
theorem all?_of_groups (groups : List (List Condition)) :
    all? (groups.filterMap all?) = all? groups.flatten ∧
      (all? groups.flatten = none ↔ ∀ group ∈ groups, group = []) ∧
      (∀ c ∈ all? (groups.filterMap all?),
        c.IsJoinedFrom (groups.filterMap all?) ∧ c.IsJoinedFrom groups.flatten) ∧
      (∀ table sort?,
        (∀ d, render d (selectAll table (all? (groups.filterMap all?)) sort?) =
          render d (selectAll table (all? groups.flatten) sort?)) ∧
        parameters (selectAll table (all? (groups.filterMap all?)) sort?) =
          parameters (selectAll table (all? groups.flatten) sort?)) ∧
      ∀ (r : Request) (xs ys : List Filter),
        ({ r with filters := xs ++ ys } : Request).condition? =
          all? ([{ r with filters := xs }, { r with filters := ys }].filterMap
            Request.condition?) := by
  have hgroups := all?_filterMap_all? groups
  refine ⟨hgroups, ?_, ?_, ?_, ?_⟩
  · rw [all?_eq_none_iff, List.flatten_eq_nil_iff]
  · exact fun c hc => ⟨isJoinedFrom_of_mem_all? hc, isJoinedFrom_of_mem_all? (hgroups ▸ hc)⟩
  · exact fun table sort? => ⟨fun d => by rw [hgroups], by rw [hgroups]⟩
  · intro r xs ys
    have hflatten : (xs ++ ys).map ofFilter = [xs.map ofFilter, ys.map ofFilter].flatten := by
      simp
    exact (congrArg all? hflatten).trans (all?_filterMap_all? _).symm

end Condition

end Listing
