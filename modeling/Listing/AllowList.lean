import Listing.Rejection
import Listing.Request

/-!
# Allow-lists

The columns of a resource that requests may name. A JSON path is allowed when its column is. A
request can be checked, which refuses it at the first field that is not allowed, or cut down to
the entries whose fields are allowed.
-/

namespace Listing

structure AllowList where
  columns : List Text
  deriving DecidableEq, Repr

namespace AllowList

def allows (a : AllowList) (field : Text) : Bool :=
  a.columns.contains (FieldPath.of field).columnName

def check (a : AllowList) (r : Request) : Except Rejection Unit :=
  match r.fields.find? fun field => !a.allows field with
  | some field => .error (.unknownField field)
  | none => .ok ()

def retain (a : AllowList) (r : Request) : Request :=
  { r with
    filters := r.filters.filter fun f => a.allows f.field
    sort := r.sort.filter fun o => a.allows o.field
    select := r.select.filter fun s => a.allows s.field
    groupBy := r.groupBy.filter fun g => a.allows g.field }

theorem allows_eq_true_iff {a : AllowList} {field : Text} :
    a.allows field = true ↔ (FieldPath.of field).columnName ∈ a.columns := by
  simp [allows]

theorem check_eq_ok_iff {a : AllowList} {r : Request} :
    a.check r = .ok () ↔ ∀ field ∈ r.fields, a.allows field = true := by
  unfold check
  cases h : r.fields.find? fun field => !a.allows field with
  | none => simpa using h
  | some field =>
    have hmem := List.mem_of_find?_eq_some h
    have hfield := List.find?_some h
    simp only [reduceCtorEq, false_iff]
    exact fun hall => by simp [hall field hmem] at hfield

/-- A request is refused at the first of its fields that is not allowed. -/
theorem check_eq_error_iff {a : AllowList} {r : Request} {e : Rejection} :
    a.check r = .error e ↔ ∃ earlier field later, r.fields = earlier ++ field :: later ∧
      (∀ other ∈ earlier, a.allows other = true) ∧ a.allows field = false ∧
        e = .unknownField field := by
  unfold check
  constructor
  · intro h
    cases hfind : r.fields.find? fun field => !a.allows field with
    | none => simp [hfind] at h
    | some field =>
      obtain ⟨hfield, earlier, later, hfields, hearlier⟩ := List.find?_eq_some_iff_append.mp hfind
      simp only [hfind, Except.error.injEq] at h
      exact ⟨earlier, field, later, hfields, by simpa using hearlier, by simpa using hfield, h.symm⟩
  · rintro ⟨earlier, field, later, hfields, hearlier, hfield, rfl⟩
    have hfind : r.fields.find? (fun field => !a.allows field) = some field :=
      List.find?_eq_some_iff_append.mpr
        ⟨by simpa using hfield, earlier, later, hfields, by simpa using hearlier⟩
    simp only [hfind]

end AllowList
end Listing
