import Listing.Rejection
import Listing.Value

/-!
# Filters

A filter names a field and tests it. The test carries its value in the shape that its operator
needs, so a filter on a list always has a list and a range always has two bounds; only the field
name, which must not be blank, is constrained by a proof. `Filter.of` builds a filter from an
operator and any value, and building again from a filter's own parts gives the same filter.
-/

namespace Listing

inductive Test where
  | compare (c : Comparison) (v : Value)
  | oneOf (items : List Value)
  | noneOf (items : List Value)
  | between (low high : Value)
  deriving DecidableEq

namespace Test

def operator : Test → Operator
  | compare c _ => .compare c
  | oneOf _ => .oneOf
  | noneOf _ => .noneOf
  | between _ _ => .between

/-- The value under the operator; a range has the list of its two bounds. -/
def value : Test → Value
  | compare _ v => v
  | oneOf items => .list items
  | noneOf items => .list items
  | between low high => .list [low, high]

/-- Bounds beyond the second are dropped. -/
def ofBounds : List Value → Except Rejection Test
  | low :: high :: _ => .ok (between low high)
  | bounds => .error (.tooFewBounds bounds.length)

def of (op : Operator) (v : Value) : Except Rejection Test :=
  match op, v.asList? with
  | .compare c, _ => .ok (compare c v)
  | .oneOf, some items => .ok (oneOf items)
  | .noneOf, some items => .ok (noneOf items)
  | .between, some items => ofBounds items
  | op, none => .error (.listRequired op)

def map (f : Value → Value) : Test → Test
  | compare c v => compare c (f v)
  | oneOf items => oneOf (items.map f)
  | noneOf items => noneOf (items.map f)
  | between low high => between (f low) (f high)

@[simp] theorem of_operator_value (t : Test) : of t.operator t.value = .ok t := by
  cases t <;> rfl

@[simp] theorem operator_map (f : Value → Value) (t : Test) : (t.map f).operator = t.operator := by
  cases t <;> rfl

/-- A range is built from two bounds or more, and takes the first two. -/
theorem ofBounds_eq_ok_iff {bounds : List Value} {t : Test} : ofBounds bounds = .ok t ↔
    2 ≤ bounds.length ∧ t.operator = .between ∧ t.value = .list (bounds.take 2) := by
  match bounds with
  | [] => simp [ofBounds]
  | [_] => simp [ofBounds]
  | low :: high :: rest => cases t <;> simp [ofBounds, operator, value, eq_comm]

/-- An operator on lists refuses a list only as a range with fewer than two bounds; of more
bounds a range takes the first two. -/
theorem of_list_eq_ok_iff {op : Operator} (hop : op.takesList = true) {items : List Value}
    {t : Test} : of op (.list items) = .ok t ↔ (op = .between → 2 ≤ items.length) ∧
      t.operator = op ∧ t.value = .list (if op = .between then items.take 2 else items) := by
  cases op with
  | compare c => cases hop
  | oneOf => cases t <;> simp [of, Value.asList?, operator, value, eq_comm]
  | noneOf => cases t <;> simp [of, Value.asList?, operator, value, eq_comm]
  | between => simpa [of, Value.asList?] using ofBounds_eq_ok_iff

theorem operator_of {op : Operator} {v : Value} {t : Test} (h : of op v = .ok t) :
    t.operator = op := by
  cases op with
  | compare c => simp only [of, Except.ok.injEq] at h; exact h ▸ rfl
  | oneOf => cases v <;> simp [of, Value.asList?] at h; exact h ▸ rfl
  | noneOf => cases v <;> simp [of, Value.asList?] at h; exact h ▸ rfl
  | between =>
    cases v <;> simp only [of, Value.asList?, reduceCtorEq] at h
    exact (ofBounds_eq_ok_iff.mp h).2.1

end Test

structure Filter where
  field : Text
  test : Test
  field_not_blank : Text.isBlank field = false
  deriving DecidableEq

namespace Filter

def operator (f : Filter) : Operator := f.test.operator

def value (f : Filter) : Value := f.test.value

/-- A blank field is refused before the value is looked at. -/
def of (field : Text) (op : Operator) (v : Value) : Except Rejection Filter :=
  if h : Text.isBlank field = false then
    (Test.of op v).map fun test => ⟨field, test, h⟩
  else
    .error .emptyField

def json (f : Filter) : Json :=
  .object [("field".toList, .text f.field), ("operator".toList, .text f.operator.symbol),
    ("value".toList, f.value.json)]

@[simp] theorem of_parts (f : Filter) : of f.field f.operator f.value = .ok f := by
  simp [of, operator, value, f.field_not_blank, Except.map]

end Filter
end Listing
