import Listing.FieldPath
import Listing.Filter

/-!
# Conditions

A predicate is the test of a filter over the SQL that reads its field; a condition is the
conjunction of one or more predicates. A condition describes itself by a template, in which
question marks stand for the listed values. Joining conditions joins their predicates, so the
grouping of a conjunction leaves no trace.
-/

namespace Listing

structure Predicate where
  accessor : Text
  test : Test
  deriving DecidableEq

namespace Predicate

/-- What is read through a JSON path is text, so the values become texts as well. -/
def ofFilter (f : Filter) : Predicate :=
  let path := FieldPath.of f.field
  ⟨path.accessor, if path.isJson then f.test.map Value.asPathText else f.test⟩

def template (p : Predicate) : Text :=
  match p.test with
  | .between _ _ => p.accessor ++ " BETWEEN ? AND ?".toList
  | test => p.accessor ++ ' ' :: test.operator.symbol ++ " (?)".toList

/-- One value for each question mark of the template; a list of values counts as one. -/
def values (p : Predicate) : List Value :=
  match p.test with
  | .between low high => [low, high]
  | test => [test.value]

end Predicate

structure Condition where
  predicates : List Predicate
  ne_nil : predicates ≠ []
  deriving DecidableEq

namespace Condition

def ofPredicates? (ps : List Predicate) : Option Condition :=
  if h : ps ≠ [] then some ⟨ps, h⟩ else none

def ofFilter (f : Filter) : Condition := ⟨[Predicate.ofFilter f], List.cons_ne_nil _ _⟩

/-- The conjunction; there is none of nothing. -/
def all? (cs : List Condition) : Option Condition := ofPredicates? (cs.flatMap predicates)

def template (c : Condition) : Text :=
  Text.join " AND ".toList (c.predicates.map Predicate.template)

def values (c : Condition) : List Value := c.predicates.flatMap Predicate.values

def json (c : Condition) : Json :=
  .object [("template".toList, .text c.template),
    ("values".toList, .array (c.values.map Value.json))]

@[simp] theorem predicates_ofFilter (f : Filter) :
    (ofFilter f).predicates = [Predicate.ofFilter f] := rfl

theorem ofPredicates?_eq_none_iff {ps : List Predicate} : ofPredicates? ps = none ↔ ps = [] := by
  simp [ofPredicates?]

end Condition
end Listing
