import Listing.Text.Blank

/-!
# Operators

The nine ways in which a filter compares a field with its value: six comparisons with one value,
two with a list of values, and one with a pair of bounds. An operator has a key in the query
language and a symbol in condition templates. A key that names none is read as equality.
-/

namespace Listing

inductive Comparison where
  | eq
  | neq
  | gt
  | gte
  | lt
  | lte
  deriving DecidableEq, Repr

inductive Operator where
  | compare (c : Comparison)
  | oneOf
  | noneOf
  | between
  deriving DecidableEq, Repr

namespace Operator

def all : List Operator :=
  [compare .gt, compare .gte, compare .lt, compare .lte, compare .eq, compare .neq,
    oneOf, noneOf, between]

def key : Operator → Text
  | compare .eq => "eq".toList
  | compare .neq => "neq".toList
  | compare .gt => "gt".toList
  | compare .gte => "gte".toList
  | compare .lt => "lt".toList
  | compare .lte => "lte".toList
  | oneOf => "in".toList
  | noneOf => "nin".toList
  | between => "btw".toList

def symbol : Operator → Text
  | compare .eq => "=".toList
  | compare .neq => "!=".toList
  | compare .gt => ">".toList
  | compare .gte => ">=".toList
  | compare .lt => "<".toList
  | compare .lte => "<=".toList
  | oneOf => "IN".toList
  | noneOf => "NOT IN".toList
  | between => "BETWEEN".toList

/-- Whether the operator compares with a list of values. -/
def takesList : Operator → Bool
  | compare _ => false
  | oneOf | noneOf | between => true

def ofKey? (key : Text) : Option Operator := all.find? fun op => op.key = key

/-- Equality stands in for a key that is missing or unknown. -/
def ofKeyOrEq (key? : Option Text) : Operator := (key?.bind ofKey?).getD (compare .eq)

theorem mem_all (op : Operator) : op ∈ all := by
  rcases op with (_ | _ | _ | _ | _ | _) | _ | _ | _ <;> decide

@[simp] theorem ofKey?_key (op : Operator) : ofKey? op.key = some op := by
  rcases op with (_ | _ | _ | _ | _ | _) | _ | _ | _ <;> decide

end Operator
end Listing
