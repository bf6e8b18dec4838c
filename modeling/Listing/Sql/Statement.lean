import Listing.Condition
import Listing.Order

/-!
# Statements

A statement is a list of pieces: SQL that is written as it stands, names that a dialect quotes in
its own way, and parameters, whose values are sent apart from the text. The text of a statement
holds a placeholder for each parameter, numbered or not by the dialect; its parameters in order
are the values to send. No value takes part in the text.
-/

namespace Listing
namespace Sql

/-- A value as the database receives it. -/
inductive Parameter where
  | null
  | bool (b : Bool)
  | integer (i : Int)
  | text (t : Text)
  | instant (i : Instant)
  deriving DecidableEq

inductive Piece where
  | verbatim (t : Text)
  | name (t : Text)
  | parameter (p : Parameter)
  deriving DecidableEq

abbrev Statement := List Piece

inductive Dialect where
  | postgres
  | mysql
  | sqlite
  deriving DecidableEq, Repr

namespace Dialect

def nameMark : Dialect → Char
  | mysql => '\x60'
  | postgres | sqlite => '"'

/-- The placeholder of the parameter with this number. -/
def placeholder : Dialect → Nat → Text
  | postgres, number => '$' :: Text.decimal number
  | mysql, _ | sqlite, _ => ['?']

end Dialect

/-- The text of a statement whose parameters are numbered from `number` on. -/
def renderFrom (d : Dialect) (number : Nat) : Statement → Text
  | [] => []
  | .verbatim t :: s => t ++ renderFrom d number s
  | .name t :: s => Text.quoted d.nameMark t ++ renderFrom d number s
  | .parameter _ :: s => d.placeholder number ++ renderFrom d (number + 1) s

def render (d : Dialect) (s : Statement) : Text := renderFrom d 1 s

def parameters (s : Statement) : List Parameter :=
  s.filterMap fun piece =>
    match piece with
    | .parameter p => some p
    | _ => none

end Sql

/-- A list is sent as its JSON text. -/
def Value.parameter : Value → Sql.Parameter
  | null => .null
  | bool b => .bool b
  | integer i => .integer i
  | text t => .text t
  | instant i => .instant i
  | list items => .text (Value.list items).json.render

end Listing
