import Listing.FieldPath
import Listing.Json

/-!
# Sort orders

A sort order is written `field:direction`. The direction is descending unless it is `asc` in any
case, and without a field there is no order. The database is given either a column, whose name is
quoted there, or the SQL that reads a JSON path.
-/

namespace Listing

inductive Direction where
  | asc
  | desc
  deriving DecidableEq, Repr

namespace Direction

/-- The case of ASCII letters does not count. -/
def read (token? : Option Text) : Direction :=
  if token?.map (fun t => (Text.trim t).map Char.toLower) = some "asc".toList then asc else desc

def key : Direction → Text
  | asc => "asc".toList
  | desc => "desc".toList

def sql : Direction → Text
  | asc => "ASC".toList
  | desc => "DESC".toList

end Direction

structure SortOrder where
  field : Text
  direction : Direction
  deriving DecidableEq, Repr

/-- What the rows are sorted by: the value of an accessor, or a column. -/
inductive SortTerm where
  | accessor (sql : Text) (direction : Direction)
  | column (name : Text) (direction : Direction)
  deriving DecidableEq, Repr

namespace SortOrder

def read? (t : Text) : Option SortOrder :=
  let (field, token?) :=
    match Text.cut? ':' t with
    | some (field, token) => (Text.trim field, some token)
    | none => (Text.trim t, none)
  if field = [] then none else some ⟨field, Direction.read token?⟩

def term (o : SortOrder) : SortTerm :=
  let path := FieldPath.of o.field
  if path.isJson then .accessor path.accessor o.direction else .column o.field o.direction

def json (o : SortOrder) : Json :=
  .object [("field".toList, .text o.field), ("direction".toList, .text o.direction.key)]

theorem term_of_json {o : SortOrder} (h : (FieldPath.of o.field).isJson = true) :
    o.term = .accessor (FieldPath.of o.field).accessor o.direction := by
  simp only [term, h, if_true]

theorem term_of_column {o : SortOrder} (h : (FieldPath.of o.field).isJson = false) :
    o.term = .column (FieldPath.of o.field).columnName o.direction := by
  simp only [term, h, Bool.false_eq_true, if_false]
  rw [FieldPath.of_eq_column h, FieldPath.columnName]

end SortOrder

namespace SortTerm

def direction : SortTerm → Direction
  | accessor _ d => d
  | column _ d => d

def isAccessor : SortTerm → Bool
  | accessor _ _ => true
  | column _ _ => false

/-- The whole SQL of the term, where no name has to be quoted. -/
def sql? : SortTerm → Option Text
  | accessor sql d => some (sql ++ ' ' :: d.sql)
  | column _ _ => none

end SortTerm

end Listing
