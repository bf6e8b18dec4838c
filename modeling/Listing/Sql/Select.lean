import Listing.Sql.Statement

/-!
# Selecting rows

The statement that selects the rows of a table under a condition and in an order. Membership of
a list has a parameter for each element; no row is in an empty list, and every row is outside it.
In a conjunction of several predicates, ranges and the constants for empty lists stand in
parentheses.
-/

namespace Listing
namespace Sql

def comparisonSign : Comparison → Text
  | .eq => "=".toList
  | .neq => "<>".toList
  | .gt => ">".toList
  | .gte => ">=".toList
  | .lt => "<".toList
  | .lte => "<=".toList

def verbatim (s : String) : Piece := .verbatim s.toList

def parenthesized (s : Statement) : Statement := verbatim "(" :: s ++ [verbatim ")"]

def operand (accessor : Text) : Statement := parenthesized [.verbatim accessor]

/-- One parameter for each value, separated by commas. -/
def parameterList : List Value → Statement
  | [] => []
  | [v] => [.parameter v.parameter]
  | v :: w :: vs => .parameter v.parameter :: verbatim ", " :: parameterList (w :: vs)

end Sql

open Sql

namespace Predicate

def sql (p : Predicate) : Statement :=
  match p.test with
  | .compare c v =>
    operand p.accessor ++
      [.verbatim (' ' :: comparisonSign c ++ [' ']), .parameter v.parameter]
  | .oneOf [] => [verbatim "1 = 0"]
  | .oneOf items => operand p.accessor ++ verbatim " IN " :: parenthesized (parameterList items)
  | .noneOf [] => [verbatim "1 = 1"]
  | .noneOf items =>
    operand p.accessor ++ verbatim " NOT IN " :: parenthesized (parameterList items)
  | .between low high =>
    operand p.accessor ++
      [verbatim " BETWEEN ", .parameter low.parameter, verbatim " AND ",
        .parameter high.parameter]

/-- Whether the predicate needs parentheses inside a conjunction. -/
def isLoose (p : Predicate) : Bool :=
  match p.test with
  | .between _ _ | .oneOf [] | .noneOf [] => true
  | _ => false

def sqlInConjunction (p : Predicate) : Statement :=
  if p.isLoose then parenthesized p.sql else p.sql

end Predicate

namespace Sql

def conjunction : List Predicate → Statement
  | [] => []
  | [p] => p.sqlInConjunction
  | p :: q :: ps => p.sqlInConjunction ++ verbatim " AND " :: conjunction (q :: ps)

end Sql

/-- A predicate that stands alone has no parentheses around it. -/
def Condition.sql (c : Condition) : Statement :=
  match c.predicates with
  | [p] => p.sql
  | ps => conjunction ps

def SortTerm.orderSql (t : SortTerm) : Statement :=
  let direction := Piece.verbatim (' ' :: t.direction.sql)
  match t with
  | .accessor sql _ => [.verbatim sql, direction]
  | .column name _ => [.name name, direction]

namespace Sql

def whereClause : Option Condition → Statement
  | some c => verbatim " WHERE " :: c.sql
  | none => []

def orderClause : Option SortTerm → Statement
  | some t => verbatim " ORDER BY " :: t.orderSql
  | none => []

def selectAll (table : Text) (condition? : Option Condition) (order? : Option SortTerm) :
    Statement :=
  verbatim "SELECT * FROM " :: .name table :: whereClause condition? ++ orderClause order?

end Sql
end Listing
