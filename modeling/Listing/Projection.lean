import Listing.FieldPath
import Listing.Json

/-!
# Projections

What a request selects and groups by: a field with an aggregate function, or a field cut down to
a period of time. Selected JSON paths and aggregates are given a name without dots.
-/

namespace Listing

inductive Aggregation where
  | count
  | sum
  | avg
  | min
  | max
  deriving DecidableEq, Repr

namespace Aggregation

def all : List Aggregation := [count, sum, avg, min, max]

def key : Aggregation → Text
  | count => "count".toList
  | sum => "sum".toList
  | avg => "avg".toList
  | min => "min".toList
  | max => "max".toList

/-- The SQL function. -/
def function : Aggregation → Text
  | count => "COUNT".toList
  | sum => "SUM".toList
  | avg => "AVG".toList
  | min => "MIN".toList
  | max => "MAX".toList

def ofKey? (key : Text) : Option Aggregation := all.find? fun a => a.key = key

@[simp] theorem ofKey?_key (a : Aggregation) : ofKey? a.key = some a := by
  cases a <;> decide

end Aggregation

inductive Period where
  | hour
  | day
  | week
  | month
  | quarter
  | year
  deriving DecidableEq, Repr

namespace Period

def all : List Period := [hour, day, week, month, quarter, year]

def key : Period → Text
  | hour => "hour".toList
  | day => "day".toList
  | week => "week".toList
  | month => "month".toList
  | quarter => "quarter".toList
  | year => "year".toList

def ofKey? (key : Text) : Option Period := all.find? fun p => p.key = key

@[simp] theorem ofKey?_key (p : Period) : ofKey? p.key = some p := by
  cases p <;> decide

end Period

structure Selection where
  field : Text
  aggregation : Option Aggregation
  deriving DecidableEq, Repr

namespace Selection

/-- The name that the SQL gives to the selected value, if it gives one. -/
def label? (s : Selection) : Option Text :=
  let path := FieldPath.of s.field
  match s.aggregation with
  | some a => some (path.label ++ '_' :: a.key)
  | none => if path.isJson then some path.label else none

/-- The SQL of the selected value itself. -/
def expression (s : Selection) : Text :=
  let path := FieldPath.of s.field
  match s.aggregation with
  | some a => a.function ++ '(' :: path.accessor ++ [')']
  | none => path.accessor

def sql (s : Selection) : Text :=
  match s.label? with
  | some name => s.expression ++ " AS ".toList ++ name
  | none => s.expression

def json (s : Selection) : Json :=
  .object [("field".toList, .text s.field),
    ("aggregation".toList, Json.option (fun a => .text a.key) s.aggregation)]

end Selection

structure Grouping where
  field : Text
  period : Option Period
  deriving DecidableEq, Repr

namespace Grouping

/-- The text read through a JSON path is made a point in time before it is cut down. -/
def sql (g : Grouping) : Text :=
  let path := FieldPath.of g.field
  match g.period with
  | some p =>
    "date_trunc('".toList ++ p.key ++ "', ".toList ++
      (if path.isJson then '(' :: path.accessor ++ ")::timestamptz".toList
        else path.accessor) ++ [')']
  | none => path.accessor

def json (g : Grouping) : Json :=
  .object [("field".toList, .text g.field),
    ("period".toList, Json.option (fun p => .text p.key) g.period)]

end Grouping
end Listing
