import Listing.Json
import Listing.Text.Split

/-!
# Free-text search

Keywords are one phrase, or several terms when the delimiter occurs in the text. A strategy says
how keywords are searched for; a target says which strategies it can run, and the generic one
stands in for a preferred one that it cannot.
-/

namespace Listing

inductive Keywords where
  | phrase (t : Text)
  | terms (ts : List Text)
  deriving DecidableEq, Repr

namespace Keywords

/-- A text without the delimiter is kept as it is, blanks included. -/
def read? (delimiter : Char) (t : Text) : Option Keywords :=
  if Text.isBlank t then none
  else if delimiter ∉ t then some (phrase t)
  else
    match Text.pieces delimiter t with
    | [] => none
    | ts => some (terms ts)

def toList : Keywords → List Text
  | phrase t => [t]
  | terms ts => ts

/-- All terms in one text, a space between neighbours. -/
def searchText (k : Keywords) : Text := Text.join [' '] k.toList

def json : Keywords → Json
  | phrase t => .text t
  | terms ts => .array (ts.map Json.text)

end Keywords

inductive Strategy where
  /-- The full-text search of the database itself. -/
  | pgSearch
  /-- A search that any database can do. -/
  | generic
  /-- No search: keywords are ignored. -/
  | none
  deriving DecidableEq, Repr

namespace Strategy

def all : List Strategy := [pgSearch, generic, none]

def key : Strategy → Text
  | pgSearch => "pg_search".toList
  | generic => "generic".toList
  | none => "none".toList

def ofKey? (key : Text) : Option Strategy := all.find? fun s => s.key = key

/-- The preferred strategy if the target can run it, else the generic one, else none. -/
def resolve (supports : Strategy → Bool) (preferred : Strategy) : Strategy :=
  if preferred ≠ none ∧ supports preferred then preferred
  else if supports generic then generic
  else none

end Strategy

/-- Keywords with the strategy that is to search for them. -/
structure SearchPlan where
  strategy : Strategy
  keywords : Keywords
  deriving DecidableEq, Repr

/-- There is no plan when the target cannot search. -/
def SearchPlan.of? (supports : Strategy → Bool) (preferred : Strategy) (keywords : Keywords) :
    Option SearchPlan :=
  match Strategy.resolve supports preferred with
  | .none => none
  | strategy => some ⟨strategy, keywords⟩

end Listing
