import Listing.Condition
import Listing.Order
import Listing.Projection
import Listing.Search

/-!
# Requests

Everything that a list of rows is asked for in one request: filters that must all hold, an order,
related records, what to select and to group by, keywords, and a page counted from 1.
-/

namespace Listing

structure Request where
  filters : List Filter
  sort : Option SortOrder
  includes : List Text
  select : List Selection
  groupBy : List Grouping
  keywords : Option Keywords
  page : Nat
  perPage : Nat
  deriving DecidableEq

namespace Request

def hasFilters (r : Request) : Bool := !r.filters.isEmpty

def hasKeywords (r : Request) : Bool := r.keywords.isSome

/-- One condition for each filter. -/
def conditions (r : Request) : List Condition := r.filters.map Condition.ofFilter

/-- All filters in one condition; none without filters. -/
def condition? (r : Request) : Option Condition := Condition.all? r.conditions

def sortTerm? (r : Request) : Option SortTerm := r.sort.map SortOrder.term

/-- Every field that the request names, filters first, then order, selection and grouping. -/
def fields (r : Request) : List Text :=
  r.filters.map Filter.field ++ r.sort.toList.map SortOrder.field ++
    r.select.map Selection.field ++ r.groupBy.map Grouping.field

theorem forall_mem_fields_iff {r : Request} {P : Text → Prop} :
    (∀ field ∈ r.fields, P field) ↔ (∀ f ∈ r.filters, P f.field) ∧ (∀ o ∈ r.sort, P o.field) ∧
      (∀ s ∈ r.select, P s.field) ∧ ∀ g ∈ r.groupBy, P g.field := by
  simp only [fields, List.forall_mem_append, List.forall_mem_map, Option.mem_toList,
    Option.mem_def, and_assoc]

def searchPlan? (r : Request) (supports : Strategy → Bool) (preferred : Strategy) :
    Option SearchPlan :=
  r.keywords.bind (SearchPlan.of? supports preferred)

def json (r : Request) : Json :=
  .object [
    ("filters".toList, .array (r.filters.map Filter.json)),
    ("sort".toList, Json.option SortOrder.json r.sort),
    ("includes".toList, .array (r.includes.map Json.text)),
    ("select".toList, .array (r.select.map Selection.json)),
    ("group_by".toList, .array (r.groupBy.map Grouping.json)),
    ("keywords".toList, Json.option Keywords.json r.keywords),
    ("page".toList, Json.natural r.page),
    ("per_page".toList, Json.natural r.perPage)]

end Request
end Listing
