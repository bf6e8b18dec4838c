import Listing.Config
import Listing.Filter.Batch
import Listing.Params
import Listing.Request

/-!
# Reading requests

How the parameters of a request become a `Request`. Filters come from the batch when its key is
present, and else from every key that is not reserved: the text before the key's first colon is
the field, what follows names the operator. All else comes from keys of its own. Nothing is
refused: what does not fit is left out or replaced by a default. Only a value that depends on the
clock can fail, by leaving the range of instants.
-/

namespace Listing
namespace Request

/-- The draft of one parameter, unless its key is reserved. -/
def entryDraft? (c : Config) (entry : Text × RawValue) : Option Draft :=
  let (field, key?) :=
    match Text.cut? ':' entry.1 with
    | some (field, key) => (field, some key)
    | none => (entry.1, none)
  if c.isReserved field then none
  else some (Draft.ofRaws field (Operator.ofKeyOrEq key?) entry.2.items)

/-- The field is what stands before the first colon; it is trimmed once it is known not to be
reserved. -/
theorem entryDraft?_eq_some_iff {c : Config} {entry : Text × RawValue} {d : Draft} :
    entryDraft? c entry = some d ↔ c.isReserved (Text.before ':' entry.1) = false ∧
      d = Draft.ofRaws (Text.before ':' entry.1)
        (Operator.ofKeyOrEq ((Text.cut? ':' entry.1).map Prod.snd)) entry.2.items := by
  unfold entryDraft?
  cases hcut : Text.cut? ':' entry.1 with
  | none =>
    rw [Text.before_of_cut?_eq_none hcut]
    cases hreserved : c.isReserved entry.1 <;> simp [hreserved, eq_comm]
  | some cut =>
    rw [Text.before_of_cut? hcut]
    cases hreserved : c.isReserved cut.1 <;> simp [hreserved, eq_comm]

def drafts (c : Config) (p : Params) : List Draft :=
  match p.get? c.batchKey with
  | some batch => Batch.drafts batch.items
  | none => p.entries.filterMap (entryDraft? c)

/-- What one parameter adds to the drafts of the others, unless there is a batch. -/
theorem drafts_append_cons {c : Config} {entry : Text × RawValue} (h : entry.1 ≠ c.batchKey)
    (xs ys : List (Text × RawValue)) :
    drafts c ⟨xs ++ entry :: ys⟩ =
      match (⟨xs ++ ys⟩ : Params).get? c.batchKey with
      | some batch => Batch.drafts batch.items
      | none => xs.filterMap (entryDraft? c) ++ ((entryDraft? c entry).toList ++
          ys.filterMap (entryDraft? c)) := by
  rw [drafts, Params.get?_append_cons_of_ne h.symm]
  cases (⟨xs ++ ys⟩ : Params).get? c.batchKey with
  | some batch => rfl
  | none =>
    simp only [List.filterMap_append, List.filterMap_cons]
    cases entryDraft? c entry <;> rfl

def readFilters (c : Config) (now : Instant) (p : Params) : Except OutOfRange (List Filter) :=
  Draft.resolveAll now (drafts c p)

/-- The elements of a comma-separated list, which may be spread over an array. -/
def elements (value? : Option RawValue) : List Text :=
  match value? with
  | some value => value.items.flatMap (Text.pieces ',')
  | none => []

/-- A field with a qualifier after a colon; a qualifier that is not known does not count. -/
def qualified? {α : Type} (lookup : Text → Option α) (element : Text) :
    Option (Text × Option α) :=
  let (field, qualifier?) :=
    match Text.cut? ':' element with
    | some (field, qualifier) => (Text.trim field, some (Text.trim qualifier))
    | none => (element, none)
  if field = [] then none else some (field, qualifier?.bind lookup)

def readSelection? (element : Text) : Option Selection :=
  (qualified? Aggregation.ofKey? element).map fun (field, aggregation) => ⟨field, aggregation⟩

def readGrouping? (element : Text) : Option Grouping :=
  (qualified? Period.ofKey? element).map fun (field, period) => ⟨field, period⟩

def readKeywords? (c : Config) (p : Params) : Option Keywords :=
  ((p.getText? "keywords".toList).or (p.getText? "query".toList)).bind
    (Keywords.read? c.delimiter)

/-- A number from 1 on: zero is read as 1, and what is no count as the default. -/
def readPositive (text? : Option Text) (missing : Nat) : Nat :=
  max 1 ((text?.bind fun t => Text.readCount? (Text.trim t)).getD missing)

def read (c : Config) (now : Instant) (p : Params) : Except OutOfRange Request :=
  (readFilters c now p).map fun filters =>
    { filters
      sort := (p.getText? "order".toList).bind SortOrder.read?
      includes := elements (p.get? "include".toList)
      select := (elements (p.get? "select".toList)).filterMap readSelection?
      groupBy := (elements (p.get? "group_by".toList)).filterMap readGrouping?
      keywords := readKeywords? c p
      page := readPositive (p.getText? "page".toList) 1
      perPage := readPositive (p.getText? "per_page".toList) c.defaultPerPage }

end Request

/-- The search that the configuration prefers; none at all when it turns searching off. -/
def Config.searchPlan? (c : Config) (r : Request) (supports : Strategy → Bool) :
    Option SearchPlan :=
  if c.strategy = .none then none else r.searchPlan? supports c.strategy

end Listing
