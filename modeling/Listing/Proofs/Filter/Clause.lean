import Listing.Proofs.Text.Token
import Listing.Request.Reading

/-!
# Clauses

A clause is what a request says about one filter: a field as it stands, an operator, and the raw
texts of a value. Without a batch every parameter that is not reserved is a clause, with a batch
every token that has a colon. The drafts of a request are the drafts of its clauses, in order.
-/

namespace Listing

open Text

/-- Choosing some elements and changing each of them. -/
theorem filterMap_eq_map_filter {α β : Type} {f : α → Option β} {chosen : α → Bool} {g : α → β}
    (h : ∀ a, f a = if chosen a then some (g a) else none) (as : List α) :
    as.filterMap f = (as.filter chosen).map g := by
  rw [← List.filterMap_eq_map, List.filterMap_filter]
  exact List.filterMap_congr fun a _ => h a

structure Clause where
  field : Text
  operator : Operator
  raws : List Text
  deriving DecidableEq, Repr

namespace Clause

def draft (s : Clause) : Draft := Draft.ofRaws s.field s.operator s.raws

/-- The elements of the raw texts when they are read as lists. -/
def elements (s : Clause) : List Text := s.raws.flatMap Value.splitList

/-- The raw text of a single value: the last one, or nothing when there is none. -/
def scalar (s : Clause) : Text := s.raws.getLast?.getD []

/-- The texts that are read as values: all elements for an operator on lists, and a single text
for a comparison. -/
def scalars (s : Clause) : List Text :=
  if s.operator.takesList then s.elements else [s.scalar]

/-- A parameter says `field`, or `field:key` with anything after the first colon as the key. -/
def ofEntry (entry : Text × RawValue) : Clause where
  field := before ':' entry.1
  operator := Operator.ofKeyOrEq (if ':' ∈ entry.1 then some (after ':' entry.1) else none)
  raws := entry.2.items

/-- The value in what follows the first colon of a token: all after the next colon, nothing after
a known key, and everything otherwise. -/
def tokenValue (rest : Text) : Text :=
  if ':' ∈ rest then after ':' rest
  else if (Operator.ofKey? rest).isSome then []
  else rest

/-- A token says `field:key:value`, `field:key` with a known key, or `field:value`. -/
def ofToken (token : Text) : Clause where
  field := before ':' token
  operator := Operator.ofKeyOrEq (some (before ':' (after ':' token)))
  raws := [tokenValue (after ':' token)]

theorem draft_of_takesList {s : Clause} (h : s.operator.takesList = true) :
    s.draft = ⟨trim s.field, s.operator, .list s.elements⟩ := by
  simp [draft, Draft.ofRaws, Operand.ofRaws, h, elements]

theorem operand_draft_of_takesList {s : Clause} (h : s.operator.takesList = true) :
    s.draft.operand = .list s.elements :=
  congrArg Draft.operand (draft_of_takesList h)

theorem operand_draft_of_takesList_eq_false {s : Clause} (h : s.operator.takesList = false) :
    s.draft.operand = .scalar s.scalar := by
  simp [draft, Draft.ofRaws, Operand.ofRaws, h, scalar]

theorem scalars_operand_draft (s : Clause) : s.draft.operand.scalars = s.scalars := by
  cases hop : s.operator.takesList with
  | true => simp [operand_draft_of_takesList hop, scalars, hop, Operand.scalars]
  | false => simp [operand_draft_of_takesList_eq_false hop, scalars, hop, Operand.scalars]

/-- A clause for an operator on lists is told by its elements. -/
theorem draft_eq_of_elements_eq {s r : Clause} (hfield : s.field = r.field)
    (hoperator : s.operator = r.operator) (hlist : r.operator.takesList = true)
    (helements : s.elements = r.elements) : s.draft = r.draft := by
  rw [draft_of_takesList (hoperator ▸ hlist), draft_of_takesList hlist, hfield, hoperator,
    helements]

theorem draft?_eq (token : Text) :
    Batch.draft? token = if ':' ∈ token then some (ofToken token).draft else none := by
  by_cases htoken : ':' ∈ token
  · simp only [Batch.draft?, cut?_of_mem htoken, Option.map_some, htoken, if_true, draft, ofToken]
    -- Whether there is a second colon decides what the second part is.
    by_cases hrest : ':' ∈ after ':' token
    · simp only [cut?_of_mem hrest, tokenValue, hrest, if_true]
    · simp only [cut?_eq_none_iff.mpr hrest, before_of_not_mem hrest, tokenValue, hrest, if_false]
      cases hkey : Operator.ofKey? (after ':' token) with
      | none => simp [Operator.ofKeyOrEq, hkey]
      | some op => simp [Operator.ofKeyOrEq, hkey]
  · simp only [Batch.draft?, cut?_eq_none_iff.mpr htoken, Option.map_none, htoken, if_false]

theorem entryDraft?_eq (c : Config) (entry : Text × RawValue) :
    Request.entryDraft? c entry =
      if c.isReserved (before ':' entry.1) = false then some (ofEntry entry).draft else none := by
  have hkey : (cut? ':' entry.1).map Prod.snd =
      if ':' ∈ entry.1 then some (after ':' entry.1) else none := by
    by_cases hcolon : ':' ∈ entry.1
    · rw [cut?_of_mem hcolon, if_pos hcolon, Option.map_some]
    · rw [cut?_eq_none_iff.mpr hcolon, if_neg hcolon, Option.map_none]
  apply Option.ext
  intro d
  rw [Request.entryDraft?_eq_some_iff, hkey, Option.ite_none_right_eq_some, Option.some.injEq]
  exact and_congr_right fun _ => eq_comm

end Clause

namespace Request

/-- Everything that the request says about filters, in order. -/
def clauses (c : Config) (p : Params) : List Clause :=
  match p.get? c.batchKey with
  | some batch =>
    ((batch.items.flatMap Batch.splitTopLevel).filter fun token => ':' ∈ token).map Clause.ofToken
  | none =>
    (p.entries.filter fun entry => c.isReserved (before ':' entry.1) = false).map Clause.ofEntry

theorem drafts_eq (c : Config) (p : Params) : drafts c p = (clauses c p).map Clause.draft := by
  unfold drafts clauses
  cases p.get? c.batchKey with
  | some batch =>
    simp only [Batch.drafts, List.map_map]
    exact filterMap_eq_map_filter (fun token => by simp [Clause.draft?_eq]) _
  | none =>
    simp only [List.map_map]
    exact filterMap_eq_map_filter (fun entry => by simp [Clause.entryDraft?_eq]) _

/-- Every text that is read as a value, in order, those of dropped filters included. -/
def scalars (c : Config) (p : Params) : List Text := (clauses c p).flatMap Clause.scalars

end Request

end Listing
