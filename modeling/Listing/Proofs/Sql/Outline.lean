import Listing.Request
import Listing.Sql.Select
import Mathlib.Data.List.Basic

/-!
# Outlines of statements

Apart from accessors, names and parameters, the SQL of a statement comes from a short vocabulary
of fixed texts. Rewriting the SQL of a statement, in a way that leaves the vocabulary alone,
therefore amounts to rewriting the accessors before the statement is written.

The outline of a statement has null for every value. Writing a statement does not tell it from its
outline, and the outline of a filter's predicate depends on the filter's field and the shape of
its test only.
-/

namespace Listing

namespace Test

/-- The values that are sent one by one, in order. -/
def operands : Test → List Value
  | compare _ v => [v]
  | oneOf items => items
  | noneOf items => items
  | between low high => [low, high]

/-- The number of elements of a membership test. -/
def listLength? : Test → Option Nat
  | oneOf items => some items.length
  | noneOf items => some items.length
  | compare _ _ => none
  | between _ _ => none

/-- All of a test but its values. -/
structure Shape where
  operator : Operator
  length? : Option Nat
  deriving DecidableEq, Repr

def shape (t : Test) : Shape := ⟨t.operator, t.listLength?⟩

/-- The test of a shape that has null for every value. -/
def Shape.blank (s : Shape) : Test :=
  match s.operator with
  | .compare c => compare c .null
  | .oneOf => oneOf (List.replicate (s.length?.getD 0) .null)
  | .noneOf => noneOf (List.replicate (s.length?.getD 0) .null)
  | .between => between .null .null

/-- The test with null for every value. -/
def outline (t : Test) : Test := t.map fun _ => .null

@[simp] theorem operands_map (f : Value → Value) (t : Test) :
    (t.map f).operands = t.operands.map f := by
  cases t <;> rfl

@[simp] theorem outline_map (f : Value → Value) (t : Test) : (t.map f).outline = t.outline := by
  cases t <;> simp [outline, map, Function.comp_def]

theorem outline_eq_blank (t : Test) : t.outline = t.shape.blank := by
  cases t <;> simp [outline, map, shape, Shape.blank, operator, listLength?]

end Test

namespace Sql

/-- The fixed SQL of all statements. -/
def vocabulary : List Text :=
  ["SELECT * FROM ", " WHERE ", " ORDER BY ", " AND ", "(", ")", ", ", " = ", " <> ", " > ",
    " >= ", " < ", " <= ", " IN ", " NOT IN ", " BETWEEN ", "1 = 0", "1 = 1", " ASC",
    " DESC"].map String.toList

theorem comparisonSign_mem (c : Comparison) :
    ' ' :: comparisonSign c ++ [' '] ∈ vocabulary := by
  cases c <;> decide

theorem direction_mem (d : Direction) : ' ' :: d.sql ∈ vocabulary := by
  cases d <;> decide

/-- Rewrites the SQL of a piece and forgets its value; names stay. -/
def Piece.outline (f : Text → Text) : Piece → Piece
  | .verbatim t => .verbatim (f t)
  | .name t => .name t
  | .parameter _ => .parameter .null

@[simp] theorem Piece.outline_verbatim (f : Text → Text) (t : Text) :
    (Piece.verbatim t).outline f = .verbatim (f t) := rfl

@[simp] theorem Piece.outline_name (f : Text → Text) (t : Text) :
    (Piece.name t).outline f = .name t := rfl

@[simp] theorem Piece.outline_parameter (f : Text → Text) (p : Parameter) :
    (Piece.parameter p).outline f = .parameter .null := rfl

/-- The statement with its SQL rewritten and with null for every value. -/
def outline (f : Text → Text) (s : Statement) : Statement := s.map (Piece.outline f)

@[simp] theorem outline_nil (f : Text → Text) : outline f [] = [] := rfl

@[simp] theorem outline_cons (f : Text → Text) (piece : Piece) (s : Statement) :
    outline f (piece :: s) = piece.outline f :: outline f s := rfl

@[simp] theorem outline_append (f : Text → Text) (s r : Statement) :
    outline f (s ++ r) = outline f s ++ outline f r := List.map_append

/-- No value takes part in the text of a statement. -/
theorem renderFrom_outline (d : Dialect) (number : Nat) (s : Statement) :
    renderFrom d number (outline id s) = renderFrom d number s := by
  induction s generalizing number with
  | nil => rfl
  | cons piece s ih => cases piece <;> simp [renderFrom, ih]

theorem length_parameters_outline (f : Text → Text) (s : Statement) :
    (parameters (outline f s)).length = (parameters s).length := by
  induction s with
  | nil => rfl
  | cons piece s ih => cases piece <;> simpa [parameters] using ih

/-- Statements with the same outline have the same text. -/
theorem render_eq_of_outline_eq {s r : Statement} (h : outline id s = outline id r) (d : Dialect) :
    render d s = render d r := by
  unfold render
  rw [← renderFrom_outline, h, renderFrom_outline]

theorem length_parameters_eq_of_outline_eq {s r : Statement} (h : outline id s = outline id r) :
    (parameters s).length = (parameters r).length := by
  rw [← length_parameters_outline id, h, length_parameters_outline]

theorem parameterList_cons_cons (v w : Value) (vs : List Value) :
    parameterList (v :: w :: vs) =
      .parameter v.parameter :: verbatim ", " :: parameterList (w :: vs) := rfl

end Sql

open Sql

/-! ## Rewriting the accessors of a statement -/

namespace Predicate

/-- The predicate over a rewritten accessor, with null for every value. -/
def outline (f : Text → Text) (p : Predicate) : Predicate := ⟨f p.accessor, p.test.outline⟩

@[simp] theorem template_outline (p : Predicate) : (p.outline id).template = p.template := by
  rcases p with ⟨accessor, test⟩
  cases test <;> rfl

end Predicate

/-- The condition over rewritten accessors, with null for every value. -/
def Condition.outline (f : Text → Text) (c : Condition) : Condition :=
  ⟨c.predicates.map (Predicate.outline f), by simp [c.ne_nil]⟩

/-- The sort term over a rewritten accessor. -/
def SortTerm.outline (f : Text → Text) : SortTerm → SortTerm
  | accessor sql d => accessor (f sql) d
  | column name d => column name d

section Rewriting

variable {f : Text → Text} (hf : ∀ t ∈ vocabulary, f t = t)

include hf

theorem Sql.outline_verbatim {s : String} (hs : s.toList ∈ vocabulary) :
    (verbatim s).outline f = verbatim s := by
  rw [verbatim, Piece.outline_verbatim, hf _ hs]

theorem Sql.outline_parenthesized (s : Statement) :
    outline f (parenthesized s) = parenthesized (outline f s) := by
  simp only [parenthesized, List.cons_append, outline_cons, outline_append, outline_nil,
    outline_verbatim hf (s := "(") (by decide), outline_verbatim hf (s := ")") (by decide)]

theorem Sql.outline_operand (accessor : Text) :
    outline f (operand accessor) = operand (f accessor) := by
  simp only [operand, outline_parenthesized hf, outline_cons, outline_nil, Piece.outline_verbatim]

theorem Sql.outline_parameterList (vs : List Value) :
    outline f (parameterList vs) = parameterList (vs.map fun _ => .null) := by
  induction vs with
  | nil => rfl
  | cons v vs ih =>
    cases vs with
    | nil => rfl
    | cons w vs =>
      rw [parameterList_cons_cons, outline_cons, outline_cons, ih,
        outline_verbatim hf (s := ", ") (by decide)]
      rfl

theorem Predicate.outline_sql (p : Predicate) : Sql.outline f p.sql = (p.outline f).sql := by
  rcases p with ⟨accessor, test⟩
  have hin := outline_verbatim hf (s := " IN ") (by decide)
  have hnot := outline_verbatim hf (s := " NOT IN ") (by decide)
  cases test with
  | compare c v =>
    simp [Predicate.sql, Predicate.outline, Test.outline, Test.map, outline_operand hf,
      Value.parameter, hf _ (by simpa using comparisonSign_mem c)]
  | oneOf items =>
    cases items with
    | nil => exact congrArg (· :: []) (outline_verbatim hf (by decide))
    | cons v vs =>
      simp [Predicate.sql, Predicate.outline, Test.outline, Test.map, outline_operand hf, hin,
        outline_parenthesized hf, outline_parameterList hf]
  | noneOf items =>
    cases items with
    | nil => exact congrArg (· :: []) (outline_verbatim hf (by decide))
    | cons v vs =>
      simp [Predicate.sql, Predicate.outline, Test.outline, Test.map, outline_operand hf, hnot,
        outline_parenthesized hf, outline_parameterList hf]
  | between low high =>
    simp [Predicate.sql, Predicate.outline, Test.outline, Test.map, outline_operand hf,
      Value.parameter, outline_verbatim hf (s := " BETWEEN ") (by decide),
      outline_verbatim hf (s := " AND ") (by decide)]

theorem Predicate.outline_sqlInConjunction (p : Predicate) :
    Sql.outline f p.sqlInConjunction = (p.outline f).sqlInConjunction := by
  have hloose : (p.outline f).isLoose = p.isLoose := by
    rcases p with ⟨accessor, _ | (_ | _) | (_ | _) | _⟩ <;> rfl
  simp only [sqlInConjunction, hloose]
  split
  · rw [outline_parenthesized hf, outline_sql hf]
  · exact outline_sql hf p

theorem Sql.outline_conjunction (ps : List Predicate) :
    outline f (conjunction ps) = conjunction (ps.map (Predicate.outline f)) := by
  induction ps with
  | nil => rfl
  | cons p ps ih =>
    cases ps with
    | nil => exact Predicate.outline_sqlInConjunction hf p
    | cons q ps =>
      rw [conjunction, outline_append, outline_cons, ih, Predicate.outline_sqlInConjunction hf,
        outline_verbatim hf (by decide)]
      rfl

theorem Condition.outline_sql (c : Condition) : Sql.outline f c.sql = (c.outline f).sql := by
  rcases c with ⟨ps, hps⟩
  match ps, hps with
  | [p], _ => exact Predicate.outline_sql hf p
  | p :: q :: ps, _ => exact outline_conjunction hf (p :: q :: ps)

theorem SortTerm.outline_orderSql (t : SortTerm) :
    Sql.outline f t.orderSql = (t.outline f).orderSql := by
  cases t with
  | accessor sql d =>
    simp [orderSql, SortTerm.outline, SortTerm.direction, hf _ (direction_mem d)]
  | column name d =>
    simp [orderSql, SortTerm.outline, SortTerm.direction, hf _ (direction_mem d)]

/-- Rewriting the SQL of a statement is rewriting its accessors. -/
theorem Sql.outline_selectAll (table : Text) (c? : Option Condition) (o? : Option SortTerm) :
    outline f (selectAll table c? o?) =
      selectAll table (c?.map (Condition.outline f)) (o?.map (SortTerm.outline f)) := by
  have hwhere : outline f (whereClause c?) = whereClause (c?.map (Condition.outline f)) := by
    cases c? with
    | none => rfl
    | some c =>
      simp only [whereClause, Option.map_some, outline_cons, Condition.outline_sql hf,
        outline_verbatim hf (s := " WHERE ") (by decide)]
  have horder : outline f (orderClause o?) = orderClause (o?.map (SortTerm.outline f)) := by
    cases o? with
    | none => rfl
    | some o =>
      simp only [orderClause, Option.map_some, outline_cons, SortTerm.outline_orderSql hf,
        outline_verbatim hf (s := " ORDER BY ") (by decide)]
  simp only [selectAll, List.cons_append, outline_cons, outline_append, hwhere, horder,
    outline_verbatim hf (s := "SELECT * FROM ") (by decide), Piece.outline_name]

end Rewriting

/-! ## Statements for filters -/

/-- The condition that all filters hold; none without filters. -/
def Filter.conjunction? (fs : List Filter) : Option Condition :=
  Condition.all? (fs.map Condition.ofFilter)

/-- The rows that pass all filters, in an order. -/
def Sql.selectFiltered (table : Text) (fs : List Filter) (sort? : Option SortOrder) : Statement :=
  selectAll table (Filter.conjunction? fs) (sort?.map SortOrder.term)

theorem Filter.conjunction?_eq (fs : List Filter) :
    conjunction? fs = Condition.ofPredicates? (fs.map Predicate.ofFilter) := by
  have hps : (fs.map Condition.ofFilter).flatMap Condition.predicates =
      fs.map Predicate.ofFilter := by
    induction fs with
    | nil => rfl
    | cons f fs ih => simp [ih]
  rw [conjunction?, Condition.all?, hps]

theorem Condition.predicates_of_mem {ps : List Predicate} {c : Condition}
    (h : c ∈ ofPredicates? ps) : c.predicates = ps := by
  by_cases hps : ps = []
  · simp [ofPredicates?, hps] at h
  · simp only [ofPredicates?, ne_eq, hps, not_false_eq_true, dite_true, Option.mem_def,
      Option.some.injEq] at h
    rw [← h]

theorem Condition.map_outline_ofPredicates? (f : Text → Text) (ps : List Predicate) :
    (ofPredicates? ps).map (outline f) = ofPredicates? (ps.map (Predicate.outline f)) := by
  by_cases hps : ps = [] <;> simp [ofPredicates?, hps, outline]

theorem Predicate.outline_ofFilter (g : Text → Text) (f : Filter) :
    (ofFilter f).outline g = ⟨g (FieldPath.of f.field).accessor, f.test.shape.blank⟩ := by
  unfold ofFilter
  dsimp only
  split <;> simp [outline, ← Test.outline_eq_blank]

end Listing
