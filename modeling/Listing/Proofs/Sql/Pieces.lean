import Listing.Proofs.Sql.Outline
import Mathlib.Data.List.Basic

/-!
# The pieces of a statement

A property of pieces that holds of the vocabulary and of parameters holds of a whole statement as
soon as it holds of its names and accessors. In the same way, what is gathered from the pieces of
a statement, and not from the vocabulary, comes from the table, from the accessors and values of
the predicates, in order, and from the sort term.
-/

namespace Listing

open Sql

namespace SortTerm

/-- The piece that a sort term sorts by. -/
def piece : SortTerm → Piece
  | accessor sql _ => .verbatim sql
  | column name _ => .name name

theorem orderSql_eq (t : SortTerm) : t.orderSql = [t.piece, .verbatim (' ' :: t.direction.sql)] := by
  cases t <;> rfl

end SortTerm

/-- Whether the outcome of a test does not depend on the field: no value is in an empty list. -/
def Test.isConstant : Test → Bool
  | oneOf [] => true
  | noneOf [] => true
  | _ => false

section Pieces

variable {P : Piece → Prop} (hv : ∀ t ∈ vocabulary, P (.verbatim t)) (hp : ∀ q, P (.parameter q))

include hv

theorem Sql.forall_mem_parenthesized {s : Statement} (hs : ∀ piece ∈ s, P piece) :
    ∀ piece ∈ parenthesized s, P piece := by
  simp only [parenthesized, List.cons_append, List.forall_mem_cons, List.forall_mem_append]
  exact ⟨hv _ (by decide), hs, hv _ (by decide), by simp⟩

theorem Sql.forall_mem_operand {accessor : Text} (ha : P (.verbatim accessor)) :
    ∀ piece ∈ operand accessor, P piece :=
  forall_mem_parenthesized hv (by simpa using ha)

include hp

theorem Sql.forall_mem_parameterList (vs : List Value) : ∀ piece ∈ parameterList vs, P piece := by
  induction vs with
  | nil => simp [parameterList]
  | cons v vs ih =>
    cases vs with
    | nil => simpa [parameterList] using hp v.parameter
    | cons w vs =>
      rw [parameterList_cons_cons, List.forall_mem_cons, List.forall_mem_cons]
      exact ⟨hp _, hv _ (by decide), ih⟩

theorem Predicate.forall_mem_sql {p : Predicate} (ha : P (.verbatim p.accessor)) :
    ∀ piece ∈ p.sql, P piece := by
  rcases p with ⟨accessor, test⟩
  have hoperand := forall_mem_operand hv ha
  -- A membership test with elements, under either of its two keywords.
  have hlist : ∀ {s : String}, s.toList ∈ vocabulary → ∀ vs : List Value,
      ∀ piece ∈ operand accessor ++ verbatim s :: parenthesized (parameterList vs), P piece := by
    intro s hs vs
    simp only [List.forall_mem_append, List.forall_mem_cons]
    exact ⟨hoperand, hv _ hs, forall_mem_parenthesized hv (forall_mem_parameterList hv hp vs)⟩
  cases test with
  | compare c v =>
    simp only [sql, List.forall_mem_append, List.forall_mem_cons]
    exact ⟨hoperand, hv _ (comparisonSign_mem c), hp _, by simp⟩
  | oneOf items =>
    cases items with
    | nil => exact List.forall_mem_singleton.mpr (hv _ (by decide))
    | cons v vs => exact hlist (by decide) (v :: vs)
  | noneOf items =>
    cases items with
    | nil => exact List.forall_mem_singleton.mpr (hv _ (by decide))
    | cons v vs => exact hlist (by decide) (v :: vs)
  | between low high =>
    simp only [sql, List.forall_mem_append, List.forall_mem_cons]
    exact ⟨hoperand, hv _ (by decide), hp _, hv _ (by decide), hp _, by simp⟩

theorem Predicate.forall_mem_sqlInConjunction {p : Predicate} (ha : P (.verbatim p.accessor)) :
    ∀ piece ∈ p.sqlInConjunction, P piece := by
  unfold sqlInConjunction
  split
  · exact forall_mem_parenthesized hv (forall_mem_sql hv hp ha)
  · exact forall_mem_sql hv hp ha

theorem Sql.forall_mem_conjunction {ps : List Predicate}
    (ha : ∀ p ∈ ps, P (.verbatim p.accessor)) : ∀ piece ∈ conjunction ps, P piece := by
  induction ps with
  | nil => simp [conjunction]
  | cons p ps ih =>
    obtain ⟨hfirst, hrest⟩ := List.forall_mem_cons.mp ha
    have hsql := Predicate.forall_mem_sqlInConjunction hv hp hfirst
    cases ps with
    | nil => exact hsql
    | cons q ps =>
      simp only [conjunction, List.forall_mem_append, List.forall_mem_cons]
      exact ⟨hsql, hv _ (by decide), ih hrest⟩

theorem Condition.forall_mem_sql {c : Condition}
    (ha : ∀ p ∈ c.predicates, P (.verbatim p.accessor)) : ∀ piece ∈ c.sql, P piece := by
  rcases c with ⟨ps, hps⟩
  match ps, hps with
  | [p], _ => exact Predicate.forall_mem_sql hv hp (ha p (by simp))
  | p :: q :: ps, _ => exact forall_mem_conjunction hv hp ha

/-- What holds of the vocabulary, of parameters, and of the names and accessors of a statement
holds of each of its pieces. -/
theorem Sql.forall_mem_selectAll {table : Text} {c? : Option Condition} {o? : Option SortTerm}
    (htable : P (.name table)) (hc : ∀ c ∈ c?, ∀ p ∈ c.predicates, P (.verbatim p.accessor))
    (ho : ∀ o ∈ o?, P o.piece) : ∀ piece ∈ selectAll table c? o?, P piece := by
  have hwhere : ∀ piece ∈ whereClause c?, P piece := by
    cases c? with
    | none => simp [whereClause]
    | some c =>
      rw [whereClause, List.forall_mem_cons]
      exact ⟨hv _ (by decide), Condition.forall_mem_sql hv hp (hc c rfl)⟩
  have horder : ∀ piece ∈ orderClause o?, P piece := by
    cases o? with
    | none => simp [orderClause]
    | some o =>
      rw [orderClause, SortTerm.orderSql_eq]
      simp only [List.forall_mem_cons]
      exact ⟨hv _ (by decide), ho o rfl, hv _ (direction_mem o.direction), by simp⟩
  simp only [selectAll, List.cons_append, List.forall_mem_cons, List.forall_mem_append]
  exact ⟨hv _ (by decide), htable, hwhere, horder⟩

end Pieces

/-! ## Gathering from the pieces -/

section Gathering

variable {β : Type} {g : Piece → List β} (hg : ∀ t ∈ vocabulary, g (.verbatim t) = [])

/-- What is gathered from a predicate: nothing where it does not look at the field. -/
def Predicate.gathered (g : Piece → List β) (p : Predicate) : List β :=
  if p.test.isConstant then []
  else g (.verbatim p.accessor) ++ p.test.operands.flatMap fun v => g (.parameter v.parameter)

include hg

theorem Sql.gather_verbatim {s : String} (hs : s.toList ∈ vocabulary) : g (verbatim s) = [] :=
  hg _ hs

theorem Sql.gather_parenthesized (s : Statement) : (parenthesized s).flatMap g = s.flatMap g := by
  have hopen := gather_verbatim hg (s := "(") (by decide)
  have hclose := gather_verbatim hg (s := ")") (by decide)
  simp [parenthesized, hopen, hclose]

theorem Sql.gather_operand (accessor : Text) :
    (operand accessor).flatMap g = g (.verbatim accessor) := by
  rw [operand, gather_parenthesized hg, List.flatMap_singleton]

theorem Sql.gather_parameterList (vs : List Value) :
    (parameterList vs).flatMap g = vs.flatMap fun v => g (.parameter v.parameter) := by
  have hcomma := gather_verbatim hg (s := ", ") (by decide)
  induction vs with
  | nil => rfl
  | cons v vs ih =>
    cases vs with
    | nil => rfl
    | cons w vs =>
      rw [parameterList_cons_cons, List.flatMap_cons, List.flatMap_cons, hcomma, ih]
      rfl

theorem Predicate.gather_sql (p : Predicate) : p.sql.flatMap g = p.gathered g := by
  rcases p with ⟨accessor, test⟩
  have hoperand := gather_operand hg accessor
  have hlist : ∀ {s : String}, s.toList ∈ vocabulary → ∀ vs : List Value,
      (operand accessor ++ verbatim s :: parenthesized (parameterList vs)).flatMap g =
        g (.verbatim accessor) ++ vs.flatMap fun v => g (.parameter v.parameter) := by
    intro s hs vs
    rw [List.flatMap_append, List.flatMap_cons, hoperand, gather_verbatim hg hs,
      gather_parenthesized hg, gather_parameterList hg, List.nil_append]
  cases test with
  | compare c v =>
    have hsign := hg _ (comparisonSign_mem c)
    simp only [sql, List.flatMap_append, List.flatMap_cons, hoperand, hsign]
    rfl
  | oneOf items =>
    cases items with
    | nil => exact (List.append_nil _).trans (gather_verbatim hg (by decide))
    | cons v vs => exact hlist (by decide) (v :: vs)
  | noneOf items =>
    cases items with
    | nil => exact (List.append_nil _).trans (gather_verbatim hg (by decide))
    | cons v vs => exact hlist (by decide) (v :: vs)
  | between low high =>
    have hbetween := gather_verbatim hg (s := " BETWEEN ") (by decide)
    have hand := gather_verbatim hg (s := " AND ") (by decide)
    simp only [sql, List.flatMap_append, List.flatMap_cons, hoperand, hbetween, hand]
    rfl

theorem Predicate.gather_sqlInConjunction (p : Predicate) :
    p.sqlInConjunction.flatMap g = p.gathered g := by
  unfold sqlInConjunction
  split
  · rw [gather_parenthesized hg, gather_sql hg]
  · exact gather_sql hg p

theorem Sql.gather_conjunction (ps : List Predicate) :
    (conjunction ps).flatMap g = ps.flatMap (Predicate.gathered g) := by
  induction ps with
  | nil => rfl
  | cons p ps ih =>
    have hp := Predicate.gather_sqlInConjunction hg p
    cases ps with
    | nil => simpa [conjunction] using hp
    | cons q ps =>
      rw [conjunction, List.flatMap_append, List.flatMap_cons, hp,
        gather_verbatim hg (by decide), ih]
      rfl

theorem Condition.gather_sql (c : Condition) :
    c.sql.flatMap g = c.predicates.flatMap (Predicate.gathered g) := by
  rcases c with ⟨ps, hps⟩
  match ps, hps with
  | [p], _ => simpa [Condition.sql] using Predicate.gather_sql hg p
  | p :: q :: ps, _ => exact gather_conjunction hg (p :: q :: ps)

/-- What is gathered from a statement, and not from the vocabulary, comes from its table, its
predicates and its sort term, in this order. -/
theorem Sql.gather_selectAll (table : Text) (ps : List Predicate) (o? : Option SortTerm) :
    (selectAll table (Condition.ofPredicates? ps) o?).flatMap g =
      g (.name table) ++
        (ps.flatMap (Predicate.gathered g) ++ o?.toList.flatMap fun o => g o.piece) := by
  have hwhere : (whereClause (Condition.ofPredicates? ps)).flatMap g =
      ps.flatMap (Predicate.gathered g) := by
    by_cases hps : ps = []
    · simp [Condition.ofPredicates?, hps, whereClause]
    · simp only [Condition.ofPredicates?, ne_eq, hps, not_false_eq_true, dite_true, whereClause,
        List.flatMap_cons, gather_verbatim hg (s := " WHERE ") (by decide), List.nil_append]
      exact Condition.gather_sql hg ⟨ps, hps⟩
  have horder : (orderClause o?).flatMap g = o?.toList.flatMap fun o => g o.piece := by
    cases o? with
    | none => rfl
    | some o =>
      rw [orderClause, SortTerm.orderSql_eq, List.flatMap_cons, List.flatMap_cons,
        List.flatMap_cons, gather_verbatim hg (by decide), hg _ (direction_mem o.direction)]
      rfl
  rw [selectAll, List.cons_append, List.cons_append, List.flatMap_cons, List.flatMap_cons,
    List.flatMap_append, gather_verbatim hg (by decide), List.nil_append, hwhere, horder]

end Gathering

end Listing
