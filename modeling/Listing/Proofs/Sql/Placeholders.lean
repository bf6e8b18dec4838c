import Listing.Proofs.Sql.Pieces
import Listing.Proofs.Text.Digits
import Mathlib.Data.List.Chain

/-!
# Placeholders and parameters

A statement is handed to the database as a text and a list of values. Written in one pass, with
each placeholder numbered by the position of its value, it is the rendered text and the list of
its parameters, in every dialect.

Read back from the text, the placeholders match the parameters one to one, provided that no name
and no field contains the character that starts a placeholder. Numbered placeholders are read as
far as their digits go, so it matters that no parameter is followed by a digit.
-/

namespace Listing

/-- What is sent for a filter, one value after the other. -/
def Filter.bindings (f : Filter) : List Sql.Parameter :=
  f.test.operands.map fun v =>
    (if (FieldPath.of f.field).isJson then v.asPathText else v).parameter

namespace Sql

/-- Writes one more piece. A placeholder has the number that its value has in the list. -/
def writePiece (d : Dialect) (written : Text × List Parameter) : Piece → Text × List Parameter
  | .verbatim t => (written.1 ++ t, written.2)
  | .name t => (written.1 ++ Text.quoted d.nameMark t, written.2)
  | .parameter p => (written.1 ++ d.placeholder (written.2.length + 1), written.2 ++ [p])

/-- A statement as the database gets it: a text, and the values for its placeholders. -/
def build (d : Dialect) (s : Statement) : Text × List Parameter := s.foldl (writePiece d) ([], [])

/-- The runs of digits after the dollar signs of a text. -/
def dollarNumbers : Text → List Text
  | [] => []
  | c :: t =>
    if c = '$' then t.takeWhile Char.isDigit :: dollarNumbers t else dollarNumbers t

theorem foldl_writePiece (d : Dialect) (s : Statement) (written : Text × List Parameter) :
    s.foldl (writePiece d) written =
      (written.1 ++ renderFrom d (written.2.length + 1) s, written.2 ++ parameters s) := by
  induction s generalizing written with
  | nil => simp [renderFrom, parameters]
  | cons piece s ih => cases piece <;> simp [ih, writePiece, renderFrom, parameters]

/-- Writing in one pass gives the rendered text and the parameters of the statement. -/
theorem build_eq (d : Dialect) (s : Statement) : build d s = (render d s, parameters s) :=
  foldl_writePiece d s ([], [])

/-! ## Reading placeholders back -/

/-- The SQL and the names of a piece do not contain a character. -/
def Piece.Lacks (c : Char) : Piece → Prop
  | .verbatim t => c ∉ t
  | .name t => c ∉ t
  | .parameter _ => True

theorem count_renderFrom {d : Dialect} (hd : ∀ number, d.placeholder number = ['?'])
    (hmark : '?' ≠ d.nameMark) {s : Statement} (h : ∀ piece ∈ s, piece.Lacks '?')
    (number : Nat) : (renderFrom d number s).count '?' = (parameters s).length := by
  induction s generalizing number with
  | nil => rfl
  | cons piece s ih =>
    obtain ⟨hpiece, hs⟩ := List.forall_mem_cons.mp h
    cases piece with
    | verbatim t =>
      have ht := List.count_eq_zero_of_not_mem hpiece
      simpa [renderFrom, ht, parameters] using ih hs number
    | name t =>
      have hname := List.count_eq_zero_of_not_mem (Text.not_mem_quoted hmark hpiece)
      simpa [renderFrom, hname, parameters] using ih hs number
    | parameter p =>
      simpa [renderFrom, hd, parameters, Nat.add_comm 1] using ih hs (number + 1)

theorem dollarNumbers_append_of_not_mem {t : Text} (h : '$' ∉ t) (u : Text) :
    dollarNumbers (t ++ u) = dollarNumbers u := by
  induction t with
  | nil => rfl
  | cons c t ih =>
    obtain ⟨hc, ht⟩ := not_or.mp (mt List.mem_cons.mpr h)
    rw [List.cons_append, dollarNumbers, if_neg (Ne.symm hc), ih ht]

theorem dollarNumbers_placeholder_append (number : Nat) {u : Text}
    (hu : ∀ c ∈ u.head?, c.isDigit = false) :
    dollarNumbers (Dialect.postgres.placeholder number ++ u) =
      Text.decimal number :: dollarNumbers u := by
  have hdollar : '$' ∉ Text.decimal number := fun h =>
    absurd (Text.isDigit_of_mem_decimal h) (by decide)
  simp only [Dialect.placeholder, List.cons_append, dollarNumbers, if_true,
    Text.takeWhile_decimal_append number hu, dollarNumbers_append_of_not_mem hdollar]

/-! ## Spaced statements -/

/-- Whether a piece is SQL that starts with something else than a digit. -/
def Piece.startsPlain : Piece → Bool
  | .verbatim (c :: _) => !c.isDigit
  | _ => false

/-- No digit comes after a parameter. -/
def Spaced (s : Statement) : Prop :=
  s.IsChain fun a b => (∃ p, a = .parameter p) → b.startsPlain = true

theorem head?_renderFrom_of_startsPlain {piece : Piece} (h : piece.startsPlain = true)
    (d : Dialect) (number : Nat) (s : Statement) :
    ∀ c ∈ (renderFrom d number (piece :: s)).head?, c.isDigit = false := by
  cases piece with
  | verbatim t =>
    cases t with
    | nil => simp [Piece.startsPlain] at h
    | cons b t => simpa [Piece.startsPlain, renderFrom] using h
  | name t => simp [Piece.startsPlain] at h
  | parameter p => simp [Piece.startsPlain] at h

/-- Read back, the placeholders of a spaced statement are numbered one by one. -/
theorem dollarNumbers_renderFrom {s : Statement} (hlacks : ∀ piece ∈ s, piece.Lacks '$')
    (hspaced : Spaced s) (number : Nat) :
    dollarNumbers (renderFrom .postgres number s) =
      (List.range' number (parameters s).length).map Text.decimal := by
  induction s generalizing number with
  | nil => rfl
  | cons piece s ih =>
    obtain ⟨hpiece, hs⟩ := List.forall_mem_cons.mp hlacks
    obtain ⟨hnext, hrest⟩ := List.isChain_cons.mp hspaced
    cases piece with
    | verbatim t =>
      rw [renderFrom, dollarNumbers_append_of_not_mem hpiece, ih hs hrest]
      rfl
    | name t =>
      have hname := Text.not_mem_quoted (by decide : '$' ≠ Dialect.postgres.nameMark) hpiece
      rw [renderFrom, dollarNumbers_append_of_not_mem hname, ih hs hrest]
      rfl
    | parameter p =>
      have hhead : ∀ c ∈ (renderFrom .postgres (number + 1) s).head?, c.isDigit = false := by
        cases s with
        | nil => simp [renderFrom]
        | cons next s =>
          exact head?_renderFrom_of_startsPlain (hnext next rfl ⟨p, rfl⟩) .postgres _ s
      rw [renderFrom, dollarNumbers_placeholder_append number hhead, ih hs hrest]
      simp [parameters, List.range'_succ]

theorem spaced_nil : Spaced [] := List.isChain_nil

theorem spaced_singleton (piece : Piece) : Spaced [piece] := List.isChain_singleton piece

theorem spaced_verbatim_cons {t : Text} {s : Statement} (h : Spaced s) :
    Spaced (.verbatim t :: s) :=
  List.isChain_cons.mpr ⟨fun _ _ hp => by simp at hp, h⟩

theorem spaced_name_cons {t : Text} {s : Statement} (h : Spaced s) : Spaced (.name t :: s) :=
  List.isChain_cons.mpr ⟨fun _ _ hp => by simp at hp, h⟩

theorem spaced_append {s r : Statement} {t : Text} (hs : Spaced s) (hr : Spaced r)
    (ht : (Piece.verbatim t).startsPlain = true) : Spaced (s ++ .verbatim t :: r) := by
  refine List.isChain_append.mpr ⟨hs, spaced_verbatim_cons hr, ?_⟩
  intro a _ b hb _
  obtain rfl : Piece.verbatim t = b := by simpa using hb
  exact ht

theorem spaced_parenthesized {s : Statement} (h : Spaced s) : Spaced (parenthesized s) :=
  spaced_append (spaced_verbatim_cons h) spaced_nil rfl

theorem spaced_operand (accessor : Text) : Spaced (operand accessor) :=
  spaced_parenthesized (spaced_singleton _)

theorem spaced_parameterList (vs : List Value) : Spaced (parameterList vs) := by
  induction vs with
  | nil => exact spaced_nil
  | cons v vs ih =>
    cases vs with
    | nil => exact spaced_singleton _
    | cons w vs => exact spaced_append (spaced_singleton _) ih rfl

end Sql

open Sql

theorem Predicate.spaced_sql (p : Predicate) : Spaced p.sql := by
  rcases p with ⟨accessor, test⟩
  have hoperand := spaced_operand accessor
  have hlist (vs : List Value) := spaced_parenthesized (spaced_parameterList vs)
  cases test with
  | compare c v => exact spaced_append hoperand (spaced_singleton _) (by cases c <;> rfl)
  | oneOf items =>
    cases items with
    | nil => exact spaced_singleton _
    | cons v vs => exact spaced_append hoperand (hlist (v :: vs)) rfl
  | noneOf items =>
    cases items with
    | nil => exact spaced_singleton _
    | cons v vs => exact spaced_append hoperand (hlist (v :: vs)) rfl
  | between low high =>
    have hbounds : Spaced ([.parameter low.parameter] ++ verbatim " AND " ::
        [.parameter high.parameter]) :=
      spaced_append (spaced_singleton _) (spaced_singleton _) rfl
    exact spaced_append hoperand hbounds rfl

theorem Predicate.spaced_sqlInConjunction (p : Predicate) : Spaced p.sqlInConjunction := by
  unfold sqlInConjunction
  split
  · exact spaced_parenthesized p.spaced_sql
  · exact p.spaced_sql

theorem Sql.spaced_conjunction (ps : List Predicate) : Spaced (conjunction ps) := by
  induction ps with
  | nil => exact spaced_nil
  | cons p ps ih =>
    cases ps with
    | nil => exact p.spaced_sqlInConjunction
    | cons q ps => exact spaced_append p.spaced_sqlInConjunction ih rfl

theorem Condition.spaced_sql (c : Condition) : Spaced c.sql := by
  rcases c with ⟨ps, hps⟩
  match ps, hps with
  | [p], _ => exact p.spaced_sql
  | p :: q :: ps, _ => exact spaced_conjunction (p :: q :: ps)

theorem SortTerm.spaced_orderSql (t : SortTerm) : Spaced t.orderSql := by
  cases t with
  | accessor sql d => exact spaced_verbatim_cons (spaced_singleton _)
  | column name d => exact spaced_name_cons (spaced_singleton _)

/-- Every statement is spaced, whatever its fields are. -/
theorem Sql.spaced_selectAll (table : Text) (c? : Option Condition) (o? : Option SortTerm) :
    Spaced (selectAll table c? o?) := by
  have hwhere : Spaced (whereClause c?) := by
    cases c? with
    | none => exact spaced_nil
    | some c => exact spaced_verbatim_cons c.spaced_sql
  refine spaced_verbatim_cons (spaced_name_cons ?_)
  cases o? with
  | none => simpa [orderClause] using hwhere
  | some o => exact spaced_append hwhere o.spaced_orderSql rfl

/-! ## The parameters of a statement -/

/-- The parameters in a piece, of which there is at most one. -/
def Sql.Piece.parameters : Piece → List Parameter
  | .parameter p => [p]
  | _ => []

theorem Sql.parameters_eq_flatMap (s : Statement) : parameters s = s.flatMap Piece.parameters := by
  induction s with
  | nil => rfl
  | cons piece s ih => cases piece <;> simpa [parameters, Piece.parameters] using ih

theorem Predicate.gathered_parameters (p : Predicate) :
    p.gathered Piece.parameters = p.test.operands.map Value.parameter := by
  rcases p with ⟨accessor, _ | (_ | _) | (_ | _) | _⟩ <;>
    simp [gathered, Test.isConstant, Test.operands, Piece.parameters, List.map_eq_flatMap]

theorem Predicate.operands_ofFilter (f : Filter) :
    (ofFilter f).test.operands.map Value.parameter = f.bindings := by
  unfold ofFilter Filter.bindings
  cases h : (FieldPath.of f.field).isJson <;> simp [h, Function.comp_def]

/-- The parameters of a statement are the bindings of its filters, in order. -/
theorem Sql.parameters_selectFiltered (table : Text) (fs : List Filter)
    (sort? : Option SortOrder) :
    parameters (selectFiltered table fs sort?) = fs.flatMap Filter.bindings := by
  have hfs : ∀ f ∈ fs, (Predicate.ofFilter f).gathered Piece.parameters = f.bindings := by
    intro f _
    rw [Predicate.gathered_parameters, Predicate.operands_ofFilter]
  have hsort : ((sort?.map SortOrder.term).toList.flatMap fun o => o.piece.parameters) = [] := by
    rw [List.flatMap_eq_nil_iff]
    intro o _
    cases o <;> rfl
  rw [parameters_eq_flatMap, selectFiltered, Filter.conjunction?_eq, gather_selectAll fun _ _ => rfl,
    hsort, List.append_nil, List.flatMap_map, List.flatMap_congr hfs]
  rfl

/-! ## Characters that no field contains -/

namespace Sql

/-- A character outside of the vocabulary that neither the table nor a field contains is in no
SQL and in no name of the statement. -/
theorem lacks_of_mem_selectFiltered {c : Char} (hvocabulary : ∀ t ∈ vocabulary, c ∉ t)
    (haccessor : c ∉ ". ->> '".toList) {table : Text} (htable : c ∉ table) {fs : List Filter}
    (hfs : ∀ f ∈ fs, c ∉ f.field) {sort? : Option SortOrder} (hsort : ∀ o ∈ sort?, c ∉ o.field) :
    ∀ piece ∈ selectFiltered table fs sort?, piece.Lacks c := by
  apply forall_mem_selectAll
  · exact hvocabulary
  · exact fun q => trivial
  · exact htable
  · intro condition hcondition p hp
    rw [Filter.conjunction?_eq] at hcondition
    rw [Condition.predicates_of_mem hcondition] at hp
    obtain ⟨f, hf, rfl⟩ := List.mem_map.mp hp
    exact FieldPath.not_mem_accessor haccessor (hfs f hf)
  · intro t ht
    obtain ⟨o, ho, rfl⟩ := Option.map_eq_some_iff.mp ht
    unfold SortOrder.term
    dsimp only
    split
    · exact FieldPath.not_mem_accessor haccessor (hsort o ho)
    · exact hsort o ho

/-- Every dialect is sent the bindings of the filters in order; where names and fields contain
neither a question mark nor a dollar sign, the text has one question mark for each of them, or
one dollar sign with each number from one on. -/
theorem placeholders_match_bindings {table : Text} (htable : '?' ∉ table ∧ '$' ∉ table)
    {fs : List Filter} (hfs : ∀ f ∈ fs, '?' ∉ f.field ∧ '$' ∉ f.field) {sort? : Option SortOrder}
    (hsort : ∀ o ∈ sort?, '?' ∉ o.field ∧ '$' ∉ o.field) :
    (∀ d, build d (selectFiltered table fs sort?) =
        (render d (selectFiltered table fs sort?), fs.flatMap Filter.bindings)) ∧
      (render .mysql (selectFiltered table fs sort?)).count '?' =
        (fs.flatMap Filter.bindings).length ∧
      (render .sqlite (selectFiltered table fs sort?)).count '?' =
        (fs.flatMap Filter.bindings).length ∧
      dollarNumbers (render .postgres (selectFiltered table fs sort?)) =
        (List.range' 1 (fs.flatMap Filter.bindings).length).map Text.decimal := by
  have hparameters := parameters_selectFiltered table fs sort?
  have hquestion := lacks_of_mem_selectFiltered (c := '?') (by decide) (by decide) htable.1
    (fun f hf => (hfs f hf).1) (fun o ho => (hsort o ho).1)
  have hdollar := lacks_of_mem_selectFiltered (c := '$') (by decide) (by decide) htable.2
    (fun f hf => (hfs f hf).2) (fun o ho => (hsort o ho).2)
  refine ⟨fun d => ?_, ?_, ?_, ?_⟩
  · rw [build_eq, hparameters]
  · rw [← hparameters]
    exact count_renderFrom (d := .mysql) (fun _ => rfl) (by decide) hquestion 1
  · rw [← hparameters]
    exact count_renderFrom (d := .sqlite) (fun _ => rfl) (by decide) hquestion 1
  · rw [← hparameters]
    exact dollarNumbers_renderFrom hdollar (spaced_selectAll table _ _) 1

/-- Ten elements make a placeholder of two digits, an empty list makes none. -/
theorem placeholders_match_eleven_bindings :
    let fs : List Filter :=
      [⟨"role".toList, .oneOf (List.replicate 10 (.bool true)), by decide⟩,
        ⟨"meta.none".toList, .noneOf [], by decide⟩,
        ⟨"meta.vip".toList, .compare .eq (.bool true), by decide⟩]
    (∀ f ∈ fs, '?' ∉ f.field ∧ '$' ∉ f.field) ∧
      fs.flatMap Filter.bindings =
        List.replicate 10 (.bool true) ++ [.text "true".toList] ∧
      dollarNumbers (render .postgres (selectFiltered "t".toList fs none)) =
        ["1".toList, "2".toList, "3".toList, "4".toList, "5".toList, "6".toList, "7".toList,
          "8".toList, "9".toList, "10".toList, "11".toList] := by
  intro fs
  have hfs : ∀ f ∈ fs, '?' ∉ f.field ∧ '$' ∉ f.field := by decide
  have h := placeholders_match_bindings (by decide : '?' ∉ "t".toList ∧ '$' ∉ "t".toList) hfs
    (by simp : ∀ o ∈ (none : Option SortOrder), '?' ∉ o.field ∧ '$' ∉ o.field)
  exact ⟨hfs, rfl, h.2.2.2.trans (by decide)⟩

end Sql

end Listing
