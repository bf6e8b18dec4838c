import Listing.Proofs.Sql.Pieces
import Mathlib.Data.List.Basic

/-!
# Reading the literals of a statement

A text of SQL is read by the literal rule alone: a single quote opens a literal, two single quotes
inside it are one quote character, and a lone one closes it. Reading gives the text outside of
literals, the literals as they were meant, and whether the text ends outside.

Reading a text piece by piece needs some care, since a quote at the end of one piece and a quote at
the start of the next would be one character. No piece of a statement starts with a quote, so a
statement is read piece by piece all the same.
-/

namespace Listing
namespace Sql

/-- Where a reader of literals is. After a quote inside a literal, the next character decides
whether the literal goes on. -/
inductive Place where
  | outside
  | inside
  | afterQuote
  deriving DecidableEq, Repr

/-- What has been read: the text without its literals, the literals, and whether all are closed. -/
structure Reading where
  outside : Text
  literals : List Text
  closed : Bool
  deriving DecidableEq, Repr

namespace Reading

/-- One reading after another, the first of which ended outside. -/
def append (r q : Reading) : Reading := ⟨r.outside ++ q.outside, r.literals ++ q.literals, q.closed⟩

/-- Adds text to the front of the first literal. -/
def extend (t : Text) (r : Reading) : Reading := { r with literals := r.literals.modifyHead (t ++ ·) }

/-- Starts a literal that is empty so far. -/
def start (r : Reading) : Reading := { r with literals := [] :: r.literals }

@[simp] theorem extend_nil (r : Reading) : r.extend [] = r := by
  rcases r with ⟨outside, _ | ⟨literal, literals⟩, closed⟩ <;> rfl

theorem extend_extend (t u : Text) (r : Reading) : (r.extend u).extend t = r.extend (t ++ u) := by
  rcases r with ⟨outside, _ | ⟨literal, literals⟩, closed⟩ <;> simp [extend]

theorem append_assoc (r q p : Reading) : (r.append q).append p = r.append (q.append p) := by
  simp [append]

end Reading

def read : Place → Text → Reading
  | .outside, [] => ⟨[], [], true⟩
  | .inside, [] => ⟨[], [[]], false⟩
  | .afterQuote, [] => ⟨[], [[]], true⟩
  | .outside, c :: t =>
    if c = '\'' then read .inside t else Reading.append ⟨[c], [], true⟩ (read .outside t)
  | .inside, c :: t =>
    if c = '\'' then read .afterQuote t else (read .inside t).extend [c]
  | .afterQuote, c :: t =>
    if c = '\'' then (read .inside t).extend [c]
    else (Reading.append ⟨[c], [], true⟩ (read .outside t)).start

/-- What stands outside of the literals of a text. -/
def outsideText (t : Text) : Text := (read .outside t).outside

/-- The literals of a text, as they are meant. -/
def literals (t : Text) : List Text := (read .outside t).literals

theorem read_append_of_not_mem {t : Text} (h : '\'' ∉ t) (u : Text) :
    read .outside (t ++ u) = Reading.append ⟨t, [], true⟩ (read .outside u) := by
  induction t with
  | nil => rfl
  | cons c t ih =>
    obtain ⟨hc, ht⟩ := not_or.mp (mt List.mem_cons.mpr h)
    rw [List.cons_append, read, if_neg (Ne.symm hc), ih ht, ← Reading.append_assoc]
    rfl

theorem read_of_not_mem {t : Text} (h : '\'' ∉ t) : read .outside t = ⟨t, [], true⟩ := by
  simpa [read, Reading.append] using read_append_of_not_mem h []

/-- Inside a literal, doubled quotes are read as the text that was quoted. -/
theorem read_inside_doubled (key u : Text) :
    read .inside (Text.doubled '\'' key ++ u) = (read .inside u).extend key := by
  induction key with
  | nil => simp [Text.doubled]
  | cons c key ih =>
    by_cases hc : c = '\''
    · simp only [Text.doubled, hc, if_true, List.cons_append, read, ih, Reading.extend_extend]
      rfl
    · simp only [Text.doubled, hc, if_false, List.cons_append, read, ih, Reading.extend_extend]
      rfl

theorem read_afterQuote {u : Text} (hu : u.head? ≠ some '\'') :
    read .afterQuote u = (read .outside u).start := by
  cases u with
  | nil => rfl
  | cons c u =>
    have hc : c ≠ '\'' := fun h => hu (congrArg some h)
    simp only [read, if_neg hc]

/-- A quoted key is read as one literal, which is the key. -/
theorem read_quoted_append (key : Text) {u : Text} (hu : u.head? ≠ some '\'') :
    read .outside (Text.quoted '\'' key ++ u) =
      Reading.append ⟨[], [key], true⟩ (read .outside u) := by
  have hclose : read .inside ('\'' :: u) = (read .outside u).start := by
    rw [read, if_pos rfl, read_afterQuote hu]
  calc
    read .outside (Text.quoted '\'' key ++ u)
        = read .inside (Text.doubled '\'' key ++ '\'' :: u) := by simp [Text.quoted, read]
    _ = ((read .outside u).start).extend key := by rw [read_inside_doubled, hclose]
    _ = Reading.append ⟨[], [key], true⟩ (read .outside u) := by
      simp [Reading.start, Reading.extend, Reading.append]

/-! ## Texts that are read apart from what follows -/

/-- A text that does not start with a quote and is read apart from any other such text. -/
def Detached (t : Text) : Prop :=
  t.head? ≠ some '\'' ∧ ∀ u : Text, u.head? ≠ some '\'' →
    read .outside (t ++ u) = (read .outside t).append (read .outside u)

theorem detached_of_not_mem {t : Text} (h : '\'' ∉ t) : Detached t := by
  refine ⟨fun hhead => h (List.mem_of_mem_head? hhead), fun u _ => ?_⟩
  rw [read_append_of_not_mem h, read_of_not_mem h]

theorem vocabulary_not_mem {t : Text} (h : t ∈ vocabulary) : '\'' ∉ t := by
  revert t
  decide

theorem outsideText_of_mem_vocabulary {t : Text} (h : t ∈ vocabulary) : outsideText t = t := by
  rw [outsideText, read_of_not_mem (vocabulary_not_mem h)]

theorem placeholder_not_mem (d : Dialect) (number : Nat) : '\'' ∉ d.placeholder number := by
  have hdecimal : '\'' ∉ Text.decimal number := fun h =>
    absurd (Text.isDigit_of_mem_decimal h) (by decide)
  cases d <;> simp [Dialect.placeholder, hdecimal]

theorem nameMark_ne (d : Dialect) : '\'' ≠ d.nameMark := by
  cases d <;> decide

namespace Piece

/-- A piece whose text, in any dialect, is read apart from the text around it. -/
def IsDetached : Piece → Prop
  | .verbatim t => Detached t
  | .name t => '\'' ∉ t
  | .parameter _ => True

/-- The literals in the text of a piece; names and placeholders have none. -/
def literals : Piece → List Text
  | .verbatim t => Sql.literals t
  | .name _ => []
  | .parameter _ => []

end Piece

/-- The literals in the text of a statement, piece by piece. -/
def statementLiterals (s : Statement) : List Text := s.flatMap Piece.literals

/-- A statement of detached pieces is read piece by piece, and its reading ends outside of
literals. -/
theorem read_renderFrom {s : Statement} (h : ∀ piece ∈ s, piece.IsDetached) (d : Dialect)
    (number : Nat) : (renderFrom d number s).head? ≠ some '\'' ∧
      read .outside (renderFrom d number s) =
        ⟨renderFrom d number (outline outsideText s), statementLiterals s, true⟩ := by
  induction s generalizing number with
  | nil => exact ⟨by simp [renderFrom], rfl⟩
  | cons piece s ih =>
    obtain ⟨hpiece, hs⟩ := List.forall_mem_cons.mp h
    -- Names and placeholders hold no quote, so they are read as they stand.
    have hplain : ∀ (t : Text) (next : Nat), '\'' ∉ t →
        (t ++ renderFrom d next s).head? ≠ some '\'' ∧
          read .outside (t ++ renderFrom d next s) =
            ⟨t ++ renderFrom d next (outline outsideText s), statementLiterals s, true⟩ := by
      intro t next ht
      obtain ⟨hhead, hread⟩ := ih hs next
      refine ⟨?_, by rw [read_append_of_not_mem ht, hread]; rfl⟩
      cases t with
      | nil => exact hhead
      | cons c t => exact fun hc => ht (by simp_all)
    cases piece with
    | verbatim t =>
      obtain ⟨hhead, hread⟩ := ih hs number
      refine ⟨?_, ?_⟩
      · cases t with
        | nil => exact hhead
        | cons c t => exact hpiece.1
      · rw [renderFrom, hpiece.2 _ hhead, hread]
        simp [Reading.append, statementLiterals, Piece.literals, literals, renderFrom, outsideText]
    | name t =>
      simpa [statementLiterals, Piece.literals, renderFrom] using
        hplain _ number (Text.not_mem_quoted (nameMark_ne d) hpiece)
    | parameter p =>
      simpa [statementLiterals, Piece.literals, renderFrom] using
        hplain _ (number + 1) (placeholder_not_mem d number)

@[simp] theorem literals_name (t : Text) : (Piece.name t).literals = [] := rfl

@[simp] theorem literals_parameter (p : Parameter) : (Piece.parameter p).literals = [] := rfl

theorem literals_of_mem_vocabulary {t : Text} (h : t ∈ vocabulary) :
    (Piece.verbatim t).literals = [] := by
  rw [Piece.literals, literals, read_of_not_mem (vocabulary_not_mem h)]

end Sql
end Listing
