import Listing.Text.Blank

/-!
# Quoting by doubling

A quoted text stands between two marks, and a mark inside it is written twice. SQL writes its
string literals with single quotes and its identifiers with a dialect's own mark in this way.
-/

namespace Listing
namespace Text

/-- The text with every mark written twice. -/
def doubled (mark : Char) : Text → Text
  | [] => []
  | c :: t => if c = mark then mark :: mark :: doubled mark t else c :: doubled mark t

def quoted (mark : Char) (t : Text) : Text := mark :: doubled mark t ++ [mark]

/-- Only marks are written more often than they stand in the text. -/
theorem count_doubled {mark c : Char} (h : c ≠ mark) (t : Text) :
    (doubled mark t).count c = t.count c := by
  induction t with
  | nil => rfl
  | cons b t ih =>
    by_cases hb : b = mark
    · subst hb
      simp [doubled, List.count_cons_of_ne (Ne.symm h), ih]
    · simp [doubled, hb, List.count_cons, ih]

theorem count_quoted {mark c : Char} (h : c ≠ mark) (t : Text) :
    (quoted mark t).count c = t.count c := by
  have hmark : [mark].count c = 0 := List.count_cons_of_ne (Ne.symm h)
  rw [quoted, List.cons_append, List.count_cons_of_ne (Ne.symm h), List.count_append,
    count_doubled h, hmark, Nat.add_zero]

theorem not_mem_quoted {mark c : Char} {t : Text} (hc : c ≠ mark) (h : c ∉ t) :
    c ∉ quoted mark t := by
  rwa [← List.count_eq_zero, count_quoted hc, List.count_eq_zero]

end Text
end Listing
