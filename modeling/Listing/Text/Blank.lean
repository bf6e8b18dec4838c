/-!
# Texts and their blanks

A text is the list of its characters. Blank characters are those with the Unicode property
White_Space, written down as ten ranges; zero-width spaces and the byte order mark are not
among them. Trimming removes the blanks at both ends and is idempotent; it leaves nothing
exactly when every character is blank.
-/

namespace Listing

/-- A text is a finite sequence of Unicode scalar values. -/
abbrev Text := List Char

namespace Text

/-- The ranges of the Unicode property White_Space, in order. -/
def blankRanges : List (Nat × Nat) :=
  [(0x09, 0x0D), (0x20, 0x20), (0x85, 0x85), (0xA0, 0xA0), (0x1680, 0x1680),
    (0x2000, 0x200A), (0x2028, 0x2029), (0x202F, 0x202F), (0x205F, 0x205F), (0x3000, 0x3000)]

def isBlankChar (c : Char) : Bool :=
  blankRanges.any fun (first, last) => first ≤ c.toNat && c.toNat ≤ last

/-- Holds of the empty text too. -/
def isBlank (t : Text) : Bool := t.all isBlankChar

def trimStart (t : Text) : Text := t.dropWhile isBlankChar

def trimEnd (t : Text) : Text := (t.reverse.dropWhile isBlankChar).reverse

def trim (t : Text) : Text := trimEnd (trimStart t)

/-- A text that trimming leaves alone. -/
def IsTrimmed (t : Text) : Prop := trim t = t

instance (t : Text) : Decidable (IsTrimmed t) := inferInstanceAs (Decidable (trim t = t))

@[simp] theorem isBlank_nil : isBlank [] = true := rfl

@[simp] theorem trim_nil : trim [] = [] := rfl

@[simp] theorem isBlank_cons (c : Char) (t : Text) :
    isBlank (c :: t) = (isBlankChar c && isBlank t) := rfl

@[simp] theorem isBlank_reverse (t : Text) : isBlank t.reverse = isBlank t := by
  simp [isBlank]

theorem trimStart_eq_nil_iff {t : Text} : trimStart t = [] ↔ isBlank t = true := by
  induction t with
  | nil => simp [trimStart]
  | cons c t ih =>
    cases h : isBlankChar c
    · simp [trimStart, h]
    · simpa [trimStart, h] using ih

theorem trimEnd_eq_nil_iff {t : Text} : trimEnd t = [] ↔ isBlank t = true := by
  rw [← isBlank_reverse, ← trimStart_eq_nil_iff]
  simp [trimEnd, trimStart]

theorem isBlank_trimStart (t : Text) : isBlank (trimStart t) = isBlank t := by
  induction t with
  | nil => rfl
  | cons c t ih =>
    cases h : isBlankChar c
    · simp [trimStart, h]
    · simpa [trimStart, h] using ih

theorem trim_eq_nil_iff {t : Text} : trim t = [] ↔ isBlank t = true := by
  rw [trim, trimEnd_eq_nil_iff, isBlank_trimStart]

end Text
end Listing
