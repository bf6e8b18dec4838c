import Listing.Text.Blank

/-!
# Numerals

Decimal texts of numbers, digits of a fixed width, and the reading of a count. A count is a
natural number below 2^64; its numeral may carry one leading plus sign and any number of
leading zeros, and a numeral beyond the last count is not read at all.
-/

namespace Listing

/-- The last count. -/
def maxCount : Nat := UInt64.size - 1

namespace Text

def decimal (n : Nat) : Text := Nat.toDigits 10 n

def signedDecimal : Int → Text
  | .ofNat n => decimal n
  | .negSucc n => '-' :: decimal (n + 1)

/-- The last `width` decimal digits of a number, leading zeros included. -/
def fixedDecimal : Nat → Nat → Text
  | 0, _ => []
  | width + 1, n => fixedDecimal width (n / 10) ++ [Nat.digitChar (n % 10)]

def digitValue (c : Char) : Nat := c.toNat - '0'.toNat

/-- The number that a text of decimal digits denotes. -/
def digitsValue (digits : Text) : Nat :=
  digits.foldl (fun value c => 10 * value + digitValue c) 0

def dropPlus : Text → Text
  | '+' :: t => t
  | t => t

def readCount? (t : Text) : Option Nat :=
  let digits := dropPlus t
  if digits ≠ [] ∧ digits.all Char.isDigit ∧ digitsValue digits ≤ maxCount then
    some (digitsValue digits)
  else
    none

@[simp] theorem length_fixedDecimal (width n : Nat) : (fixedDecimal width n).length = width := by
  induction width generalizing n with
  | zero => rfl
  | succ width ih => simp [fixedDecimal, ih]

theorem isDigit_of_mem_decimal {n : Nat} {c : Char} (h : c ∈ decimal n) : c.isDigit = true :=
  Nat.isDigit_of_mem_toDigits (by decide) (by decide) h

end Text
end Listing
