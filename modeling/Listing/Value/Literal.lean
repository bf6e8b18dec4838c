import Listing.Text.Split
import Listing.Value.Dynamic

/-!
# Reading values

A scalar is read as a clock token, else as a date (its midnight), else as one of the words
`true`, `false` and `null`, and else as a text. A list literal is a comma-separated list that may
stand in one pair of brackets, either of which may be missing.
-/

namespace Listing
namespace Value

/-- The value of a scalar that does not depend on the clock. -/
def ofLiteral (t : Text) : Value :=
  match (Date.read? t).bind Instant.midnight? with
  | some i => instant i
  | none =>
    if t = "true".toList then bool true
    else if t = "false".toList then bool false
    else if t = "null".toList then null
    else text t

def read (now : Instant) (t : Text) : Except OutOfRange Value :=
  match Dynamic.ofToken? t with
  | some token => token.resolve now
  | none => .ok (ofLiteral t)

theorem read_of_ofToken?_eq_none {t : Text} (h : Dynamic.ofToken? t = none) (now : Instant) :
    read now t = .ok (ofLiteral t) := by
  rw [read, h]

def dropOpen : Text → Text
  | '[' :: t => t
  | t => t

def dropClose (t : Text) : Text :=
  if t.getLast? = some ']' then t.dropLast else t

/-- The elements of a list literal, trimmed, without the blank ones. -/
def splitList (t : Text) : List Text := Text.pieces ',' (dropClose (dropOpen (Text.trim t)))

end Value
end Listing
