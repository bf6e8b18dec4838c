import Listing.Text.Blank

/-!
# Authorities

The part of a URI that names the host, with an optional user before an at sign and an optional
port after a colon. One pass over the characters keeps count of what matters at the end: an
address in brackets and the user may hold several colons or percent signs, the rest may hold one
colon and no percent sign, and something must follow the last at sign.
-/

namespace Listing
namespace Authority

/-- What is known about the characters so far. -/
structure Progress where
  colons : Nat
  opened : Bool
  closed : Bool
  percent : Bool
  afterAt : Bool
  deriving DecidableEq, Repr

def Progress.initial : Progress := ⟨0, false, false, false, false⟩

def maxColons : Nat := 8

/-- The characters without a role of their own. -/
def isPlainChar (c : Char) : Bool :=
  c.isAlphanum || "!$&'()*+,-.;=_~".toList.contains c

def step (p : Progress) (c : Char) : Option Progress :=
  let p := { p with afterAt := c = '@' }
  if c = ':' then
    if p.colons < maxColons then some { p with colons := p.colons + 1 } else none
  else if c = '[' then
    if p.percent || p.opened then none else some { p with opened := true }
  else if c = ']' then
    if p.opened && !p.closed then some { p with colons := 0, closed := true, percent := false }
    else none
  else if c = '@' then some { p with colons := 0, percent := false }
  else if c = '%' then some { p with percent := true }
  else if isPlainChar c then some p
  else none

def Progress.isComplete (p : Progress) : Bool :=
  p.opened == p.closed && p.colons ≤ 1 && !p.percent && !p.afterAt

def isValid (t : Text) : Bool :=
  match t.foldlM step Progress.initial with
  | some p => p.isComplete
  | none => false

end Authority
end Listing
