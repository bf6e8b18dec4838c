import Listing.Filter.Draft

/-!
# The batch language

A batch writes several filters in one text: tokens `field:operator:value` separated by commas.
A comma inside brackets does not separate. The bracket depth starts at zero; an opening bracket
adds one and a closing bracket takes one away, but never below zero. Only the first two colons
of a token separate its parts, so a value may hold colons.
-/

namespace Listing
namespace Batch

def depthAfter (depth : Nat) (c : Char) : Nat :=
  if c = '[' then depth + 1 else if c = ']' then depth - 1 else depth

/-- The bracket depth at the end of a text. -/
def scan (depth : Nat) (t : Text) : Nat := t.foldl depthAfter depth

/-- The parts between the commas at depth zero. -/
def splitFrom (depth : Nat) : Text → List Text
  | [] => [[]]
  | c :: t =>
    if c = ',' ∧ depth = 0 then [] :: splitFrom 0 t
    else (splitFrom (depthAfter depth c) t).modifyHead (c :: ·)

/-- The tokens of a batch, trimmed, without the blank ones. -/
def splitTopLevel (t : Text) : List Text := Text.trimmedParts (splitFrom 0 t)

/-- A token without a colon is no filter. With one colon, a known operator has the empty value
and anything else is the value of an equality. -/
def draft? (token : Text) : Option Draft :=
  (Text.cut? ':' token).map fun (field, rest) =>
    match Text.cut? ':' rest with
    | some (key, value) => Draft.ofRaws field (Operator.ofKeyOrEq (some key)) [value]
    | none =>
      match Operator.ofKey? rest with
      | some op => Draft.ofRaws field op [[]]
      | none => Draft.ofRaws field (.compare .eq) [rest]

def drafts (raws : List Text) : List Draft := (raws.flatMap splitTopLevel).filterMap draft?

/-- The filter of one token. -/
def readToken (now : Instant) (token : Text) : Except OutOfRange (Option Filter) :=
  match draft? token with
  | some d => d.resolve now
  | none => .ok none

end Batch
end Listing
