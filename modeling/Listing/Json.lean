import Listing.Text.Numeral

/-!
# JSON

JSON values and their compact text: no spaces, members in the order given, and only the quote,
the backslash and the characters below U+0020 escaped. A number with a fraction or an exponent
is kept as it was written; it is not an integer even when its value is whole.
-/

namespace Listing

inductive Json where
  | null
  | bool (b : Bool)
  | integer (i : Int)
  | decimal (written : Text)
  | text (t : Text)
  | array (items : List Json)
  | object (members : List (Text × Json))
  deriving Repr

namespace Json

/-- The short escapes have a letter of their own, other control characters four digits. -/
def escapeChar (c : Char) : Text :=
  if c = '"' then ['\\', '"']
  else if c = '\\' then ['\\', '\\']
  else if c = '\x08' then ['\\', 'b']
  else if c = '\x0c' then ['\\', 'f']
  else if c = '\n' then ['\\', 'n']
  else if c = '\r' then ['\\', 'r']
  else if c = '\t' then ['\\', 't']
  else if c.toNat < 0x20 then
    ['\\', 'u', '0', '0', Nat.digitChar (c.toNat / 16), Nat.digitChar (c.toNat % 16)]
  else [c]

def quote (t : Text) : Text := '"' :: t.flatMap escapeChar ++ ['"']

mutual

def render : Json → Text
  | null => "null".toList
  | bool true => "true".toList
  | bool false => "false".toList
  | integer i => Text.signedDecimal i
  | decimal written => written
  | text t => quote t
  | array items => '[' :: renderItems items ++ [']']
  | object members => '{' :: renderMembers members ++ ['}']

def renderItems : List Json → Text
  | [] => []
  | [item] => render item
  | item :: next :: items => render item ++ ',' :: renderItems (next :: items)

def renderMembers : List (Text × Json) → Text
  | [] => []
  | [(name, value)] => quote name ++ ':' :: render value
  | (name, value) :: next :: members =>
    quote name ++ ':' :: render value ++ ',' :: renderMembers (next :: members)

end

/-- A whole number that is not negative. -/
def natural (n : Nat) : Json := integer n

/-- The value of an optional part, null without one. -/
def option {α : Type} (f : α → Json) : Option α → Json
  | none => null
  | some a => f a

end Json
end Listing
