import Listing.Text.Blank

/-!
# Lenient UTF-8

The octets of a text, and the reading of any octets as a text. The reader goes through the
octets one at a time and remembers a started character: the value so far, how many octets it
still owes, and between which bounds the next one lies. The bounds of the second octet rule out
overlong forms, surrogates and values past U+10FFFF. An octet that does not continue a started
character ends it with one replacement character and is then read afresh, so each maximal
ill-formed part of the input gives one replacement character.
-/

namespace Listing
namespace Utf8

def encode (t : Text) : List UInt8 := t.flatMap String.utf8EncodeChar

/-- U+FFFD, which stands for what cannot be read. -/
def replacement : Char := '\uFFFD'

/-- A started character. -/
structure Pending where
  value : Nat
  owed : Nat
  low : Nat
  high : Nat
  deriving DecidableEq, Repr

/-- What a leading octet of a longer sequence starts. -/
def lead? (octet : Nat) : Option Pending :=
  if octet < 0xC2 then none
  else if octet ≤ 0xDF then some ⟨octet - 0xC0, 1, 0x80, 0xBF⟩
  else if octet = 0xE0 then some ⟨0x0, 2, 0xA0, 0xBF⟩
  else if octet = 0xED then some ⟨0xD, 2, 0x80, 0x9F⟩
  else if octet ≤ 0xEF then some ⟨octet - 0xE0, 2, 0x80, 0xBF⟩
  else if octet = 0xF0 then some ⟨0, 3, 0x90, 0xBF⟩
  else if octet ≤ 0xF3 then some ⟨octet - 0xF0, 3, 0x80, 0xBF⟩
  else if octet = 0xF4 then some ⟨4, 3, 0x80, 0x8F⟩
  else none

/-- Reads an octet where a character may start. -/
def start (octet : Nat) : Text × Option Pending :=
  if octet < 0x80 then ([Char.ofNat octet], none)
  else match lead? octet with
    | some p => ([], some p)
    | none => ([replacement], none)

/-- Reads one octet: the characters that are now complete, and the started one. -/
def step : Option Pending → Nat → Text × Option Pending
  | none, octet => start octet
  | some p, octet =>
    if p.low ≤ octet ∧ octet ≤ p.high then
      let value := p.value * 64 + (octet - 0x80)
      if p.owed ≤ 1 then ([Char.ofNat value], none)
      else ([], some ⟨value, p.owed - 1, 0x80, 0xBF⟩)
    else
      let (out, next) := start octet
      (replacement :: out, next)

def decodeFrom : Option Pending → List UInt8 → Text
  | none, [] => []
  | some _, [] => [replacement]
  | state, octet :: octets =>
    let (out, next) := step state octet.toNat
    out ++ decodeFrom next octets

def decode (octets : List UInt8) : Text := decodeFrom none octets

@[simp] theorem encode_cons (c : Char) (t : Text) :
    encode (c :: t) = String.utf8EncodeChar c ++ encode t := rfl

end Utf8
end Listing
