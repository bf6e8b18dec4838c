import Listing.Text.Split
import Listing.Text.Utf8

/-!
# Form-encoded pairs

A form-encoded text is a list of `name=value` pairs joined by `&`. In names and values a plus
sign is a space and `%XX` is one octet; a percent sign without two hexadecimal digits stands for
itself, and every other character stands for its own octets. The octets are then read as UTF-8.
-/

namespace Listing
namespace Form

/-- The value of a hexadecimal digit in either case. -/
def hexValue? (c : Char) : Option Nat :=
  if '0' ≤ c ∧ c ≤ '9' then some (c.toNat - '0'.toNat)
  else if 'a' ≤ c ∧ c ≤ 'f' then some (c.toNat - 'a'.toNat + 10)
  else if 'A' ≤ c ∧ c ≤ 'F' then some (c.toNat - 'A'.toNat + 10)
  else none

/-- The octet written by two hexadecimal digits. -/
def hexOctet? (high low : Char) : Option UInt8 :=
  match hexValue? high, hexValue? low with
  | some h, some l => some (UInt8.ofNat (16 * h + l))
  | _, _ => none

def octets : Text → List UInt8
  | [] => []
  | '+' :: t => 0x20 :: octets t
  | '%' :: h :: l :: t =>
    match hexOctet? h l with
    | some octet => octet :: octets t
    | none => 0x25 :: octets (h :: l :: t)
  | c :: t => String.utf8EncodeChar c ++ octets t

def decodeText (t : Text) : Text := Utf8.decode (octets t)

/-- A pair is cut at its first equals sign; without one the value is empty. -/
def decodePair (t : Text) : Text × Text :=
  match Text.cut? '=' t with
  | some (name, value) => (decodeText name, decodeText value)
  | none => (decodeText t, [])

/-- Empty pairs do not count. -/
def decode (t : Text) : List (Text × Text) :=
  ((Text.split '&' t).filter fun pair => !pair.isEmpty).map decodePair

end Form
end Listing
