import Listing.Params
import Listing.Uri.Authority

/-!
# Request targets

A request is made for a URI, of which only the query matters here: what stands after the first
question mark and before a number sign. A URI is a path with an optional query, a star, an
authority alone, or a scheme and an authority with an optional path and query.
-/

namespace Listing

structure Uri where
  query? : Option Text
  deriving DecidableEq, Repr

namespace Uri

/-- The greatest length in octets. -/
def maxLength : Nat := 65534

def maxSchemeLength : Nat := 64

def isSchemeChar (c : Char) : Bool := c.isAlphanum || "+-.~".toList.contains c

/-- The blanks and control characters of ASCII, which stand neither in a path nor in a query. -/
def isControl (c : Char) : Bool := c.toNat ≤ 0x20 || c.toNat = 0x7F

/-- Quotes and braces need no escape in a path, nor does any character outside ASCII. -/
def isPathChar (c : Char) : Bool := !isControl c && !"#<>?`".toList.contains c

/-- A query may hold what a path may, and backquotes and question marks, but no quotes. -/
def isQueryChar (c : Char) : Bool := !isControl c && !"\"#<>".toList.contains c

def endsPath (c : Char) : Bool := c = '?' || c = '#'

def endsAuthority (c : Char) : Bool := c = '/' || endsPath c

/-- A path with an optional query; what follows a number sign is not looked at. -/
def ofPath? (t : Text) : Option Uri :=
  let path := t.takeWhile fun c => !endsPath c
  if path.all isPathChar then
    match t.dropWhile fun c => !endsPath c with
    | '?' :: rest =>
      let query := rest.takeWhile (· ≠ '#')
      if query.all isQueryChar then some ⟨some query⟩ else none
    | _ => some ⟨none⟩
  else
    none

/-- The scheme and what follows it, if the text has a scheme. -/
def cutScheme? (t : Text) : Option (Text × Text) :=
  match t.dropWhile isSchemeChar with
  | ':' :: '/' :: '/' :: rest => some (t.takeWhile isSchemeChar, rest)
  | _ => none

def ofAbsolute? (scheme rest : Text) : Option Uri :=
  let authority := rest.takeWhile fun c => !endsAuthority c
  if scheme.length ≤ maxSchemeLength ∧ authority ≠ [] ∧ Authority.isValid authority then
    ofPath? (rest.dropWhile fun c => !endsAuthority c)
  else
    none

def of? (t : Text) : Option Uri :=
  if t = [] ∨ maxLength < (Utf8.encode t).length then none
  else if t = ['*'] then some ⟨none⟩
  else if t.head? = some '/' then ofPath? t
  else
    match cutScheme? t with
    | some (scheme, rest) => ofAbsolute? scheme rest
    | none => if Authority.isValid t then some ⟨none⟩ else none

end Uri

/-- The parameters of a request for a URI; there are none without a query. -/
def Params.ofUri (u : Uri) : Params :=
  match u.query? with
  | some query => ofQuery query
  | none => empty

end Listing
