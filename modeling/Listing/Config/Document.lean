import Listing.Config

/-!
# Configuration documents

A configuration is read from a JSON object, or from an array that gives the fields by position.
A field that is missing has its default value; one that is present must have its type, and what
is not a field does not matter. A character is a text of one character, and a strategy is its key
or an object with that key alone and the value null.
-/

namespace Listing
namespace Config

/-- The fields in the order in which an array gives them. -/
def fieldNames : List Text :=
  ["default_per_page".toList, "max_per_page".toList, "search_strategy".toList,
    "filters_key".toList, "keyword_delimiter".toList, "reserved_params".toList]

def fields? : Json → Option (List (Text × Json))
  | .object members => some members
  | .array items => if items.length ≤ fieldNames.length then some (fieldNames.zip items) else none
  | _ => none

def readCount? : Json → Option Nat
  | .integer (.ofNat n) => if n ≤ maxCount then some n else none
  | _ => none

def readText? : Json → Option Text
  | .text t => some t
  | _ => none

def readChar? : Json → Option Char
  | .text [c] => some c
  | _ => none

def readStrategy? : Json → Option Strategy
  | .text key => Strategy.ofKey? key
  | .object [(key, .null)] => Strategy.ofKey? key
  | _ => none

def readTexts? : Json → Option (List Text)
  | .array items => items.mapM readText?
  | _ => none

def field {α : Type} (fields : List (Text × Json)) (name : String) (read : Json → Option α)
    (missing : α) : Option α :=
  match fields.lookup name.toList with
  | some value => read value
  | none => some missing

def ofJson? (document : Json) : Option Config := do
  let fields ← fields? document
  let defaultPerPage ← field fields "default_per_page" readCount? default.defaultPerPage
  let maxPerPage ← field fields "max_per_page" readCount? default.maxPerPage
  let strategy ← field fields "search_strategy" readStrategy? default.strategy
  let batchKey ← field fields "filters_key" readText? default.batchKey
  let delimiter ← field fields "keyword_delimiter" readChar? default.delimiter
  let reserved ← field fields "reserved_params" readTexts? default.reserved
  return { defaultPerPage, maxPerPage, strategy, batchKey, delimiter, reserved }

end Config
end Listing
