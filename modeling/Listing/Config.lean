import Listing.Search

/-!
# Configuration

How requests are read: page sizes, the search strategy, the key of the batch, the delimiter of
keywords, and the keys that are never filters. The batch key is reserved as well, without being
listed. A step changes one of these; reserving a key that is listed already changes nothing.
-/

namespace Listing

structure Config where
  defaultPerPage : Nat
  maxPerPage : Nat
  strategy : Strategy
  batchKey : Text
  delimiter : Char
  reserved : List Text
  deriving DecidableEq, Repr

namespace Config

def defaultReserved : List Text :=
  ["page".toList, "per_page".toList, "query".toList, "keywords".toList, "order".toList,
    "include".toList, "select".toList, "group_by".toList, "format".toList]

def default : Config where
  defaultPerPage := 20
  maxPerPage := 100
  strategy := .pgSearch
  batchKey := "filters".toList
  delimiter := ','
  reserved := defaultReserved

instance : Inhabited Config := ⟨default⟩

/-- Whether a key is a control parameter and not a filter. -/
def isReserved (c : Config) (key : Text) : Bool := key = c.batchKey ∨ key ∈ c.reserved

inductive Step where
  | defaultPerPage (n : Nat)
  | maxPerPage (n : Nat)
  | strategy (s : Strategy)
  | batchKey (key : Text)
  | delimiter (c : Char)
  | reserve (key : Text)
  deriving DecidableEq, Repr

def apply (c : Config) : Step → Config
  | .defaultPerPage n => { c with defaultPerPage := n }
  | .maxPerPage n => { c with maxPerPage := n }
  | .strategy s => { c with strategy := s }
  | .batchKey key => { c with batchKey := key }
  | .delimiter d => { c with delimiter := d }
  | .reserve key => if key ∈ c.reserved then c else { c with reserved := c.reserved ++ [key] }

def applyAll (c : Config) (steps : List Step) : Config := steps.foldl apply c

theorem isReserved_iff {c : Config} {key : Text} :
    c.isReserved key = true ↔ key = c.batchKey ∨ key ∈ c.reserved := by
  simp [isReserved]

end Config
end Listing
