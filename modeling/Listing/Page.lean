import Listing.Config
import Listing.Request

/-!
# Pages

The window of rows that a page shows, and what is told about the pages once the number of rows is
known. Pages are counted from 1. An offset beyond the last count is cut down to it.
-/

namespace Listing

structure PageInfo where
  page : Nat
  perPage : Nat
  pages : Nat
  total : Nat
  deriving DecidableEq, Repr

/-- There is always one page, even without rows. -/
def PageInfo.of (page perPage total : Nat) : PageInfo where
  page := page
  perPage := perPage
  pages := if total = 0 then 1 else (total + (max perPage 1 - 1)) / max perPage 1
  total := total

structure Window where
  page : Nat
  perPage : Nat
  offset : Nat
  limit : Nat
  deriving DecidableEq, Repr

namespace Window

/-- The page size lies between 1 and its maximum, which counts as 1 at least. -/
def of (page perPage maxPerPage : Nat) : Window :=
  let page := max page 1
  let limit := min (max perPage 1) (max maxPerPage 1)
  ⟨page, limit, min ((page - 1) * limit) maxCount, limit⟩

def ofRequest (c : Config) (r : Request) : Window := of r.page r.perPage c.maxPerPage

def pageInfo (w : Window) (total : Nat) : PageInfo := PageInfo.of w.page w.perPage total

end Window
end Listing
