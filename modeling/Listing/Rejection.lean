import Listing.Json
import Listing.Operator

/-!
# Rejections

Why a filter cannot be built or a request is turned away, each with its message, its HTTP status
and the JSON body of the answer.
-/

namespace Listing

inductive Rejection where
  /-- An operator on lists was given a single value. -/
  | listRequired (op : Operator)
  /-- A range was given fewer than two bounds. -/
  | tooFewBounds (found : Nat)
  | emptyField
  /-- The field is not one that the resource exposes. -/
  | unknownField (field : Text)
  deriving DecidableEq, Repr

namespace Rejection

def message : Rejection → Text
  | listRequired op => "Operator '".toList ++ op.symbol ++ "' requires a list value".toList
  | tooFewBounds found => "BETWEEN requires exactly 2 values, got ".toList ++ Text.decimal found
  | emptyField => "Field name must not be empty".toList
  | unknownField field => "Unknown field '".toList ++ field ++ "'".toList

/-- An unknown field is a bad request; what cannot be built is unprocessable. -/
def status : Rejection → Nat
  | unknownField _ => 400
  | _ => 422

def body (r : Rejection) : Text := Json.render (.object [("error".toList, .text r.message)])

end Rejection
end Listing
