import Listing.Filter
import Listing.Value.Literal

/-!
# Filter drafts

A draft is a filter as a request states it, before the clock is looked at: its trimmed field, its
operator, and the scalars of its value still as texts. Resolving a draft reads every scalar, in
order, and fails when a reading fails; a draft whose parts do not make a filter then gives none.
So whether a filter is dropped does not depend on the clock, and a reading that fails does so
even in a draft that would be dropped.
-/

namespace Listing

/-- The value of a draft: one scalar, or the scalars of a list. -/
inductive Operand where
  | scalar (t : Text)
  | list (ts : List Text)
  deriving DecidableEq, Repr

namespace Operand

def scalars : Operand → List Text
  | scalar t => [t]
  | list ts => ts

/-- A list takes the elements of every raw text, a scalar the last raw text as it is. -/
def ofRaws (takesList : Bool) (raws : List Text) : Operand :=
  if takesList then list (raws.flatMap Value.splitList) else scalar (raws.getLast?.getD [])

def read (now : Instant) : Operand → Except OutOfRange Value
  | scalar t => Value.read now t
  | list ts => (ts.mapM (Value.read now)).map Value.list

end Operand

structure Draft where
  field : Text
  operator : Operator
  operand : Operand
  deriving DecidableEq, Repr

namespace Draft

def ofRaws (field : Text) (op : Operator) (raws : List Text) : Draft :=
  ⟨Text.trim field, op, Operand.ofRaws op.takesList raws⟩

def resolve (now : Instant) (d : Draft) : Except OutOfRange (Option Filter) :=
  (d.operand.read now).map fun v => (Filter.of d.field d.operator v).toOption

/-- The filters of some drafts, in order. -/
def resolveAll (now : Instant) (drafts : List Draft) : Except OutOfRange (List Filter) :=
  (drafts.mapM (resolve now)).map (·.filterMap id)

end Draft
end Listing
