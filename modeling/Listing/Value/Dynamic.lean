import Listing.Value

/-!
# Values that depend on the clock

Fifteen tokens stand for a point in time relative to now: a number of days ago or from now, the
year, the next year, and now itself. The days are added to now as they are, so the time of day
stays; only this addition can fail, when it leaves the range of instants.
-/

namespace Listing

/-- A shift in time that leaves the range of instants, named for the direction of the shift. -/
inductive OutOfRange where
  | backward
  | forward
  deriving DecidableEq, Repr

def OutOfRange.message : OutOfRange → Text
  | backward => "`DateTime - TimeDelta` overflowed".toList
  | forward => "`DateTime + TimeDelta` overflowed".toList

inductive Dynamic where
  | daysAgo (days : Nat)
  | daysFromNow (days : Nat)
  | currentYear
  | nextYear
  | currentTime
  deriving DecidableEq, Repr

namespace Dynamic

def tokens : List (Text × Dynamic) :=
  [("1_day_ago".toList, daysAgo 1), ("7_days_ago".toList, daysAgo 7),
    ("14_days_ago".toList, daysAgo 14), ("30_days_ago".toList, daysAgo 30),
    ("60_days_ago".toList, daysAgo 60), ("90_days_ago".toList, daysAgo 90),
    ("1_day".toList, daysFromNow 1), ("7_days".toList, daysFromNow 7),
    ("14_days".toList, daysFromNow 14), ("30_days".toList, daysFromNow 30),
    ("60_days".toList, daysFromNow 60), ("90_days".toList, daysFromNow 90),
    ("current_year".toList, currentYear), ("next_year".toList, nextYear),
    ("current_time".toList, currentTime)]

def ofToken? (token : Text) : Option Dynamic := tokens.lookup token

def resolve (now : Instant) : Dynamic → Except OutOfRange Value
  | daysAgo days =>
    match now.addDays? (-(days : Int)) with
    | some i => .ok (.instant i)
    | none => .error .backward
  | daysFromNow days =>
    match now.addDays? days with
    | some i => .ok (.instant i)
    | none => .error .forward
  | currentYear => .ok (.integer now.year)
  | nextYear => .ok (.integer (now.year + 1))
  | currentTime => .ok (.instant now)

end Dynamic
end Listing
