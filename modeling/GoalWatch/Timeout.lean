import GoalWatch.Decimal.Float

/-!
# Time limits

How long one solver may take. On the outside a limit is a number of seconds between -1 and 5, a
negative one meaning no limit; inside it is a number of milliseconds.

* `Timeout` -- no limit, or milliseconds;
* `Timeout.ofSeconds` -- fractions of a millisecond are cut off;
* `Timeout.display` -- `none`, or the seconds.
-/

namespace GoalWatch

inductive Timeout where
  | unlimited
  | millis (ms : UInt64)
  deriving DecidableEq, Repr

/-- A number of seconds that is no time limit. -/
structure TimeoutOutOfRange where
  seconds : Float

namespace Timeout

/-- One second. -/
def standard : Timeout := .millis 1000

instance : Inhabited Timeout := ⟨standard⟩

/-- The bounds of a limit in seconds. -/
def minSeconds : Float := -1.0

def maxSeconds : Float := 5.0

/-- A limit of the given number of seconds. Negative zero is not negative: it is no time at all. -/
def ofSeconds (seconds : Float) : Except TimeoutOutOfRange Timeout :=
  if !(minSeconds ≤ seconds && seconds ≤ maxSeconds) then .error ⟨seconds⟩
  else if seconds < 0.0 then .ok .unlimited
  else .ok (.millis (seconds * 1000.0).floor.toUInt64)

/-- The limit in seconds, -1 for none. -/
def seconds : Timeout → Float
  | .unlimited => -1.0
  | .millis ms => ms.toFloat / 1000.0

def display : Timeout → String
  | .unlimited => "none"
  | .millis ms => Decimal.render (seconds (.millis ms)) ++ " sec"

/-- The limit in milliseconds, if there is one. -/
def duration? : Timeout → Option UInt64
  | .unlimited => none
  | .millis ms => some ms

end Timeout

def TimeoutOutOfRange.message (e : TimeoutOutOfRange) : String :=
  "Timeout " ++ Decimal.render e.seconds ++ " sec is outside [" ++ Decimal.render Timeout.minSeconds ++
    ", " ++ Decimal.render Timeout.maxSeconds ++ "]"

end GoalWatch
