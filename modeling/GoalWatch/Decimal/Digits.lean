/-!
# Rows of digits

* `natOfDigits` -- the number that a row of decimal digits names;
* `allDigits` -- at least one digit and nothing else.
-/

namespace GoalWatch.Decimal

def digitValue (c : Char) : Nat := c.toNat - '0'.toNat

/-- The number that a row of digits names. -/
def natOfDigits (cs : List Char) : Nat :=
  cs.foldl (fun n c => 10 * n + digitValue c) 0

/-- At least one digit and nothing else. -/
def allDigits (cs : List Char) : Bool :=
  !cs.isEmpty && cs.all Char.isDigit

end GoalWatch.Decimal
