import GoalWatch.Decimal.Digits
import GoalWatch.Decimal.Shortest

/-!
# Floating-point numbers as text

Reading takes the usual decimal notations and rounds correctly; writing gives the fewest digits that
read back, never with an exponent.

* `read?` -- digits with an optional point and exponent, or a name of infinity or of no number;
* `render` -- the text of a number.
-/

namespace GoalWatch.Decimal

/-! ## 1. Writing -/

/-- The parts of a 64-bit number. -/
inductive Parts where
  | notANumber
  | infinite (negative : Bool)
  | zero (negative : Bool)
  | finite (negative : Bool) (value : Binary)

/-- Takes a number apart: a sign bit, eleven bits of exponent, fifty-two of fraction. -/
def parts (x : Float) : Parts :=
  let bits := x.toBits.toNat
  let negative := decide (Nat.pow 2 63 ≤ bits)
  let exponent : Nat := bits / Nat.pow 2 52 % Nat.pow 2 11
  let fraction : Nat := bits % Nat.pow 2 52
  if exponent = 2047 then
    if fraction = 0 then .infinite negative else .notANumber
  else if exponent = 0 then
    if fraction = 0 then .zero negative else .finite negative ⟨fraction, -1074, false⟩
  else
    let lowest := decide (fraction = 0) && decide (1 < exponent)
    .finite negative ⟨Nat.pow 2 52 + fraction, (exponent : Int) - 1075, lowest⟩

def signed (negative : Bool) (text : String) : String :=
  if negative then "-" ++ text else text

/-- The text of a number: `NaN`, `inf`, and a sign for negative zero too. -/
def render (x : Float) : String :=
  match parts x with
  | .notANumber => "NaN"
  | .infinite negative => signed negative "inf"
  | .zero negative => signed negative "0"
  | .finite negative value => signed negative (positional (shortest value))

/-! ## 2. Reading -/

/-- A sign, if there is one, and the rest. -/
def splitSign : List Char → Bool × List Char
  | '-' :: r => (true, r)
  | '+' :: r => (false, r)
  | cs => (false, cs)

/-- The text before the first character with the property and, if there is one, the text after it. -/
def splitFirst (p : Char → Bool) (cs : List Char) : List Char × Option (List Char) :=
  match cs.dropWhile (!p ·) with
  | [] => (cs, none)
  | _ :: r => (cs.takeWhile (!p ·), some r)

/-- `digits`, `digits.`, `.digits` or `digits.digits`. -/
def readMantissa? (cs : List Char) : Option Scaled :=
  match splitFirst (· = '.') cs with
  | (whole, none) => if allDigits whole then some ⟨natOfDigits whole, 0⟩ else none
  | (whole, some fraction) =>
    if allDigits (whole ++ fraction) then
      some ⟨natOfDigits (whole ++ fraction), -(fraction.length : Int)⟩
    else none

def readExponent? (cs : List Char) : Option Int :=
  let (negative, digits) := splitSign cs
  if allDigits digits then
    some (if negative then -(natOfDigits digits : Int) else natOfDigits digits)
  else none

/-- A mantissa and, after `e` or `E`, an exponent. -/
def readScaled? (cs : List Char) : Option Scaled :=
  match splitFirst (fun c => c = 'e' || c = 'E') cs with
  | (mantissa, none) => readMantissa? mantissa
  | (mantissa, some exponent) => do
    let m ← readMantissa? mantissa
    let e ← readExponent? exponent
    some ⟨m.digits, m.power + e⟩

/-- The nearest 64-bit number. Beyond `10 ^ 400` all is infinite, below `10 ^ (-400)` all is zero. -/
def Scaled.toFloat (x : Scaled) : Float :=
  let size : Int := (Nat.toDigits 10 x.digits).length + x.power
  if x.digits = 0 || size < -400 then 0.0
  else if 400 < size then 1.0 / 0.0
  else Float.ofScientific x.digits (decide (x.power < 0)) x.power.natAbs

/-- Names of special values, in any case. -/
def readSpecial? (cs : List Char) : Option Float :=
  let name := String.ofList (cs.map Char.toLower)
  if name = "inf" || name = "infinity" then some (1.0 / 0.0)
  else if name = "nan" then some (0.0 / 0.0)
  else none

def read? (s : String) : Option Float :=
  let (negative, body) := splitSign s.toList
  let magnitude := readSpecial? body <|> (readScaled? body).map Scaled.toFloat
  magnitude.map fun x => if negative then -x else x

end GoalWatch.Decimal
