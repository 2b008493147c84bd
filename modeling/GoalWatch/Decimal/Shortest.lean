/-!
# The fewest digits that read back

A binary floating-point number `m * 2 ^ q` is written with as few decimal digits as still round to it,
and with the nearest of these.

* `Binary` -- a positive number `m * 2 ^ q` with what is needed to know its neighbours;
* `Binary.holds` -- a decimal rounds to the number;
* `shortest` -- the fewest digits, the nearest of them, a tie going up;
* `positional` -- a decimal written out without an exponent.
-/

namespace GoalWatch.Decimal

/-! ## 1. Decimals and binary numbers -/

/-- The number `digits * 10 ^ power`. -/
structure Scaled where
  digits : Nat
  power : Int
  deriving DecidableEq, Repr

/-- The number `mantissa * 2 ^ power`, positive. `lowest` marks a mantissa at the lower end of its
    binade: the neighbour below is then only half as far away as the one above. -/
structure Binary where
  mantissa : Nat
  power : Int
  lowest : Bool
  deriving DecidableEq, Repr

/-- Powers with a possibly negative exponent, as numerator and denominator. -/
def powNum (base : Nat) (e : Int) : Nat := base.pow e.toNat

def powDen (base : Nat) (e : Int) : Nat := base.pow (-e).toNat

/-- To compare `d * 10 ^ k` with `n` quarters of the unit of `b`, compare `d * decimalWeight b k` with
    `n * quarterWeight b k`. -/
def Binary.decimalWeight (b : Binary) (k : Int) : Nat :=
  powNum 10 k * powDen 2 (b.power - 2)

def Binary.quarterWeight (b : Binary) (k : Int) : Nat :=
  powNum 2 (b.power - 2) * powDen 10 k

/-- The number itself and the two points halfway to its neighbours, in quarters of its unit. -/
def Binary.value (b : Binary) : Nat := 4 * b.mantissa

def Binary.low (b : Binary) : Nat := 4 * b.mantissa - (if b.lowest then 1 else 2)

def Binary.high (b : Binary) : Nat := 4 * b.mantissa + 2

/-- The decimal rounds to `b`: it lies between the halfway points, which themselves round to an even
    mantissa. -/
def Binary.holds (b : Binary) (x : Scaled) : Bool :=
  let d := x.digits * b.decimalWeight x.power
  let lo := b.low * b.quarterWeight x.power
  let hi := b.high * b.quarterWeight x.power
  if b.mantissa % 2 = 0 then decide (lo ≤ d) && decide (d ≤ hi)
  else decide (lo < d) && decide (d < hi)

/-! ## 2. The grid of a given number of digits -/

/-- The largest multiple of `10 ^ k` that is not above `b`. -/
def Binary.floorAt (b : Binary) (k : Int) : Nat :=
  b.value * b.quarterWeight k / b.decimalWeight k

/-- The power of ten of the leading digit. Every number at hand is at least `10 ^ (-400)`. -/
def Binary.magnitude (b : Binary) : Int :=
  ((Nat.toDigits 10 (b.floorAt (-400))).length : Int) - 401

/-- The nearer of the two grid points around `b`; a tie goes up. -/
def Binary.nearer (b : Binary) (k : Int) (below : Nat) : Nat :=
  if 2 * b.value * b.quarterWeight k < (2 * below + 1) * b.decimalWeight k then below else below + 1

/-- A decimal on the grid of `10 ^ k` that rounds to `b`, the nearest one if there are two. -/
def Binary.onGrid (b : Binary) (k : Int) : Option Scaled :=
  let below := b.floorAt k
  match b.holds ⟨below, k⟩, b.holds ⟨below + 1, k⟩ with
  | true, true => some ⟨b.nearer k below, k⟩
  | true, false => some ⟨below, k⟩
  | false, true => some ⟨below + 1, k⟩
  | false, false => none

/-- Ten units of a grid are one of the next coarser one. Just below a power of ten the nearest decimal
    with one digit is that power, which is ten units of its grid. -/
def Scaled.coarsened (x : Scaled) : Scaled :=
  if x.digits = 10 then ⟨1, x.power + 1⟩ else x

/-- Tries grids with more and more digits: `tries` of them, `count` digits first. -/
def Binary.search (b : Binary) (magnitude : Int) : (tries count : Nat) → Scaled
  | 0, count => ⟨b.floorAt (magnitude - count + 1), magnitude - count + 1⟩
  | tries + 1, count =>
    match b.onGrid (magnitude - count + 1) with
    | some x => x.coarsened
    | none => b.search magnitude tries (count + 1)

/-- The decimal with the fewest digits that rounds to `b`. Seventeen digits always do. -/
def shortest (b : Binary) : Scaled :=
  b.search b.magnitude 17 1

/-! ## 3. Writing -/

/-- A decimal without an exponent: no point in a whole number, a zero before the point otherwise. -/
def positional (x : Scaled) : String :=
  let ds := Nat.toDigits 10 x.digits
  if 0 ≤ x.power then String.ofList (ds ++ List.replicate x.power.toNat '0')
  else
    let places := (-x.power).toNat
    let padded := List.replicate (places + 1 - ds.length) '0' ++ ds
    String.ofList (padded.take (padded.length - places)) ++ "." ++
      String.ofList (padded.drop (padded.length - places))

end GoalWatch.Decimal
