/-!
# Blank characters

The characters with the property White_Space, and what is left of a text once the blanks at its ends
are taken away.

* `isBlank` -- the property, as a table of ranges;
* `trim` -- a text without the blanks at its two ends;
* `isAllBlank` -- nothing but blanks.
-/

namespace GoalWatch.Text

/-! ## 1. The property -/

/-- The ranges of code points that have the property White_Space, in ascending order. -/
def blankRanges : List (Nat × Nat) :=
  [(0x09, 0x0D), (0x20, 0x20), (0x85, 0x85), (0xA0, 0xA0), (0x1680, 0x1680), (0x2000, 0x200A),
    (0x2028, 0x2029), (0x202F, 0x202F), (0x205F, 0x205F), (0x3000, 0x3000)]

/-- A code point lies in one of the given ranges, ends included. -/
def inRanges (ranges : List (Nat × Nat)) (n : Nat) : Bool :=
  ranges.any fun r => decide (r.1 ≤ n) && decide (n ≤ r.2)

def isBlank (c : Char) : Bool :=
  inRanges blankRanges c.toNat

/-! ## 2. Trimming -/

/-- A text without the blanks at its two ends. -/
def trimChars (cs : List Char) : List Char :=
  ((cs.dropWhile isBlank).reverse.dropWhile isBlank).reverse

def trim (s : String) : String :=
  String.ofList (trimChars s.toList)

/-- Nothing but blanks; the empty text counts. -/
def isAllBlank (s : String) : Bool :=
  s.toList.all isBlank

end GoalWatch.Text
