import GoalWatch.Decimal.Digits
import GoalWatch.Json.Basic

/-!
# Reading JSON text

The reader is strict: no comments, no trailing commas, no leading zeros, no raw controls in strings,
nothing but blanks around the value. It takes a list of characters and gives back what it did not use.

* `Json.Reader.value` -- one value, blanks before it skipped;
* `Json.parse?` -- a whole text.
-/

namespace GoalWatch.Json.Reader

/-! ## 1. Blanks and literals -/

def isBlank (c : Char) : Bool :=
  c = ' ' || c = '\n' || c = '\r' || c = '\t'

def skipBlank (cs : List Char) : List Char :=
  cs.dropWhile isBlank

/-- The rest of `cs` after the word, if it starts with it. -/
def word? : (w cs : List Char) → Option (List Char)
  | [], cs => some cs
  | _ :: _, [] => none
  | a :: w, c :: cs => if a = c then word? w cs else none

/-! ## 2. Strings -/

def hexValue? (c : Char) : Option Nat :=
  if '0' ≤ c ∧ c ≤ '9' then some (c.toNat - '0'.toNat)
  else if 'a' ≤ c ∧ c ≤ 'f' then some (c.toNat - 'a'.toNat + 10)
  else if 'A' ≤ c ∧ c ≤ 'F' then some (c.toNat - 'A'.toNat + 10)
  else none

/-- The code unit that four hexadecimal digits name. -/
def hexUnit? (a b c d : Char) : Option Nat := do
  let a ← hexValue? a
  let b ← hexValue? b
  let c ← hexValue? c
  let d ← hexValue? d
  some (((a * 16 + b) * 16 + c) * 16 + d)

/-- The character that a backslash and the given letter stand for. -/
def escape? (c : Char) : Option Char :=
  if c = '"' then some '"'
  else if c = '\\' then some '\\'
  else if c = '/' then some '/'
  else if c = 'b' then some (Char.ofNat 0x08)
  else if c = 'f' then some (Char.ofNat 0x0C)
  else if c = 'n' then some '\n'
  else if c = 'r' then some '\r'
  else if c = 't' then some '\t'
  else none

/-- What stands between the quotes, the opening one already read: code points, or halves of surrogate
    pairs. `done` holds those read so far, the last one first. -/
def units (done : List Nat) : List Char → Option (List Nat × List Char)
  | [] => none
  | '"' :: r => some (done.reverse, r)
  | '\\' :: 'u' :: a :: b :: c :: d :: r =>
    match hexUnit? a b c d with
    | some u => units (u :: done) r
    | none => none
  | '\\' :: c :: r =>
    match escape? c with
    | some e => units (e.toNat :: done) r
    | none => none
  | c :: r => if c = '\\' || c.toNat < 0x20 then none else units (c.toNat :: done) r

def isHighHalf (u : Nat) : Bool := decide (0xD800 ≤ u) && decide (u ≤ 0xDBFF)

def isLowHalf (u : Nat) : Bool := decide (0xDC00 ≤ u) && decide (u ≤ 0xDFFF)

/-- Joins the halves of surrogate pairs. A half on its own leaves no text. -/
def joinHalves (done : List Char) : List Nat → Option (List Char)
  | [] => some done.reverse
  | [u] => if isHighHalf u || isLowHalf u then none else some (Char.ofNat u :: done).reverse
  | u :: v :: r =>
    if isHighHalf u then
      if isLowHalf v then
        joinHalves (Char.ofNat (0x10000 + (u - 0xD800) * 0x400 + (v - 0xDC00)) :: done) r
      else none
    else if isLowHalf u then none
    else joinHalves (Char.ofNat u :: done) (v :: r)

/-- A string, the opening quote already read. -/
def stringBody (cs : List Char) : Option (Option String × List Char) :=
  (units [] cs).map fun (us, r) => ((joinHalves [] us).map String.ofList, r)

/-! ## 3. Numbers -/

def digits (cs : List Char) : List Char × List Char :=
  (cs.takeWhile Char.isDigit, cs.dropWhile Char.isDigit)

/-- A whole number without a leading zero. -/
def whole? (cs : List Char) : Option (List Char × List Char) :=
  match cs with
  | '0' :: r => some (['0'], r)
  | _ =>
    match digits cs with
    | ([], _) => none
    | (ds, r) => some (ds, r)

/-- At least one digit. -/
def someDigits? (cs : List Char) : Option (List Char × List Char) :=
  match digits cs with
  | ([], _) => none
  | (ds, r) => some (ds, r)

/-- A point and digits, or nothing. -/
def fraction? (cs : List Char) : Option (List Char × List Char) :=
  match cs with
  | '.' :: r => (someDigits? r).map fun (ds, r) => ('.' :: ds, r)
  | _ => some ([], cs)

/-- `e`, an optional sign and digits, or nothing. -/
def exponent? (cs : List Char) : Option (List Char × List Char) :=
  match cs with
  | e :: r =>
    if e = 'e' || e = 'E' then
      match r with
      | s :: r' =>
        if s = '+' || s = '-' then (someDigits? r').map fun (ds, r) => (e :: s :: ds, r)
        else (someDigits? r).map fun (ds, r) => (e :: ds, r)
      | [] => none
    else some ([], cs)
  | [] => some ([], cs)

/-- A number: digits alone are a `natural`, anything else keeps its literal. -/
def number? (cs : List Char) : Option (Json × List Char) := do
  let (sign, r) := match cs with
    | '-' :: r => (['-'], r)
    | _ => ([], cs)
  let (ds, r) ← whole? r
  let (f, r) ← fraction? r
  let (e, r) ← exponent? r
  if sign.isEmpty && f.isEmpty && e.isEmpty then some (.natural (Decimal.natOfDigits ds), r)
  else some (.number (String.ofList (sign ++ ds ++ f ++ e)), r)

/-! ## 4. Values -/

mutual

/-- One value, blanks before it skipped. Every step into a value, an element or a field uses a
    character, so the length of the text is fuel enough. -/
def value : (fuel : Nat) → List Char → Option (Json × List Char)
  | 0, _ => none
  | fuel + 1, cs =>
    match skipBlank cs with
    | [] => none
    | '"' :: r => (stringBody r).map fun (s, r) => (.string s, r)
    | '[' :: r =>
      match skipBlank r with
      | ']' :: r => some (.array [], r)
      | _ => (elements fuel [] r).map fun (xs, r) => (.array xs, r)
    | '\x7b' :: r =>
      match skipBlank r with
      | '\x7d' :: r => some (.object [], r)
      | _ => (members fuel [] r).map fun (fs, r) => (.object fs, r)
    | c :: r =>
      if c = 'n' then (word? "ull".toList r).map fun r => (.null, r)
      else if c = 't' then (word? "rue".toList r).map fun r => (.bool true, r)
      else if c = 'f' then (word? "alse".toList r).map fun r => (.bool false, r)
      else number? (c :: r)

/-- The elements of an array up to its closing bracket, after those of `done` (the last one first). -/
def elements : (fuel : Nat) → (done : List Json) → List Char → Option (List Json × List Char)
  | 0, _, _ => none
  | fuel + 1, done, cs =>
    match value fuel cs with
    | none => none
    | some (x, r) =>
      match skipBlank r with
      | ',' :: r => elements fuel (x :: done) r
      | ']' :: r => some ((x :: done).reverse, r)
      | _ => none

/-- The fields of an object up to its closing brace, after those of `done` (the last one first). -/
def members : (fuel : Nat) → (done : List (Option String × Json)) → List Char →
    Option (List (Option String × Json) × List Char)
  | 0, _, _ => none
  | fuel + 1, done, cs =>
    match skipBlank cs with
    | '"' :: r =>
      match stringBody r with
      | none => none
      | some (key, r) =>
        match skipBlank r with
        | ':' :: r =>
          match value fuel r with
          | none => none
          | some (x, r) =>
            match skipBlank r with
            | ',' :: r => members fuel ((key, x) :: done) r
            | '\x7d' :: r => some (((key, x) :: done).reverse, r)
            | _ => none
        | _ => none
    | _ => none

end

end GoalWatch.Json.Reader

namespace GoalWatch

/-- The value that a whole text holds; only blanks may stand around it. -/
def Json.parse? (s : String) : Option Json :=
  let cs := s.toList
  match Json.Reader.value (cs.length + 1) cs with
  | some (j, r) => if (Json.Reader.skipBlank r).isEmpty then some j else none
  | none => none

end GoalWatch
