/-!
# JSON values

* `Json` -- a value as it stands in a text: fields in their order, repeated ones included, and numbers
  told apart only as far as any reader here asks;
* `Json.pretty` -- a value over several lines, two spaces per level.
-/

namespace GoalWatch

/-! ## 1. Values -/

/-- A JSON value. A string that names half of a surrogate pair is well-formed but holds no text; it is
    kept as `none`. A number is `natural` when it is written with digits alone. -/
inductive Json where
  | null
  | bool (value : Bool)
  | natural (value : Nat)
  | number (literal : String)
  | string (text : Option String)
  | array (elements : List Json)
  | object (fields : List (Option String × Json))
  deriving Inhabited

/-- A string value with the given text. -/
def Json.text (s : String) : Json := .string (some s)

/-- An object with the given fields. -/
def Json.fields (l : List (String × Json)) : Json :=
  .object (l.map fun f => (some f.1, f.2))

/-! ## 2. Strings -/

/-- The last two of the four hexadecimal digits of a control character. -/
def Json.hexPair (n : Nat) : String :=
  String.ofList [Nat.digitChar (n / 16), Nat.digitChar (n % 16)]

/-- A character inside quotes: only quotes, backslashes and controls are escaped. -/
def Json.quoteChar (c : Char) : String :=
  if c = '"' then "\\\""
  else if c = '\\' then "\\\\"
  else if c.toNat = 0x08 then "\\b"
  else if c.toNat = 0x0C then "\\f"
  else if c = '\n' then "\\n"
  else if c = '\r' then "\\r"
  else if c = '\t' then "\\t"
  else if c.toNat < 0x20 then "\\u00" ++ Json.hexPair c.toNat
  else String.singleton c

/-- A string in quotes. What holds no text is written as a lone half of a pair. -/
def Json.quote : Option String → String
  | some s => "\"" ++ String.join (s.toList.map Json.quoteChar) ++ "\""
  | none => "\"\\ud800\""

/-! ## 3. Pretty printing -/

/-- The start of a line at the given depth. -/
def Json.newline (depth : Nat) : String :=
  "\n" ++ String.ofList (List.replicate (2 * depth) ' ')

mutual

/-- A value over several lines, its first one at the given depth. -/
def Json.prettyAt (depth : Nat) : Json → String
  | .null => "null"
  | .bool true => "true"
  | .bool false => "false"
  | .natural n => Nat.repr n
  | .number literal => literal
  | .string text => Json.quote text
  | .array [] => "[]"
  | .array (x :: xs) =>
    "[" ++ Json.newline (depth + 1) ++ Json.prettyAt (depth + 1) x ++
      Json.prettyMore (depth + 1) xs ++ Json.newline depth ++ "]"
  | .object [] => "\x7b\x7d"
  | .object ((key, x) :: fields) =>
    "\x7b" ++ Json.newline (depth + 1) ++ Json.quote key ++ ": " ++ Json.prettyAt (depth + 1) x ++
      Json.prettyFields (depth + 1) fields ++ Json.newline depth ++ "\x7d"

/-- The elements after the first. -/
def Json.prettyMore (depth : Nat) : List Json → String
  | [] => ""
  | x :: xs => "," ++ Json.newline depth ++ Json.prettyAt depth x ++ Json.prettyMore depth xs

/-- The fields after the first. -/
def Json.prettyFields (depth : Nat) : List (Option String × Json) → String
  | [] => ""
  | (key, x) :: fields =>
    "," ++ Json.newline depth ++ Json.quote key ++ ": " ++ Json.prettyAt depth x ++
      Json.prettyFields depth fields

end

/-- A value over several lines, without a final line end. -/
def Json.pretty (j : Json) : String := j.prettyAt 0

end GoalWatch
