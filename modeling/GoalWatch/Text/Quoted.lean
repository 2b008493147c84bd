import GoalWatch.Text.Hidden
import GoalWatch.Text.Mark

/-!
# Quoted text for the eye

A text between double quotes in which every character can be told apart.

* `quoted` -- quotes, backslashes and line ends get a backslash, characters that cannot be seen on their own
  are written by their code point, all others stand for themselves.
-/

namespace GoalWatch.Text

/-- A code point in lower-case hexadecimal between braces. -/
def codePoint (c : Char) : String :=
  "\\u\x7b" ++ String.ofList (Nat.toDigits 16 c.toNat) ++ "\x7d"

/-- A character that cannot be seen on its own. -/
def isUnseen (c : Char) : Bool :=
  extendsPrevious c || isHidden c || isUnassigned c

def quotedChar (c : Char) : String :=
  if c = '"' then "\\\""
  else if c = '\\' then "\\\\"
  else if c = '\n' then "\\n"
  else if c = '\r' then "\\r"
  else if c = '\t' then "\\t"
  else if c.toNat = 0 then "\\0"
  else if isUnseen c then codePoint c
  else String.singleton c

def quoted (s : String) : String :=
  "\"" ++ String.join (s.toList.map quotedChar) ++ "\""

end GoalWatch.Text
