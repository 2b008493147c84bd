import GoalWatch.Json.Basic

/-!
# Reading records and choices from JSON values

A record is written as an object, whose unknown fields are ignored and whose known ones may not repeat,
or as an array of its fields in order, the last ones left out if they have a default. A choice is written
as its name, or as an object with that name and what it carries.

* `Json.record?` -- the fields of a record by their names;
* `Json.choice?` -- the name of a choice and what it carries;
* `Json.text?`, `Json.natural64?`, `Json.list?` -- the plain readers.
-/

namespace GoalWatch.Json

/-! ## 1. Plain readers -/

def text? : Json → Option String
  | .string text => text
  | _ => none

/-- A whole number of at most 64 bits, written with digits alone. -/
def natural64? : Json → Option UInt64
  | .natural n => if n < UInt64.size then some (UInt64.ofNat n) else none
  | _ => none

def list? {α : Type} (read : Json → Option α) : Json → Option (List α)
  | .array xs => xs.mapM read
  | _ => none

/-- `null` is nothing; all else is read. -/
def orNull? {α : Type} (read : Json → Option α) : Json → Option (Option α)
  | .null => some none
  | j => (read j).map some

/-! ## 2. Records -/

/-- The value of a named field: none if it is absent, a refusal if it is repeated. -/
def field? (fields : List (Option String × Json)) (name : String) : Option (Option Json) :=
  match fields.filter fun f => f.1 == some name with
  | [] => some none
  | [f] => some (some f.2)
  | _ => none

/-- The fields of a record, in the order of `names`. Every field name has to be readable text. -/
def record? (names : List String) : Json → Option (List (Option Json))
  | .object fields =>
    if fields.all fun f => f.1.isSome then names.mapM (field? fields) else none
  | .array xs =>
    if xs.length ≤ names.length then
      some (xs.map some ++ List.replicate (names.length - xs.length) none)
    else none
  | _ => none

/-- A field that has to be there. -/
def required {α : Type} (read : Json → Option α) : Option Json → Option α
  | some j => read j
  | none => none

/-- A field that may be absent. -/
def withDefault {α : Type} (default : α) (read : Json → Option α) : Option Json → Option α
  | some j => read j
  | none => some default

/-! ## 3. Choices -/

/-- The name of a choice and what it carries, if it is written with something. -/
def choice? : Json → Option (String × Option Json)
  | .string (some name) => some (name, none)
  | .object [(some name, j)] => some (name, some j)
  | _ => none

/-- What a choice that carries nothing may be written with. -/
def carriesNothing : Option Json → Bool
  | none => true
  | some .null => true
  | some _ => false

end GoalWatch.Json
