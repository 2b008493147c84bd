import GoalWatch.Folder
import GoalWatch.Json.Reader
import GoalWatch.Sequent

/-!
# Goal files

A JSON file with the goals of a proof, what their scripts declare, and perhaps a name.

* `GoalFile.ofText?` -- from the text of a file;
* `GoalFileError` -- why a file cannot be used.
-/

namespace GoalWatch

structure GoalFile where
  name : Option String
  declarations : List String
  goals : List Sequent
  deriving DecidableEq, Repr

inductive GoalFileError where
  | unreadable (path : String)
  | invalid (path : String)
  | empty (path : String)
  deriving DecidableEq, Repr

def GoalFileError.message : GoalFileError → String
  | .unreadable path => "Failed to read goal file " ++ path
  | .invalid path => "Invalid goal file " ++ path
  | .empty path => "Goal file " ++ path ++ " contains no goals"

namespace GoalFile

def strings? : Json → Option (List String) := Json.list? Json.text?

/-- A goal, either of whose lists may be left out. -/
def goalOfJson? (j : Json) : Option Sequent := do
  match ← j.record? ["antecedent", "succedent"] with
  | [antecedent, succedent] =>
    let antecedent ← Json.withDefault [] strings? antecedent
    let succedent ← Json.withDefault [] strings? succedent
    some { antecedent, succedent }
  | _ => none

def ofJson? (j : Json) : Option GoalFile := do
  match ← j.record? ["name", "declarations", "goals"] with
  | [name, declarations, goals] =>
    let name ← Json.withDefault none (Json.orNull? Json.text?) name
    let declarations ← Json.withDefault [] strings? declarations
    let goals ← Json.required (Json.list? goalOfJson?) goals
    some { name, declarations, goals }
  | _ => none

def ofText? (text : String) : Option GoalFile := (Json.parse? text).bind ofJson?

/-- A goal file from what was read at `path`. It has to hold a goal. -/
def ofFile (path : String) : Except FileFault Content → Except GoalFileError GoalFile
  | .error _ => .error (.unreadable path)
  | .ok content =>
    match content.text with
    | .error _ => .error (.unreadable path)
    | .ok text =>
      match ofText? text with
      | none => .error (.invalid path)
      | some f => if f.goals.isEmpty then .error (.empty path) else .ok f

/-- The name of the proof: the one in the file, else that of the file, else `goals`. -/
def proofName (f : GoalFile) (path : String) : String :=
  (f.name <|> Folder.stem? path).getD "goals"

end GoalFile

end GoalWatch
