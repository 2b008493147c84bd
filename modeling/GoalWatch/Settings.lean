import GoalWatch.Json.Reader
import GoalWatch.Json.Record
import GoalWatch.Solver
import GoalWatch.Timeout

/-!
# Settings

Which solvers to run, how long each may take and how many processes may run at a time; and the form
that settings have in a file.

* `Settings` -- the three choices;
* `Settings.hasSolvers` -- some chosen solver can answer in the background;
* `Settings.write`, `Settings.read?` -- settings as JSON text and back.
-/

namespace GoalWatch

structure Settings where
  solvers : SolverSet := .empty
  timeout : Timeout := .standard
  maxProcesses : UInt64 := 2
  deriving DecidableEq, Inhabited

namespace Settings

/-! ## 1. Choices -/

def withSolver (s : Settings) (solver : Solver) : Settings :=
  { s with solvers := s.solvers.insert solver }

def withSolvers (s : Settings) (solvers : List Solver) : Settings :=
  { s with solvers := .ofList solvers }

def withTimeout (s : Settings) (timeout : Timeout) : Settings :=
  { s with timeout }

/-- At least one process may run. -/
def withMaxProcesses (s : Settings) (n : UInt64) : Settings :=
  { s with maxProcesses := max 1 n }

/-- Some chosen solver can answer in the background. -/
def hasSolvers (s : Settings) : Bool :=
  s.solvers.any Solver.supportsBackground

/-- The chosen solvers that can answer in the background, in order. -/
def backgroundSolvers (s : Settings) : List Solver :=
  s.solvers.toList.filter Solver.supportsBackground

/-- The settings in one line. -/
def summary (s : Settings) : String :=
  "Timeout: " ++ s.timeout.display ++ "; Solvers: \x7b" ++
    String.intercalate "; " (s.solvers.toList.map Solver.name) ++ "\x7d"

/-! ## 2. Writing -/

end Settings

def Timeout.toJson : Timeout → Json
  | .unlimited => .text "unlimited"
  | .millis ms => .fields [("millis", .natural ms.toNat)]

namespace Settings

def toJson (s : Settings) : Json :=
  .fields [
    ("solver_types", .array (s.solvers.toList.map fun x => .text x.key)),
    ("timeout", s.timeout.toJson),
    ("max_concurrent_processes", .natural s.maxProcesses.toNat)]

/-- The text of a settings file. -/
def write (s : Settings) : String := s.toJson.pretty

/-! ## 3. Reading -/

end Settings

def Solver.ofJson? (j : Json) : Option Solver := do
  let (name, carried) ← j.choice?
  if Json.carriesNothing carried then Solver.ofKey? name else none

def Timeout.ofJson? (j : Json) : Option Timeout := do
  let (name, carried) ← j.choice?
  if name = "unlimited" then
    if Json.carriesNothing carried then some .unlimited else none
  else if name = "millis" then (Json.required Json.natural64? carried).map .millis
  else none

namespace Settings

/-- The names of the fields in a file, in order. -/
def fieldNames : List String := ["solver_types", "timeout", "max_concurrent_processes"]

/-- Settings from a value; a field that is not there has its default. -/
def ofJson? (j : Json) : Option Settings := do
  match ← j.record? fieldNames with
  | [solvers, timeout, maxProcesses] =>
    let solvers ← Json.withDefault [] (Json.list? Solver.ofJson?) solvers
    let timeout ← Json.withDefault .standard Timeout.ofJson? timeout
    let maxProcesses ← Json.withDefault 2 Json.natural64? maxProcesses
    some { solvers := .ofList solvers, timeout, maxProcesses }
  | _ => none

/-- Settings from the text of a file. -/
def read? (text : String) : Option Settings :=
  (Json.parse? text).bind ofJson?

end Settings

end GoalWatch
