import GoalWatch.CommandLine.Options
import GoalWatch.Decimal.Float
import GoalWatch.Solver

/-!
# Commands

* `Command` -- what the command line asks for;
* `Command.parse?` -- from arguments, and the settings file that the environment names.
-/

namespace GoalWatch

structure RunOptions where
  file : String
  solvers : List Solver
  /-- The time limit in seconds. -/
  timeout : Option Float
  settings : Option String
  maxProcesses : Option UInt64
  apply : Bool
  json : Bool

inductive Command where
  | version
  | run (options : RunOptions)
  | solvers (experimental : Bool)
  | initSettings (path : String) (timeout : Float) (experimental : Bool)

namespace Command

/-! ## 1. Values -/

/-- A path is not empty. -/
def readPath? (text : String) : Option String := if text.isEmpty then none else some text

/-- Solvers have these names on the command line. -/
def readSolver? : String → Option Solver
  | "z3" => some .z3
  | "cvc5" => some .cvc5
  | "cvc4" => some .cvc4
  | "yices2" => some .yices2
  | _ => none

/-- A whole number below 2^64, a plus sign allowed. -/
def readCount? (text : String) : Option UInt64 :=
  let digits := match text.toList with
    | '+' :: rest => rest
    | cs => cs
  let n := Decimal.natOfDigits digits
  if Decimal.allDigits digits && n < UInt64.size then some (UInt64.ofNat n) else none

/-- The only word. -/
def onlyWord? (tokens : List Token) : Option String :=
  match Options.words tokens with
  | [text] => some text
  | _ => none

/-! ## 2. Commands -/

def timeoutOption : OptionSpec :=
  { name := "timeout", letter := some 't', takesValue := true, negative := true }

def experimentalOption : OptionSpec := { name := "experimental" }

def runSpecs : List OptionSpec :=
  [{ name := "solver", letter := some 's', takesValue := true, repeatable := true }, timeoutOption,
    { name := "settings", takesValue := true }, { name := "max-processes", takesValue := true },
    { name := "apply" }, { name := "json" }]

/-- The settings file of the environment counts if none is given. -/
def parseRun? (environment : Option String) (args : List String) : Option Command := do
  let tokens ← Options.scan? runSpecs args
  let given ← Options.value? "settings" readPath? tokens
  let fallback ← match given, environment with
    | none, some path => (readPath? path).map some
    | _, _ => some none
  return .run {
    file := ← (onlyWord? tokens).bind readPath?
    solvers := ← (Options.values "solver" tokens).mapM readSolver?
    timeout := ← Options.value? "timeout" Decimal.read? tokens
    settings := given <|> fallback
    maxProcesses := ← Options.value? "max-processes" readCount? tokens
    apply := Options.isSet "apply" tokens
    json := Options.isSet "json" tokens }

def parseSolvers? (args : List String) : Option Command := do
  let tokens ← Options.scan? [experimentalOption] args
  if (Options.words tokens).isEmpty then
    some (.solvers (Options.isSet "experimental" tokens))
  else none

/-- The time limit is a second unless another is given. -/
def parseInitSettings? (args : List String) : Option Command := do
  let tokens ← Options.scan? [timeoutOption, experimentalOption] args
  let path ← (onlyWord? tokens).bind readPath?
  let timeout ← Options.value? "timeout" Decimal.read? tokens
  return .initSettings path (timeout.getD 1.0) (Options.isSet "experimental" tokens)

/-- The argument asks for the version, whatever follows it. -/
def asksVersion (arg : String) : Bool := arg == "--version" || arg.startsWith "-V"

/-- What the arguments ask for; none if they are not used as they may be. -/
def parse? (environment : Option String) : List String → Option Command
  | [] => none
  | "run" :: args => parseRun? environment args
  | "solvers" :: args => parseSolvers? args
  | "init-settings" :: args => parseInitSettings? args
  | arg :: _ => if asksVersion arg then some .version else none

end Command

end GoalWatch
