import GoalWatch.CommandLine.Command
import GoalWatch.CommandLine.GoalFile
import GoalWatch.CommandLine.RunReport
import GoalWatch.Provider
import GoalWatch.Settings.File
import GoalWatch.Solving.Launcher

/-!
# The command line

* `Host` -- what a command needs of the machine it runs on;
* `CommandLine.resolve` -- the settings of a run, from a file or from what is installed, and from options;
* `CommandLine.execute` -- carries out a command on a host;
* `CommandLine.run` -- from arguments to the way it ends.
-/

namespace GoalWatch

/-! ## 1. Hosts -/

/-- What a command needs of the machine it runs on. -/
structure Host (m : Type → Type) where
  readFile : String → m (Except FileFault Content)
  writeFile : String → Content → m (Except FileFault Unit)
  /-- The programs of solvers. -/
  path : SearchPath
  /-- The settings file that the environment names. -/
  settingsFile : Option String

/-- A folder as the file system of a host. -/
def Folder.host (path : SearchPath) (settingsFile : Option String) : Host (StateM Folder) where
  readFile p := do return (← get).read p
  writeFile p c := do
    match (← get).write p c with
    | .ok f =>
      set f
      return .ok ()
    | .error fault => return .error fault
  path
  settingsFile

/-! ## 2. Endings -/

inductive CommandError where
  | settings (cause : SettingsError)
  | goalFile (cause : GoalFileError)
  | noSolver

def CommandError.message : CommandError → String
  | .settings cause => cause.message
  | .goalFile cause => cause.message
  | .noSolver => "No solver selected and none installed; pass --solver or install z3 or cvc5"

/-- How a command line ends. -/
inductive Ending where
  /-- The arguments are not used as they may be. -/
  | misuse
  | failed (cause : CommandError)
  | done (output : String)

def Ending.exitCode : Ending → Nat
  | .misuse => 2
  | .failed _ => 1
  | .done _ => 0

namespace CommandLine

/-! ## 3. Commands -/

/-- Options override the settings to start from; in the end there has to be a solver to run. -/
def resolve (start : Settings) (o : RunOptions) : Except CommandError Settings := do
  let s := if o.solvers.isEmpty then start else start.withSolvers o.solvers
  let s ← match o.timeout with
    | none => pure s
    | some seconds =>
      match Timeout.ofSeconds seconds with
      | .ok t => pure (s.withTimeout t)
      | .error cause => throw (.settings (.timeout cause))
  let s := match o.maxProcesses with
    | none => s
    | some n => s.withMaxProcesses n
  if s.hasSolvers then return s else throw .noSolver

/-- The report of a run over a goal file. -/
def report (path : SearchPath) (settings : Settings) (o : RunOptions) (f : GoalFile) : RunReport :=
  let launcher : Launcher := { declarations := f.declarations, path }
  RunReport.ofRun (f.proofName o.file) f.goals settings o.apply launcher.launch

variable {m : Type → Type} [Monad m]

/-- The settings to start from: those of a file, or all that is installed. -/
def startSettings (host : Host m) (o : RunOptions) : m (Except CommandError Settings) := do
  match o.settings with
  | some path => return (Settings.ofFile path (← host.readFile path)).mapError .settings
  | none => return .ok (Provider.detect false host.path.installed).toSettings

/-- Settings are settled before the goal file is read. -/
def runGoals (host : Host m) (o : RunOptions) : m (Except CommandError String) := do
  match (← startSettings host o).bind fun start => resolve start o with
  | .error cause => return .error cause
  | .ok settings =>
    match GoalFile.ofFile o.file (← host.readFile o.file) with
    | .error cause => return .error (.goalFile cause)
    | .ok f =>
      let t := report host.path settings o f
      return .ok (if o.json then t.json else t.text)

/-- A line for each solver that is offered. -/
def listSolvers (path : SearchPath) (experimental : Bool) : String :=
  String.join ((Provider.detect experimental path.installed).entries.map fun e =>
    Text.padded 8 e.solver.name ++ (if e.installed then " installed\n" else " missing\n"))

/-- Writes a settings file that selects all that is installed. -/
def initSettings (host : Host m) (path : String) (seconds : Float) (experimental : Bool) :
    m (Except CommandError String) := do
  match (Provider.detect experimental host.path.installed).setTimeoutSeconds seconds with
  | .error cause => return .error (.settings (.timeout cause))
  | .ok p =>
    let s := p.toSettings
    match ← host.writeFile path (.ofText s.write) with
    | .error fault => return .error (.settings (.io path fault))
    | .ok _ => return .ok (s.summary ++ "\n")

def execute (host : Host m) : Command → m (Except CommandError String)
  | .version => return .ok "bsmt 0.1.0\n"
  | .run o => runGoals host o
  | .solvers experimental => return .ok (listSolvers host.path experimental)
  | .initSettings path seconds experimental => initSettings host path seconds experimental

/-- From arguments to the way it ends. -/
def run (host : Host m) (args : List String) : m Ending := do
  match Command.parse? host.settingsFile args with
  | none => return .misuse
  | some c =>
    match ← execute host c with
    | .ok output => return .done output
    | .error cause => return .failed cause

end CommandLine

end GoalWatch
