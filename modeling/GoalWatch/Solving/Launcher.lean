import GoalWatch.Solving.Program

/-!
# Launchers

* `SearchPath` -- the programs that can be found by name;
* `Launcher` -- programs given for solvers, the search path for the others, and what every script declares;
* `Launcher.launch` -- one outcome for each problem of a launch, in order.
-/

namespace GoalWatch

/-! ## 1. Finding programs -/

/-- A file on the search path. -/
structure PathEntry where
  name : String
  runnable : Bool
  program : Program

abbrev SearchPath := List PathEntry

namespace SearchPath

/-- The program of a solver. What cannot be run is not found. -/
def locate? (path : SearchPath) (s : Solver) : Option PathEntry :=
  path.find? fun e => e.name == s.binary && e.runnable

/-- The solvers whose programs are found. -/
def installed (path : SearchPath) : SolverSet := ⟨fun s => (path.locate? s).isSome⟩

end SearchPath

/-! ## 2. Launching -/

structure Launcher where
  declarations : List String := []
  commands : List (Solver × Program) := []
  path : SearchPath := []

namespace Launcher

/-- The program that is started for a solver. -/
def program? (l : Launcher) (s : Solver) : Option Program :=
  match l.commands.lookup s with
  | some p => some p
  | none => (l.path.locate? s).map PathEntry.program

/-- How the run of a solver on a script goes. -/
def course (l : Launcher) (limit : Timeout) (script : String) (s : Solver) : Course :=
  match l.program? s with
  | none => .unstarted ⟨s, .error (.notInstalled s)⟩
  | some p => p.course s limit script

/-- The runs on the problem with the number `i`. -/
def jobsFor (l : Launcher) (settings : Settings) (g : Goal) (i : Nat) : List Job :=
  match Script.ofSequent l.declarations g.sequent with
  | .error _ => []
  | .ok script =>
    settings.backgroundSolvers.map fun s => { owner := i, course := l.course settings.timeout script s }

/-- All runs of a launch, problem by problem. -/
def jobs (l : Launcher) (launch : Launch) : List Job :=
  (launch.problems.mapIdx fun i g => l.jobsFor launch.settings g i).flatten

/-- The outcomes of a launch, in the order of its problems. -/
def launch (l : Launcher) (launch : Launch) : List Outcome :=
  let ended := Schedule.finish launch.settings.maxProcesses.toNat (l.jobs launch)
  let runs (i : Nat) : List Run := (ended.filter fun x => x.1 == i).map Prod.snd
  Portfolio.solveAll l.declarations launch.settings runs launch.problems

end Launcher

end GoalWatch
