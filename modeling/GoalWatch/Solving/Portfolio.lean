import GoalWatch.Runner.Problem
import GoalWatch.Script
import GoalWatch.Text.Blank

/-!
# Portfolios

Several solvers work on one problem; the first conclusive answer counts and the others are given up.

* `Status.ofOutput` -- the status that the output of a solver stands for;
* `Run` -- how the run of one solver ended;
* `Portfolio.conclude` -- the outcome, given the runs in the order in which they end;
* `Portfolio.solve`, `Portfolio.solveAll` -- the outcomes of problems, from their scripts on.
-/

namespace GoalWatch

/-! ## 1. Answers -/

/-- The first line that is not blank, without blanks around it. -/
def firstLine? (output : String) : Option String :=
  ((output.splitOn "\n").map Text.trim).find? fun line => !line.isEmpty

/-- A solver is asked for a counterexample: to find none is to have proved the problem. -/
def Status.ofOutput (output : String) : Status :=
  match firstLine? output with
  | some "unsat" => .valid
  | some "sat" => .invalid
  | _ => .unknown

/-! ## 2. Runs -/

/-- How the run of one solver ended. -/
structure Run where
  solver : Solver
  result : Except LaunchError Status

namespace Run

/-- The conclusive answer of a run. -/
def answer? (r : Run) : Option Status :=
  match r.result with
  | .ok status => if status.isDefinitive then some status else none
  | .error _ => none

/-- What a run without a conclusive answer leaves behind. -/
def reason (r : Run) : String :=
  match r.result with
  | .ok _ => r.solver.name ++ " returned unknown"
  | .error e => e.message

end Run

/-! ## 3. Conclusions -/

namespace Portfolio

/-- The outcome of a problem without an answer. -/
def unanswered (node : NodeId) (reason : String) : Outcome :=
  { node, status := .unknown, reason := some reason }

/-- The outcome of a problem when `runs` end in this order. -/
def conclude (node : NodeId) (runs : List Run) : Outcome :=
  match runs.find? fun r => r.answer?.isSome with
  | some r => { node, status := r.answer?.getD .unknown, solver := some r.solver }
  | none => unanswered node (String.intercalate "; " (runs.map Run.reason))

/-- The outcome of a problem when the runs on it end in this order. -/
def solve (declarations : List String) (settings : Settings) (runs : List Run) (g : Goal) : Outcome :=
  match Script.ofSequent declarations g.sequent with
  | .error fault => unanswered g.node (LaunchError.noScript fault.message).message
  | .ok _ =>
    match settings.backgroundSolvers with
    | [] => unanswered g.node "no solver selected"
    | _ => conclude g.node runs

/-- The outcomes of problems, in order, when the runs on the problem with the number `i` end in the order
    `runs i`. -/
def solveAll (declarations : List String) (settings : Settings) (runs : Nat → List Run)
    (problems : List Goal) : List Outcome :=
  problems.mapIdx fun i g => solve declarations settings (runs i) g

end Portfolio

end GoalWatch
