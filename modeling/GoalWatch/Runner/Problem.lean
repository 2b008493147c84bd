import GoalWatch.Proof.Tree
import GoalWatch.Settings

/-!
# Problems and answers

A goal that is handed to the solvers becomes a problem of a batch; what comes back is an outcome.

* `Status` -- valid, invalid or unknown;
* `Problem` -- a goal in a batch, with its result once there is one;
* `Launch` -- a batch as it is handed out;
* `Outcome` -- the answer for one node;
* `LaunchError` -- why a solver gave no answer.
-/

namespace GoalWatch

/-- The number of a batch, from a counter that goes up by one with each. NOT here: the counter has 64 bits, and
    after `2 ^ 64` batches numbers would come again. -/
abbrev BatchId := Nat

def BatchId.display (b : BatchId) : String := "batch#" ++ Nat.repr b

inductive Status where
  | valid
  | invalid
  | unknown
  deriving DecidableEq, Repr, Inhabited

namespace Status

def display : Status → String
  | valid => "valid"
  | invalid => "invalid"
  | unknown => "unknown"

/-- The name used in reports. -/
def key : Status → String
  | valid => "Valid"
  | invalid => "Invalid"
  | unknown => "Unknown"

def isDefinitive : Status → Bool
  | unknown => false
  | _ => true

end Status

/-- A goal in a batch. -/
structure Problem where
  node : NodeId
  sequent : Sequent
  batch : BatchId
  result : Option Status := none
  deriving DecidableEq, Repr

/-- The first result stands. -/
def Problem.resolve (p : Problem) (status : Status) : Problem :=
  match p.result with
  | none => { p with result := some status }
  | some _ => p

/-- A batch as it is handed out, with the settings at that moment. -/
structure Launch where
  batch : BatchId
  settings : Settings
  problems : List Goal
  deriving DecidableEq

/-- The answer for one node: which solver gave it, or why there is none. -/
structure Outcome where
  node : NodeId
  status : Status
  solver : Option Solver := none
  reason : Option String := none
  deriving DecidableEq, Repr

/-- Why a solver gave no answer. -/
inductive LaunchError where
  | noScript (reason : String)
  | notInstalled (solver : Solver)
  | spawn (solver : Solver) (reason : String)
  | io (solver : Solver) (reason : String)
  | timedOut (solver : Solver)
  | limiterClosed
  deriving DecidableEq, Repr

def LaunchError.message : LaunchError → String
  | .noScript reason => "Translation failed: " ++ reason
  | .notInstalled s => s.name ++ " is not installed"
  | .spawn s reason => "Failed to start " ++ s.name ++ ": " ++ reason
  | .io s reason => "I/O error talking to " ++ s.name ++ ": " ++ reason
  | .timedOut s => s.name ++ " timed out"
  | .limiterClosed => "Process limiter closed"

end GoalWatch
