import GoalWatch.Json.Basic
import GoalWatch.Session.Report
import GoalWatch.Session.Selection
import GoalWatch.Text.Column

/-!
# Run reports

All goals of a new proof are handed to a launcher once, its answers are taken in and, if asked for, applied.

* `RunReport.ofRun` -- the report of such a run;
* `RunReport.text`, `RunReport.json` -- the report in lines, and as JSON.
-/

namespace GoalWatch

structure GoalReport where
  node : NodeId
  sequent : String
  result : Option Status
  applied : Option Session.ApplyOutcome
  deriving DecidableEq, Repr

structure RunReport where
  proof : String
  settings : String
  goals : List GoalReport
  closed : Bool
  deriving DecidableEq, Repr

namespace RunReport

/-! ## 1. The run -/

/-- A session with one proof of the given goals, and nothing selected. -/
def session (name : String) (goals : List Sequent) (settings : Settings) : Session :=
  { proofs := [{ name, tree := .ofGoals goals }], registry := { settings } }

/-- Takes in the answers of all launches that were handed out, in order. -/
def answerAll (launch : Launch → List Outcome) (s : Session) : Session :=
  s.outstanding.foldl
    (fun s o => s.complete Session.nested o.runner o.launch.batch (launch o.launch))
    { s with tasks := [] }

/-- The result of the latest problem of a node. -/
def resultOf (problems : List Problem) (n : NodeId) : Option Status :=
  (problems.reverse.find? fun p => p.node == n).bind Problem.result

/-- Marks the first row of a node. -/
def mark (goals : List GoalReport) (n : NodeId) (outcome : Session.ApplyOutcome) : List GoalReport :=
  match goals with
  | [] => []
  | g :: rest =>
    if g.node = n then { g with applied := some outcome } :: rest else g :: mark rest n outcome

/-- The rows of a run, before anything is applied. -/
def rows (s : Session) (r : RunnerId) : List GoalReport :=
  (s.proof 0).tree.goals.map fun g =>
    { node := g.node
      sequent := g.sequent.display
      result := resultOf (s.runner r).core.problems g.node
      applied := none }

/-- Applies every proved goal, and marks the rows. -/
def applyAll (s : Session) (r : RunnerId) (goals : List GoalReport) : List GoalReport × Session :=
  let (report, s) := s.report r
  let (outcomes, s) := s.applyReport Session.nested report
  (outcomes.foldl (fun goals o => mark goals o.1 o.2) goals, s)

/-- The report of a run over the given goals, whose launches `launch` answers. -/
def ofRun (name : String) (goals : List Sequent) (settings : Settings) (apply : Bool)
    (launch : Launch → List Outcome) : RunReport :=
  let (r, s) := (session name goals settings).select Session.nested 0
  let s := answerAll launch s
  let (goals, s) := if apply then applyAll s r (rows s r) else (rows s r, s)
  { proof := name, settings := settings.summary, goals, closed := (s.proof 0).tree.isClosed }

end RunReport

/-! ## 2. Texts -/

namespace GoalReport

def note (g : GoalReport) : String :=
  match g.applied with
  | some .applied => " [closed]"
  | some (.failed _) => " [apply failed]"
  | _ => ""

def line (g : GoalReport) : String :=
  let result := match g.result with
    | some status => status.display
    | none => "stopped"
  "Node " ++ Text.padded 4 (Nat.repr g.node) ++ " " ++ Text.padded 8 result ++ " " ++ g.sequent ++ g.note

/-- What may be absent is `null` then. -/
def orNull {α : Type} (f : α → Json) : Option α → Json
  | some x => f x
  | none => .null

def outcomeJson : Session.ApplyOutcome → Json
  | .applied => .fields [("outcome", .text "applied")]
  | .notApplicable => .fields [("outcome", .text "not_applicable")]
  | .failed reason => .fields [("outcome", .text "failed"), ("error", .text reason)]

def json (g : GoalReport) : Json :=
  .fields [("node", .natural g.node), ("sequent", .text g.sequent),
    ("result", orNull (fun (s : Status) => .text s.key) g.result), ("applied", orNull outcomeJson g.applied)]

end GoalReport

namespace RunReport

/-- The report in lines. -/
def text (t : RunReport) : String :=
  let lines := [t.proof ++ " (" ++ t.settings ++ ")"] ++ t.goals.map GoalReport.line ++
    (if t.closed then ["Proof closed"] else [])
  String.join (lines.map fun line => line ++ "\n")

/-- The report as JSON, over several lines. -/
def json (t : RunReport) : String :=
  (Json.fields [("proof", .text t.proof), ("settings", .text t.settings),
    ("goals", .array (t.goals.map GoalReport.json)), ("closed", .bool t.closed)]).pretty ++ "\n"

end RunReport

end GoalWatch
