import GoalWatch.Session.Callback

/-!
# Reports

What a front end shows of a session.

* `Report` -- the proved nodes of a runner, with a selection; `Session.applyReport` applies it;
* `Session.indicator` -- the active runner has proved something;
* `Session.decoration` -- how a node of the active proof is drawn.
-/

namespace GoalWatch

structure ReportRow where
  node : NodeId
  label : String
  selected : Bool
  deriving DecidableEq, Repr

structure Report where
  title : String
  rows : List ReportRow
  deriving DecidableEq, Repr, Inhabited

namespace Report

def selectAll (t : Report) (value : Bool) : Report :=
  { t with rows := t.rows.map fun r => { r with selected := value } }

/-- Flips the first row of the node. -/
def toggleRows (n : NodeId) : List ReportRow → List ReportRow
  | [] => []
  | r :: rest =>
    if r.node = n then { r with selected := !r.selected } :: rest else r :: toggleRows n rest

def toggle (t : Report) (n : NodeId) : Report := { t with rows := toggleRows n t.rows }

def selected (t : Report) : List NodeId :=
  (t.rows.filter ReportRow.selected).map ReportRow.node

end Report

/-- Whether the apply action is offered next to a node. -/
inductive Decoration where
  | applicable
  | plain
  deriving DecidableEq, Repr

namespace Session

/-- A report on the proved nodes of a runner that the proof still has; all are selected. -/
def report (s : Session) (r : RunnerId) : Report × Session :=
  let h := s.runner r
  let w := s.proof h.proof
  let rows := (h.core.solved.filter w.tree.contains).map fun n =>
    { node := n, label := "Node " ++ Nat.repr ((w.stepIndex? n).getD n), selected := true }
  let s := if h.core.solved.isEmpty then s else s.probe h.proof r .none
  ({ title := "Background SMT Status: " ++ w.name, rows }, s)

/-- Applies results to the nodes one after the other. -/
def applyResults (again : Again) (s : Session) :
    List NodeId → List (NodeId × ApplyOutcome) × Session
  | [] => ([], s)
  | n :: rest =>
    let (outcome, s) := applyResult again s n
    let (outcomes, s) := applyResults again s rest
    ((n, outcome) :: outcomes, s)

/-- Applies the selected rows, in order, to whatever proof is active. -/
def applyReport (again : Again) (s : Session) (t : Report) :
    List (NodeId × ApplyOutcome) × Session :=
  applyResults again s t.selected

def indicator (s : Session) : Bool :=
  match s.registry.activeRunner? with
  | some r => !(s.runner r).core.solved.isEmpty
  | none => false

def decoration (s : Session) (n : NodeId) : Decoration × Session :=
  match s.registry.activeRunner? with
  | none => (.plain, s)
  | some r =>
    if (s.proof (s.runner r).proof).tree.isLeaf n then
      (if s.canApply n then .applicable else .plain, s.lookUp n)
    else (.plain, s)

end Session

end GoalWatch
