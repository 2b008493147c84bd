import GoalWatch.Session.Report
import GoalWatch.Session.Selection

/-!
# Rehearsals

A session played against a launcher that answers from a table. A launch that was handed out starts when
the session settles; then it answers at once or, if the launcher is gated, waits to be released.

* `Rehearsal` -- a session and the table;
* `Rehearsal.settle` -- all launches and waits go on, in order, until none can;
* `Rehearsal.release` -- lets a waiting launch return the given outcomes.
-/

namespace GoalWatch

structure Rehearsal where
  session : Session
  gated : Bool := false
  answers : List (Sequent × Status) := []
  reports : List Report := []

instance : Inhabited Rehearsal := ⟨{ session := default }⟩

namespace Rehearsal

/-! ## 1. The launcher -/

/-- The status of a sequent: the latest entry of the table, unknown if there is none. -/
def answer (t : Rehearsal) (s : Sequent) : Status :=
  (t.answers.lookup s).getD .unknown

def addAnswers (t : Rehearsal) (new : List (Sequent × Status)) : Rehearsal :=
  { t with answers := new.reverse ++ t.answers }

def outcomes (t : Rehearsal) (launch : Launch) : List Outcome :=
  launch.problems.map fun g => { node := g.node, status := t.answer g.sequent }

/-- The launch still matters: its batch is in flight. -/
def isLive (t : Rehearsal) (o : Outstanding) : Bool :=
  (t.session.runner o.runner).core.inFlight.contains o.launch.batch

def modifySession (t : Rehearsal) (f : Session → Session) : Rehearsal :=
  { t with session := f t.session }

/-- Puts a task back among those that are not over. -/
def keep (t : Rehearsal) (x : Task) : Rehearsal :=
  t.modifySession fun s => { s with tasks := s.tasks ++ [x] }

/-- A launch goes on as far as it can. -/
def advanceLaunch (t : Rehearsal) (o : Outstanding) : Rehearsal :=
  if t.isLive o then
    match o.stage with
    | .waiting => t.keep (.launch o)
    | .ready outcomes =>
      t.modifySession fun s => s.complete Session.nested o.runner o.launch.batch outcomes
    | .queued =>
      let t := t.modifySession fun s => s.record (.started o.runner o.launch)
      if t.gated then t.keep (.launch { o with stage := .waiting })
      else t.modifySession fun s =>
        s.complete Session.nested o.runner o.launch.batch (t.outcomes o.launch)
  else t

/-- One who waits looks whether the runner has nothing in flight. -/
def advanceWait (t : Rehearsal) (w : Wait) : Rehearsal :=
  if (t.session.runner w.runner).core.inFlight.isEmpty then t.modifySession fun s => s.endWait w
  else t.keep (.wait { w with asleep := true })

def advance (t : Rehearsal) : Task → Rehearsal
  | .launch o => t.advanceLaunch o
  | .wait w => t.advanceWait w

/-- The task can go on, if only to end. -/
def isReady (t : Rehearsal) : Task → Bool
  | .launch o => o.stage != .waiting || !t.isLive o
  | .wait w => !w.asleep

/-- The first task that can go on does so; none if there is none. -/
def step? (t : Rehearsal) : Option Rehearsal :=
  match t.session.tasks.span fun x => !t.isReady x with
  | (_, []) => none
  | (before, x :: after) =>
    some ((t.modifySession fun s => { s with tasks := before ++ after }).advance x)

def steps : (limit : Nat) → Rehearsal → Rehearsal
  | 0, t => t
  | limit + 1, t =>
    match t.step? with
    | some t => steps limit t
    | none => t

/-- How many steps a settling may take. -/
def maxSteps : Nat := 100000

/-- All tasks go on, in order, until none can. -/
def settle (t : Rehearsal) : Rehearsal := steps maxSteps t

/-- Lets a waiting launch return the given outcomes, after all that can go on already; says whether
    there was one. -/
def release (t : Rehearsal) (r : RunnerId) (batch : BatchId) (outcomes : List Outcome) :
    Bool × Rehearsal :=
  let waits (x : Task) : Bool :=
    x.launch?.any fun o => o.runner == r && o.launch.batch == batch && o.stage == .waiting
  let freed (x : Task) : Option Task :=
    x.launch?.map fun o => .launch { o with stage := .ready outcomes }
  match t.session.tasks.partition waits with
  | ([], _) => (false, t)
  | (released, others) =>
    (true, t.modifySession fun s => { s with tasks := others ++ released.filterMap freed })

/-! ## 2. Reports -/

/-- Makes a report and keeps it. -/
def report (t : Rehearsal) (r : RunnerId) : Report × Rehearsal :=
  let (report, session) := t.session.report r
  (report, { t with session, reports := t.reports ++ [report] })

def reportAt (t : Rehearsal) (i : Nat) : Report := t.reports.getD i default

def modifyReport (t : Rehearsal) (i : Nat) (f : Report → Report) : Rehearsal :=
  { t with reports := t.reports.modify i f }

end Rehearsal

end GoalWatch
