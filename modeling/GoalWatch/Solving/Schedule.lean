import GoalWatch.Solving.Portfolio

/-!
# Schedules

Many runs share a few slots. A run that finds no free slot waits; slots are given out in the order in which
they were asked for. When a problem has its answer, its other runs are given up.

* `Course` -- how a run goes once it has a slot;
* `Schedule` -- who has a slot and who waits for one;
* `Schedule.step` -- the next run ends;
* `Schedule.finish` -- all runs, in the order in which they end.
-/

namespace GoalWatch

/-! ## 1. Runs -/

/-- How a run goes. -/
inductive Course where
  /-- There is nothing to start: it is over without a slot. -/
  | unstarted (run : Run)
  /-- It is over as soon as it has a slot. -/
  | failing (run : Run)
  /-- It keeps a slot for so long. Of two runs that end at the same time, the one that began first ends
      first. -/
  | lasting (millis : Nat) (run : Run)
  /-- It keeps a slot for good. -/
  | endless

def Course.needsSlot : Course → Bool
  | .unstarted _ => false
  | _ => true

/-- A run that works on the problem with the number `owner`. -/
structure Job where
  owner : Nat
  course : Course

/-- A run that has a slot until the time `ends`. -/
structure Running where
  ends : Nat
  owner : Nat
  run : Run

/-- A run at its place among others in the order in which they end. -/
def Running.insert (x : Running) : List Running → List Running
  | [] => [x]
  | y :: rest => if x.ends < y.ends then x :: y :: rest else y :: x.insert rest

/-! ## 2. Slots -/

/-- `waiting` is in the order of asking, `running` and `ended` in the order of ending; `endless` holds the
    problems of the runs that keep a slot for good. -/
structure Schedule where
  free : Nat
  now : Nat := 0
  waiting : List Job := []
  running : List Running := []
  endless : List Nat := []
  ended : List (Nat × Run) := []

namespace Schedule

/-- A run begins, with a slot if it needs one. -/
def start (d : Schedule) (j : Job) : Schedule :=
  match j.course with
  | .unstarted run => { d with ended := d.ended ++ [(j.owner, run)] }
  | .failing run => { d with ended := d.ended ++ [(j.owner, run)] }
  | .lasting millis run =>
    let x : Running := { ends := d.now + millis, owner := j.owner, run }
    { d with free := d.free - 1, running := x.insert d.running }
  | .endless => { d with free := d.free - 1, endless := j.owner :: d.endless }

/-- A run begins if it can, and waits otherwise. -/
def offer (d : Schedule) (j : Job) : Schedule :=
  if j.course.needsSlot && d.free = 0 then { d with waiting := d.waiting ++ [j] } else d.start j

/-- All runs on a problem are given up. -/
def giveUp (d : Schedule) (owner : Nat) : Schedule :=
  { d with
    free := d.free + (d.running.filter fun x => x.owner == owner).length + d.endless.count owner
    waiting := d.waiting.filter fun j => j.owner != owner
    running := d.running.filter fun x => x.owner != owner
    endless := d.endless.filter fun o => o != owner }

/-- The next run ends, and whoever can begin does so. -/
def step (d : Schedule) : Schedule :=
  match d.running with
  | [] => d
  | x :: rest =>
    let d := { d with
      now := x.ends
      free := d.free + 1
      running := rest
      ended := d.ended ++ [(x.owner, x.run)] }
    let d := if x.run.answer?.isSome then d.giveUp x.owner else d
    d.waiting.foldl offer { d with waiting := [] }

def steps : (count : Nat) → Schedule → Schedule
  | 0, d => d
  | count + 1, d => steps count d.step

/-- All runs that come to an end, in this order, with at least one slot. Every step ends a run, so there are
    no more steps than runs. -/
def finish (slots : Nat) (jobs : List Job) : List (Nat × Run) :=
  (steps jobs.length (jobs.foldl offer { free := max 1 slots })).ended

end Schedule

end GoalWatch
