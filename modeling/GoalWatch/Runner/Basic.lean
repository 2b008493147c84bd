import GoalWatch.Runner.Problem

/-!
# Runners

The memory of a runner: which batches are in flight, which nodes were handed out since the settings last
changed, which problems there were and how they ended, which nodes are proved. Every operation here is one
uninterrupted step; whom a step concerns besides the runner stands in its result.

* `Runner.dispatch` -- hands out goals as one batch, by one of two `Mode`s;
* `Runner.complete` -- takes in the answers of a batch in flight;
* `Runner.refresh`, `Runner.stopAll`, `Runner.close` -- the batches given up are returned;
* `Runner.phase` -- what the runner is doing.
-/

namespace GoalWatch

/-- Which goals a dispatch may pick. -/
inductive Mode where
  /-- Goals whose node was not handed out under the current settings. -/
  | fresh
  /-- Goals that are not running and for whose sequent there is no conclusive answer. -/
  | retry
  deriving DecidableEq, Repr

inductive Phase where
  | idle
  | dispatching
  | running
  | completing
  | suspended
  | closed
  deriving DecidableEq, Repr

namespace Phase

def all : List Phase := [idle, dispatching, running, completing, suspended, closed]

def display : Phase → String
  | idle => "idle"
  | dispatching => "dispatching"
  | running => "running"
  | completing => "completing"
  | suspended => "suspended"
  | closed => "closed"

/-- The name of the variant, as it stands in a description of internal state. -/
def variantName : Phase → String
  | idle => "Idle"
  | dispatching => "Dispatching"
  | running => "Running"
  | completing => "Completing"
  | suspended => "Suspended"
  | closed => "Closed"

end Phase

/-- A step that is under way while the proof is asked something. -/
inductive Activity where
  | none
  | dispatching
  | completing
  deriving DecidableEq, Repr

/-- `solved` is in ascending order; `inFlight` and `problems` are in order of creation. `launches` counts on without
    a bound, as the numbers of batches do. -/
structure Runner where
  settings : Settings
  inFlight : List BatchId := []
  dispatched : List NodeId := []
  solved : List NodeId := []
  problems : List Problem := []
  suspended : Bool := false
  closed : Bool := false
  launches : Nat := 0
  nextBatch : BatchId := 1
  deriving DecidableEq, Inhabited

/-- The first goal of each node. -/
def firstPerNode : List Goal → List Goal
  | [] => []
  | g :: r => g :: (firstPerNode r).filter fun h => h.node != g.node

/-- A node at its place in an ascending list; one that is there already is not repeated. -/
def insertNode (n : NodeId) : List NodeId → List NodeId
  | [] => [n]
  | m :: r => if n < m then n :: m :: r else if n = m then m :: r else m :: insertNode n r

/-- A node at the end of a list, unless it is in it. -/
def addNode (l : List NodeId) (n : NodeId) : List NodeId :=
  if l.contains n then l else l ++ [n]

namespace Runner

/-! ## 1. Views -/

/-- New batches may be created. -/
def accepting (r : Runner) : Bool := !r.closed && !r.suspended

def isSolved (r : Runner) (n : NodeId) : Bool := r.solved.contains n

/-- The first conclusive result of a problem with the same sequent. -/
def cachedResult (r : Runner) (s : Sequent) : Option Status :=
  ((r.problems.filter fun p => p.sequent = s).filterMap Problem.result).find? Status.isDefinitive

/-- The node has a problem without a result in a batch that is in flight. -/
def isRunning (r : Runner) (n : NodeId) : Bool :=
  r.problems.any fun p => p.node == n && p.result.isNone && r.inFlight.contains p.batch

/-- What the runner is doing while the given step is under way. -/
def phaseDuring (r : Runner) (activity : Activity) : Phase :=
  if r.closed then .closed
  else if r.suspended then .suspended
  else match activity with
    | .completing => .completing
    | .dispatching => .dispatching
    | .none => if r.inFlight.isEmpty then .idle else .running

/-- What the runner is doing between steps. -/
def phase (r : Runner) : Phase := r.phaseDuring .none

/-! ## 2. Handing out -/

/-- The goal is left out of a dispatch. -/
def skips (r : Runner) (mode : Mode) (g : Goal) : Bool :=
  match mode with
  | .fresh => r.dispatched.contains g.node
  | .retry => r.isRunning g.node || (r.cachedResult g.sequent).isSome

/-- The goals that a dispatch hands out. Only the first goal of each node counts. -/
def pick (r : Runner) (mode : Mode) (goals : List Goal) : List Goal :=
  (firstPerNode goals).filter fun g => !r.skips mode g

/-- Hands out goals as one batch. A batch number is used up even if there is nothing to hand out. -/
def dispatch (r : Runner) (mode : Mode) (goals : List Goal) : Option Launch × Runner :=
  let batch := r.nextBatch
  let numbered := { r with nextBatch := batch + 1 }
  let picked := r.pick mode goals
  if r.closed || r.suspended || !r.settings.hasSolvers || picked.isEmpty then (none, numbered)
  else
    (some { batch, settings := r.settings, problems := picked },
      { numbered with
        dispatched := picked.foldl (fun l g => addNode l g.node) r.dispatched
        problems := r.problems ++ picked.map fun g => { node := g.node, sequent := g.sequent, batch }
        inFlight := r.inFlight ++ [batch]
        launches := r.launches + 1 })

/-- Hands out the open goals, unless no batch may be created. -/
def dispatchOpen (r : Runner) (mode : Mode) (goals : List Goal) : Option Launch × Runner :=
  if r.accepting then r.dispatch mode goals else (none, r)

def suspend (r : Runner) : Runner :=
  if r.closed then r else { r with suspended := true }

def unsuspend (r : Runner) : Runner :=
  if r.closed then r else { r with suspended := false }

def setSolvers (r : Runner) (solvers : SolverSet) : Runner :=
  { r with settings := { r.settings with solvers } }

/-! ## 3. Answers -/

/-- The answer for a node: the first outcome counts, and none is unknown. -/
def statusOf (outcomes : List Outcome) (n : NodeId) : Status :=
  match outcomes.find? fun o => o.node == n with
  | some o => o.status
  | none => .unknown

/-- Takes in the answers of a batch; none if it is not in flight. A node is proved when its problem had
    no result, the answer is valid and the proof still has the node (`found`). Problems of nodes that the
    proof no longer has (`kept`, asked later than `found`) are forgotten once their batch is over. -/
def complete (r : Runner) (found kept : NodeId → Bool) (batch : BatchId) (outcomes : List Outcome) :
    Option Runner :=
  if r.inFlight.contains batch then
    let inFlight := r.inFlight.erase batch
    let answered := r.problems.filter fun p => p.batch == batch && p.result.isNone
    let proved := answered.filter fun p => statusOf outcomes p.node == .valid && found p.node
    let resolved := r.problems.map fun p =>
      if p.batch == batch then p.resolve (statusOf outcomes p.node) else p
    some { r with
      inFlight
      solved := proved.foldl (fun l p => insertNode p.node l) r.solved
      problems := resolved.filter fun p => kept p.node || inFlight.contains p.batch }
  else none

/-! ## 4. Giving up -/

/-- Takes over new settings and forgets what was done under the old ones; proved nodes stay proved. -/
def refresh (r : Runner) (settings : Settings) : List BatchId × Runner :=
  (r.inFlight, { r with settings, inFlight := [], dispatched := [], problems := [] })

def stopAll (r : Runner) : List BatchId × Runner :=
  (r.inFlight, { r with inFlight := [] })

/-- Ends the runner for good. -/
def close (r : Runner) : List BatchId × Runner :=
  if r.closed then ([], r)
  else
    (r.inFlight, { r with
      inFlight := []
      dispatched := []
      solved := []
      problems := []
      suspended := false
      closed := true })

end Runner

end GoalWatch
