import GoalWatch.Proof.Event
import GoalWatch.Runner.Basic
import GoalWatch.Text.Quoted

/-!
# Sessions

A session holds everything that can call something else: proofs with their subscribers, runners with their
listeners, the registry with its observers. Whoever is called may call back; what each client does when it
is called is part of the session's state.

* `Call` -- what a client may ask for while it is being called;
* `Watched` -- a proof, how it presents itself, and what it has yet to tell;
* `Hosted` -- a runner, its listeners and its subscription;
* `Registry` -- one runner per proof, the proof selected now, the observers;
* `Task` -- what goes on between calls: launches, and waits for a runner;
* `Entry` -- what is written down about a session, the newest entry first;
* `Session` -- all of it.
-/

namespace GoalWatch

abbrev ProofId := Nat

def ProofId.display (p : ProofId) : String := "proof#" ++ Nat.repr p

abbrev RunnerId := Nat

/-- The number of a subscription, from a counter of its proof that goes up by one with each. NOT here: the counter
    has 64 bits, and after `2 ^ 64` subscriptions numbers would come again. -/
abbrev SubscriptionId := Nat

abbrev SinkId := Nat
abbrev ListenerId := Nat

/-! ## 1. Calls and clients -/

/-- What a sink may ask of the proof that calls it. -/
inductive ProofCall where
  | applyRule (node : NodeId) (rule : String) (new : List Sequent)
  | prune (node : NodeId)
  | startAuto
  | stopAuto
  | pause
  | resume
  | unsubscribe (id : SubscriptionId)
  deriving DecidableEq, Repr

/-- What a client may ask for while it is being called. -/
inductive Call where
  | proof (p : ProofId) (call : ProofCall)
  | dispatch (r : RunnerId)
  | resume (r : RunnerId)
  | stop (r : RunnerId)
  | shutdown (r : RunnerId)
  /-- Applies the first result of the active runner that can be applied. -/
  | applyFirst
  | dispose (l : ListenerId)
  deriving DecidableEq, Repr

/-- A subscriber of its own: what it asks for when it is shown an event, given how many it was shown
    before. -/
structure ClientSink where
  react : Nat → Event → List ProofCall
  shown : Nat

/-- Who is shown the events of a proof. -/
inductive Sink where
  | runner (r : RunnerId)
  | client (k : SinkId)
  deriving DecidableEq, Repr

structure Subscriber where
  id : SubscriptionId
  sink : Sink
  deriving DecidableEq, Repr

/-- Where a listener is registered. -/
inductive Home where
  | runner (r : RunnerId)
  | registry
  deriving DecidableEq, Repr

/-- A client that wants to know of changes: what it asks for when told of one. `held` is true as long as
    its owner keeps the registration. -/
structure Listener where
  home : Home
  slot : Nat
  held : Bool
  calls : List Call
  deriving DecidableEq, Repr

/-- Listeners in order of registration, each in a numbered slot. Numbers are not used twice. NOT here: the counter
    `nextSlot` has 64 bits, and after `2 ^ 64` registrations numbers would come again. -/
structure ListenerSet (α : Type) where
  slots : List (Nat × α) := []
  nextSlot : Nat := 0
  deriving DecidableEq, Repr

namespace ListenerSet

variable {α : Type}

instance : Inhabited (ListenerSet α) := ⟨{}⟩

def add (l : ListenerSet α) (x : α) : ListenerSet α :=
  { slots := l.slots ++ [(l.nextSlot, x)], nextSlot := l.nextSlot + 1 }

def remove (l : ListenerSet α) (slot : Nat) : ListenerSet α :=
  { l with slots := l.slots.filter fun x => x.1 != slot }

def clear (l : ListenerSet α) : ListenerSet α := { l with slots := [] }

def contains (l : ListenerSet α) (slot : Nat) : Bool := l.slots.any fun x => x.1 == slot

def targets (l : ListenerSet α) : List α := l.slots.map Prod.snd

end ListenerSet

/-- Whom a runner tells of a change. -/
inductive Target where
  /-- The registry that keeps the runner of this proof. -/
  | registry (p : ProofId)
  | client (l : ListenerId)
  deriving DecidableEq, Repr

/-! ## 2. Proofs -/

/-- How steps are numbered in reports. -/
inductive StepNumbering where
  | shifted (offset : Nat)
  | absent
  deriving DecidableEq, Repr

/-- How a proof presents itself to runners, registry and reports. The plain one shows the tree as it is. -/
structure Facade where
  /-- The rule that applies a result is refused for this reason. -/
  reject : Option String := none
  /-- Pruning is refused. -/
  failPrune : Bool := false
  /-- Nodes that are said to be no goals. -/
  notGoal : List NodeId := []
  /-- Nodes whose goal is not handed out. -/
  hideGoal : List NodeId := []
  steps : StepNumbering := .shifted 0
  /-- All open goals are listed twice. -/
  doubleGoals : Bool := false
  /-- Every question for goals or nodes writes down what the proof's runners are doing. -/
  probe : Bool := false
  /-- The next subscription is followed by a selection of this very proof. -/
  selectOnSubscribe : Bool := false
  deriving DecidableEq, Repr, Inhabited

/-- A proof in a session. While `paused` is not zero, events are held back. -/
structure Watched where
  name : String
  tree : Tree
  facade : Facade := {}
  paused : Nat := 0
  held : List Event := []
  subscribers : List Subscriber := []
  nextSubscription : SubscriptionId := 0
  deriving DecidableEq, Repr, Inhabited

namespace Watched

def openGoals (w : Watched) : List Goal :=
  if w.facade.doubleGoals then w.tree.goals ++ w.tree.goals else w.tree.goals

def isGoal (w : Watched) (n : NodeId) : Bool :=
  w.tree.isGoal n && !w.facade.notGoal.contains n

def goal? (w : Watched) (n : NodeId) : Option Goal :=
  if w.facade.hideGoal.contains n then none else w.tree.goal? n

/-- A subscriber gets the next number; numbers are not used twice. -/
def addSubscriber (sink : Sink) (w : Watched) : Watched :=
  { w with
    subscribers := w.subscribers ++ [⟨w.nextSubscription, sink⟩]
    nextSubscription := w.nextSubscription + 1 }

def stepIndex? (w : Watched) (n : NodeId) : Option Nat :=
  match w.facade.steps with
  | .shifted offset => (w.tree.stepIndex? n).map (· + offset)
  | .absent => none

end Watched

/-! ## 3. Runners and the registry -/

/-- Who keeps a runner. -/
inductive Standing where
  /-- Just made and not yet kept; for good if the registry keeps another one instead. -/
  | candidate
  | held
  /-- Given up by its owner, and kept only by those who wait for it. -/
  | lingering
  | dropped
  deriving DecidableEq, Repr

/-- A runner in a session. -/
structure Hosted where
  proof : ProofId
  core : Runner
  listeners : ListenerSet Target := {}
  subscription : Option SubscriptionId
  standing : Standing
  deriving DecidableEq

instance : Inhabited Hosted :=
  ⟨{ proof := 0, core := default, subscription := none, standing := .dropped }⟩

/-- One runner per proof, in order of registration. -/
structure Registry where
  settings : Settings
  entries : List (ProofId × RunnerId) := []
  active : Option ProofId := none
  observers : ListenerSet ListenerId := {}
  deriving DecidableEq, Inhabited

namespace Registry

def runnerFor? (g : Registry) (p : ProofId) : Option RunnerId := g.entries.lookup p

def activeRunner? (g : Registry) : Option RunnerId := g.active.bind g.runnerFor?

end Registry

/-- How far a launch has come. -/
inductive Stage where
  | queued
  | waiting
  | ready (outcomes : List Outcome)
  deriving DecidableEq, Repr

/-- A launch that is not over. -/
structure Outstanding where
  runner : RunnerId
  launch : Launch
  stage : Stage
  deriving DecidableEq

/-- Someone waits until a runner has nothing in flight. One who has looked sleeps until there is news. -/
structure Wait where
  runner : RunnerId
  number : Nat
  asleep : Bool := false
  deriving DecidableEq, Repr

/-- What goes on between calls. -/
inductive Task where
  | launch (o : Outstanding)
  | wait (w : Wait)
  deriving DecidableEq

namespace Task

def launch? : Task → Option Outstanding
  | .launch o => some o
  | .wait _ => none

def wait? : Task → Option Wait
  | .launch _ => none
  | .wait w => some w

/-- Someone waits for the runner. -/
def awaits (r : RunnerId) (x : Task) : Bool :=
  x.wait?.any fun w => w.runner == r

def sleepsFor (r : RunnerId) (x : Task) : Bool :=
  x.wait?.any fun w => w.runner == r && w.asleep

def awake : Task → Task
  | .launch o => .launch o
  | .wait w => .wait { w with asleep := false }

end Task

/-! ## 4. What is written down -/

/-- What a listener or observer can see when it is told of a change. -/
inductive View where
  | runner (phase : Phase) (solved : List NodeId) (inFlight : List BatchId)
  /-- The runner was given up by its owner. -/
  | gone
  /-- The proofs with a runner and what it proved, and the active proof. -/
  | registry (runners : List (ProofId × List NodeId)) (active : Option ProofId)
  deriving DecidableEq, Repr

inductive Entry where
  /-- A proof has something to tell. -/
  | emitted (p : ProofId) (e : Event)
  /-- It starts telling these subscribers, with this pause count. -/
  | delivered (p : ProofId) (e : Event) (paused : Nat) (subscribers : List SubscriptionId)
  | shown (p : ProofId) (id : SubscriptionId) (e : Event)
  /-- A batch was handed out. -/
  | requested (r : RunnerId) (launch : Launch)
  /-- The solvers were started on a batch. -/
  | started (r : RunnerId) (launch : Launch)
  /-- The answers of a batch in flight were taken in. -/
  | completed (r : RunnerId) (batch : BatchId) (outcomes : List Outcome)
  /-- The launcher was told to give up a batch. -/
  | stopped (r : RunnerId) (batch : BatchId)
  | notified (l : ListenerId) (view : View)
  | probed (phase : Phase)
  deriving DecidableEq

/-! ## 5. Sessions -/

structure Session where
  proofs : List Watched
  runners : List Hosted := []
  registry : Registry
  sinks : List ClientSink := []
  listeners : List Listener := []
  /-- Those that can go on do so in this order. -/
  tasks : List Task := []
  /-- Whether each wait so far has ended. -/
  waits : List Bool := []
  log : List Entry := []

namespace Session

instance : Inhabited Session := ⟨{ proofs := [], registry := default }⟩

def proof (s : Session) (p : ProofId) : Watched := s.proofs.getD p default

def runner (s : Session) (r : RunnerId) : Hosted := s.runners.getD r default

def modifyProof (s : Session) (p : ProofId) (f : Watched → Watched) : Session :=
  { s with proofs := s.proofs.modify p f }

def modifyRunner (s : Session) (r : RunnerId) (f : Hosted → Hosted) : Session :=
  { s with runners := s.runners.modify r f }

def setCore (s : Session) (r : RunnerId) (core : Runner) : Session :=
  s.modifyRunner r fun h => { h with core }

def setTree (s : Session) (p : ProofId) (tree : Tree) : Session :=
  s.modifyProof p fun w => { w with tree }

def record (s : Session) (e : Entry) : Session := { s with log := e :: s.log }

def recordAll (s : Session) (es : List Entry) : Session := { s with log := es.reverse ++ s.log }

/-- The launches that are not over. -/
def outstanding (s : Session) : List Outstanding := s.tasks.filterMap Task.launch?

def isHeld (s : Session) (r : RunnerId) : Bool := (s.runner r).standing == .held

/-- What a listener at the given place can see. -/
def view (s : Session) : Home → View
  | .runner r =>
    let core := (s.runner r).core
    if s.isHeld r then .runner core.phase core.solved core.inFlight else .gone
  | .registry =>
    .registry (s.registry.entries.map fun e => (e.1, (s.runner e.2).core.solved))
      (s.registry.activeRunner?.map fun r => (s.runner r).proof)

end Session

/-! ## 6. Descriptions -/

/-- A description of a proof; `id` is the text of its identity. -/
def Watched.describe (w : Watched) (id : String) : String :=
  "MemoryProof \x7b id: " ++ id ++ ", name: " ++ Text.quoted w.name ++ ", .. \x7d"

/-- A description of a runner; `proof` is the text of its proof's identity. -/
def Hosted.describe (h : Hosted) (proof : String) : String :=
  "BackgroundSolverRunner \x7b proof: " ++ proof ++ ", phase: " ++ h.core.phase.variantName ++ ", .. \x7d"

def Listener.describe (l : Listener) : String :=
  "ListenerRegistration \x7b id: " ++ Nat.repr l.slot ++ " \x7d"

end GoalWatch
