import GoalWatch.Session.Basic

/-!
# Calls and callbacks

The steps of a session that call clients. A client may call back in the middle of such a step; how a call
from inside is carried out is a parameter, `again`, of every step here, so that each of them is plain
recursion over the clients it calls. `perform` ties the knot: a call is carried out with calls from inside
it nested up to a given depth.

* `Session.emit`, `Session.deliver` -- events of a proof, held back or shown to its subscribers;
* `Session.notifyRunner`, `Session.notifyObservers` -- news of a change;
* `Session.close` -- the end of a runner;
* `Session.applyRule`, `Session.applySmtRule`, `Session.prune`, `Session.resumeEvents` -- changes of a
  proof;
* `Session.complete` -- the answers of a batch;
* `Session.applyResult` -- closing a goal with an answer;
* `Session.perform` -- any call of a client.
-/

namespace GoalWatch.Session

/-! ## 1. Steps that call nobody -/

/-- A proof is asked for goals or nodes while `busy` is in the middle of a step. -/
def probe (s : Session) (p : ProofId) (busy : RunnerId) (activity : Activity) : Session :=
  if (s.proof p).facade.probe then
    let watching := (List.range s.runners.length).filter fun r => (s.runner r).proof == p && s.isHeld r
    s.recordAll (watching.map fun r =>
      .probed ((s.runner r).core.phaseDuring (if r = busy then activity else .none)))
  else s

/-- Takes over what a dispatch made of a runner, and its launch if there is one. -/
def takeLaunch (s : Session) (r : RunnerId) (result : Option Launch × Runner) :
    Option BatchId × Session :=
  let s := s.setCore r result.2
  match result.1 with
  | none => (none, s)
  | some launch =>
    let started : Outstanding := { runner := r, launch, stage := .queued }
    (some launch.batch,
      { s with tasks := s.tasks ++ [Task.launch started] }.record (.requested r launch))

/-- Hands out the open goals of a runner's proof. -/
def dispatchOpen (s : Session) (r : RunnerId) (mode : Mode) : Option BatchId × Session :=
  let h := s.runner r
  if h.core.accepting then
    let s := s.probe h.proof r .dispatching
    s.takeLaunch r (h.core.dispatchOpen mode (s.proof h.proof).openGoals)
  else (none, s)

/-- New goals of a rule. -/
def ruleApplied (s : Session) (r : RunnerId) (goals : List Goal) : Option BatchId × Session :=
  s.takeLaunch r ((s.runner r).core.dispatchOpen .fresh goals)

def autoStarted (s : Session) (r : RunnerId) : Session :=
  s.setCore r (s.runner r).core.suspend

def autoStopped (s : Session) (r : RunnerId) : Option BatchId × Session :=
  (s.setCore r (s.runner r).core.unsuspend).dispatchOpen r .fresh

/-- News for those who wait for a runner: they look again, after all that can go on already. -/
def wake (s : Session) (r : RunnerId) : Session :=
  { s with tasks := s.tasks.filter (fun x => !x.sleepsFor r) ++
      (s.tasks.filter (Task.sleepsFor r)).map Task.awake }

/-- Takes over a runner that gave up batches, and tells the launcher of each. -/
def giveUp (s : Session) (r : RunnerId) (result : List BatchId × Runner) : Session :=
  ((s.setCore r result.2).recordAll (result.1.map (.stopped r))).wake r

def stopAll (s : Session) (r : RunnerId) : Session :=
  s.giveUp r (s.runner r).core.stopAll

def refreshSettings (s : Session) (r : RunnerId) (settings : Settings) : Session :=
  s.giveUp r ((s.runner r).core.refresh settings)

def setSolvers (s : Session) (r : RunnerId) (solvers : SolverSet) : Option BatchId × Session :=
  (s.setCore r ((s.runner r).core.setSolvers solvers)).dispatchOpen r .retry

def unsubscribe (s : Session) (p : ProofId) (id : SubscriptionId) : Session :=
  s.modifyProof p fun w => { w with subscribers := w.subscribers.filter fun x => x.id != id }

def pauseEvents (s : Session) (p : ProofId) : Session :=
  s.modifyProof p fun w => { w with paused := w.paused + 1 }

/-- Gives up a listener's registration. -/
def dispose (s : Session) (l : ListenerId) : Session :=
  match s.listeners[l]? with
  | none => s
  | some x =>
    let s := { s with listeners := s.listeners.modify l fun x => { x with held := false } }
    if x.held then
      match x.home with
      | .runner r => s.modifyRunner r fun h => { h with listeners := h.listeners.remove x.slot }
      | .registry =>
        { s with registry := { s.registry with observers := s.registry.observers.remove x.slot } }
    else s

/-- Forgets the registered runner of a proof if it is closed. -/
def retire (s : Session) (p : ProofId) : Session :=
  match s.registry.runnerFor? p with
  | none => s
  | some r =>
    if (s.runner r).core.closed then
      { s with registry := { s.registry with
        active := if s.registry.active = some p then none else s.registry.active
        entries := s.registry.entries.filter fun e => e.1 != p } }
    else s

/-! ## 2. News of a change -/

/-- The way calls from inside a step are carried out. -/
abbrev Again := Call → Session → Session

variable (again : Again)

def callListener (s : Session) (l : ListenerId) : Session :=
  match s.listeners[l]? with
  | none => s
  | some x => x.calls.foldl (fun s c => again c s) (s.record (.notified l (s.view x.home)))

def notifyObservers (s : Session) : Session :=
  s.registry.observers.targets.foldl (callListener again) s

def callTarget (s : Session) : Target → Session
  | .registry p => notifyObservers again (s.retire p)
  | .client l => callListener again s l

def notifyRunner (s : Session) (r : RunnerId) : Session :=
  (s.runner r).listeners.targets.foldl (callTarget again) s

/-- Ends a runner: its batches are given up, its listeners told, its subscription ended. -/
def close (s : Session) (r : RunnerId) : Session :=
  let h := s.runner r
  if h.core.closed then s
  else
    let s := s.giveUp r h.core.close
    let s := s.modifyRunner r fun h => { h with subscription := none }
    let s := notifyRunner again s r
    let s := match h.subscription with
      | some id => s.unsubscribe h.proof id
      | none => s
    s.modifyRunner r fun h => { h with listeners := h.listeners.clear }

def treeChanged (s : Session) (r : RunnerId) : Option BatchId × Session :=
  if (s.runner r).core.closed then (none, s)
  else (notifyRunner again s r).dispatchOpen r .fresh

/-- The answers of a batch arrive. Before anything else the proof is asked which nodes it still has. -/
def complete (s : Session) (r : RunnerId) (batch : BatchId) (outcomes : List Outcome) : Session :=
  let h := s.runner r
  let asks := outcomes.any (fun o => o.status == .valid) || !h.core.problems.isEmpty
  let s := if asks then s.probe h.proof r .completing else s
  let tree := (s.proof h.proof).tree
  match h.core.complete tree.contains tree.contains batch outcomes with
  | none => s
  | some core =>
    let s := notifyRunner again ((s.setCore r core).record (.completed r batch outcomes)) r
    if core.inFlight.isEmpty then s.wake r else s

/-! ## 3. Events -/

def handleEvent (s : Session) (r : RunnerId) : Event → Session
  | .ruleApplied goals => (s.ruleApplied r goals).2
  | .autoModeStarted => s.autoStarted r
  | .autoModeStopped => (s.autoStopped r).2
  | .treeStructureChanged => (treeChanged again s r).2
  | .proofClosed => close again s r

def showTo (p : ProofId) (e : Event) (s : Session) (x : Subscriber) : Session :=
  let s := s.record (.shown p x.id e)
  match x.sink with
  | .runner r => handleEvent again s r e
  | .client k =>
    match s.sinks[k]? with
    | none => s
    | some c =>
      let s := { s with sinks := s.sinks.modify k fun c => { c with shown := c.shown + 1 } }
      (c.react c.shown e).foldl (fun s call => again (.proof p call) s) s

/-- Shows an event to all who are subscribed when it starts. -/
def deliver (p : ProofId) (s : Session) (e : Event) : Session :=
  let w := s.proof p
  let s := s.record (.delivered p e w.paused (w.subscribers.map Subscriber.id))
  w.subscribers.foldl (showTo again p e) s

/-- An event is held back while the proof is paused. -/
def emit (s : Session) (p : ProofId) (e : Event) : Session :=
  let s := s.record (.emitted p e)
  if 0 < (s.proof p).paused then s.modifyProof p fun w => { w with held := w.held ++ [e] }
  else deliver again p s e

/-- Ends one pause. With the last one all events held back are shown, come what may. -/
def resumeEvents (s : Session) (p : ProofId) : Session :=
  let w := s.proof p
  if 1 < w.paused then s.modifyProof p fun w => { w with paused := w.paused - 1 }
  else
    let s := s.modifyProof p fun w => { w with paused := 0, held := [] }
    w.held.foldl (deliver again p) s

/-! ## 4. Changes of a proof -/

def applyRule (s : Session) (p : ProofId) (n : NodeId) (rule : String) (new : List Sequent) :
    Except ProofError (List Goal) × Session :=
  match (s.proof p).tree.applyRule n rule new with
  | .error e => (.error e, s)
  | .ok (goals, tree) =>
    let s := emit again (s.setTree p tree) p (.ruleApplied goals)
    (.ok goals, if tree.isClosed then emit again s p .proofClosed else s)

def prune (s : Session) (p : ProofId) (n : NodeId) : Except ProofError Unit × Session :=
  match (s.proof p).tree.prune n with
  | .error e => (.error e, s)
  | .ok tree => (.ok (), emit again (s.setTree p tree) p .treeStructureChanged)

/-- Closes a goal with the answer of a solver. -/
def applySmtRule (s : Session) (p : ProofId) (n : NodeId) (title : String) :
    Except ProofError Unit × Session :=
  let (result, s) := applyRule again s p n (Tree.smtRule title) []
  (result.map fun _ => (), s)

def proofCall (s : Session) (p : ProofId) : ProofCall → Session
  | .applyRule n rule new => (applyRule again s p n rule new).2
  | .prune n => (prune again s p n).2
  | .startAuto => emit again s p .autoModeStarted
  | .stopAuto => emit again s p .autoModeStopped
  | .pause => s.pauseEvents p
  | .resume => resumeEvents again s p
  | .unsubscribe id => s.unsubscribe p id

/-! ## 5. Applying a result -/

/-- The result for a node of the active proof can be applied: the proof is open, the active runner proved
    the node, and the node is an open leaf of the proof. -/
def canApply (s : Session) (n : NodeId) : Bool :=
  match s.registry.activeRunner? with
  | none => false
  | some r =>
    let h := s.runner r
    let t := (s.proof h.proof).tree
    !t.isClosed && h.core.isSolved n && t.contains n && t.isLeaf n && !t.isNodeClosed n

/-- Whether a result can be applied is looked up; the proof is asked for the node if it is open and the
    node proved. -/
def lookUp (s : Session) (n : NodeId) : Session :=
  match s.registry.activeRunner? with
  | none => s
  | some r =>
    let h := s.runner r
    if !(s.proof h.proof).tree.isClosed && h.core.isSolved n then s.probe h.proof r .none else s

inductive ApplyOutcome where
  | applied
  | notApplicable
  | failed (reason : String)
  deriving DecidableEq, Repr

/-- Makes a node a goal again, if the proof says it is none. -/
def ensureGoal (s : Session) (p : ProofId) (n : NodeId) : Except ProofError Unit × Session :=
  let w := s.proof p
  if w.isGoal n then (.ok (), s)
  else if w.facade.failPrune then (.error (.unknownNode n), s)
  else prune again s p n

/-- Closes a goal with the rule named after its node. -/
def closeGoal (s : Session) (p : ProofId) (n : NodeId) : Except ProofError Unit × Session :=
  let w := s.proof p
  match w.goal? n, w.facade.reject with
  | none, _ => (.error (.notAGoal n), s)
  | some _, some reason => (.error (.ruleRejected reason), s)
  | some g, none => applySmtRule again s p g.node (w.tree.nodeName n)

/-- Closes a node of the active proof with its answer. Events wait until the change is done. -/
def applyResult (s : Session) (n : NodeId) : ApplyOutcome × Session :=
  let looked := s.lookUp n
  match s.canApply n, s.registry.activeRunner? with
  | true, some r =>
    let p := (s.runner r).proof
    let s := looked.pauseEvents p
    let (result, s) := match ensureGoal again s p n with
      | (.error e, s) => (Except.error e, s)
      | (.ok _, s) => closeGoal again s p n
    let s := resumeEvents again s p
    match result with
    | .ok _ => (.applied, s)
    | .error e => (.failed e.message, s)
  | _, _ => (.notApplicable, looked)

/-- Goes through the nodes until the result of one is applied. -/
def applyAny (s : Session) : List NodeId → Session
  | [] => s
  | n :: rest =>
    match applyResult again s n with
    | (.applied, s) => s
    | (_, s) => applyAny s rest

/-! ## 6. Calls from inside -/

/-- Carries out a call. A runner that its owner gave up cannot be asked for anything. -/
def execute (call : Call) (s : Session) : Session :=
  match call with
  | .proof p c => proofCall again s p c
  | .dispatch r => if s.isHeld r then (s.dispatchOpen r .fresh).2 else s
  | .resume r => if s.isHeld r then (s.dispatchOpen r .retry).2 else s
  | .stop r => if s.isHeld r then s.stopAll r else s
  | .shutdown r => if s.isHeld r then close again s r else s
  | .applyFirst =>
    match s.registry.activeRunner? with
    | some r => applyAny again s (s.runner r).core.solved
    | none => s
  | .dispose l => s.dispose l

/-- Carries out a call, with calls from inside it nested at most `depth` deep; deeper ones are not
    carried out. -/
def perform : (depth : Nat) → Again
  | 0 => fun _ s => s
  | depth + 1 => fun call s => execute (perform depth) call s

/-- How deep calls may nest. -/
def maxDepth : Nat := 1000

/-- The way calls from inside are carried out in a session. -/
def nested : Again := perform maxDepth

end GoalWatch.Session
