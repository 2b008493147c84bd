import GoalWatch.Session.Callback

/-!
# Selecting proofs

* `Session.enlist` -- a new runner, subscribed to its proof;
* `Session.select` -- makes a proof the active one, with a runner for it;
* `Session.refreshAll`, `Session.shutdownAll` -- all runners of the registry;
* `Session.newRunner`, `Session.dropRunner` -- runners that are kept by someone else;
* `Session.wait`, `Session.endWait` -- waits until a runner has nothing in flight.
-/

namespace GoalWatch.Session

variable (again : Again)

/-! ## 1. New runners -/

/-- A new runner, subscribed to its proof. Nothing is handed out yet. -/
def enlist (s : Session) (p : ProofId) (settings : Settings) : RunnerId × Session :=
  let r := s.runners.length
  let id := (s.proof p).nextSubscription
  let h : Hosted :=
    { proof := p, core := { settings }, subscription := some id, standing := .candidate }
  let s := { s with runners := s.runners ++ [h] }
  (r, s.modifyProof p (Watched.addSubscriber (.runner r)))

def setStanding (s : Session) (r : RunnerId) (standing : Standing) : Session :=
  s.modifyRunner r fun h => { h with standing }

/-- Adds a listener to a runner. -/
def addTarget (s : Session) (r : RunnerId) (target : Target) : Session :=
  s.modifyRunner r fun h => { h with listeners := h.listeners.add target }

/-- Registers a candidate as the runner of its proof. If the proof has got another runner meanwhile, that
    one stays and the candidate is closed. -/
def register (s : Session) (p : ProofId) (candidate : RunnerId) : RunnerId × Session :=
  let s := s.addTarget candidate (.registry p)
  match s.registry.runnerFor? p with
  | some winner => (winner, close again s candidate)
  | none =>
    let s := s.setStanding candidate .held
    (candidate, { s with registry := { s.registry with
      entries := s.registry.entries ++ [(p, candidate)] } })

/-! ## 2. Selection -/

/-- Gives up the batches of the active runner if it belongs to another proof. -/
def leaveActive (s : Session) (p : ProofId) : Session :=
  if s.registry.active = some p then s
  else match s.registry.activeRunner? with
    | some r => s.stopAll r
    | none => s

/-- Makes a proof the active one and hands out its goals: those without an answer if its runner was
    there already and not active, the new ones otherwise. -/
def activate (s : Session) (p : ProofId) (r : RunnerId) (mode : Mode) : RunnerId × Session :=
  let s := { s with registry := { s.registry with active := some p } }
  let s := (s.dispatchOpen r mode).2
  (r, notifyObservers again s)

/-- `select`, with `during` happening right after a new runner subscribed. -/
def selectWith (during : Session → Session) (s : Session) (p : ProofId) : RunnerId × Session :=
  let wasActive := s.registry.active = some p
  let settings := s.registry.settings
  match s.registry.runnerFor? p with
  | some r => activate again (s.leaveActive p) p r (if wasActive then .fresh else .retry)
  | none =>
    let (candidate, s) := (s.leaveActive p).enlist p settings
    let (r, s) := register again (during s) p candidate
    activate again s p r .fresh

/-- What a subscription sets off: if the proof asks for it, once, a selection of it. -/
def afterSubscribe (p : ProofId) (s : Session) : Session :=
  if (s.proof p).facade.selectOnSubscribe then
    let s := s.modifyProof p fun w =>
      { w with facade := { w.facade with selectOnSubscribe := false } }
    (selectWith again id s p).2
  else s

/-- Makes a proof the active one. Its runner is made if there is none. -/
def select (s : Session) (p : ProofId) : RunnerId × Session :=
  selectWith again (afterSubscribe again p) s p

/-- Gives every runner new settings; the active one starts over. -/
def refreshAll (s : Session) (settings : Settings) : Session :=
  let s := { s with registry := { s.registry with settings } }
  let s := s.registry.entries.foldl (fun s e => s.refreshSettings e.2 settings) s
  let s := match s.registry.activeRunner? with
    | some r => (s.dispatchOpen r .fresh).2
    | none => s
  notifyObservers again s

/-- Closes every runner of the registry. -/
def shutdownAll (s : Session) : Session :=
  let entries := s.registry.entries
  let s := { s with registry := { s.registry with active := none, entries := [] } }
  notifyObservers again (entries.foldl (fun s e => close again s e.2) s)

/-! ## 3. Other runners -/

/-- A runner that the registry does not know. -/
def newRunner (s : Session) (p : ProofId) (settings : Settings) : RunnerId × Session :=
  let (r, s) := s.enlist p settings
  (r, (afterSubscribe again p s).setStanding r .held)

/-- A runner that nobody keeps any more: its batches end and so does its subscription, without a word to
    the launcher. -/
def forget (s : Session) (r : RunnerId) : Session :=
  let h := s.runner r
  let s := match h.subscription with
    | some id => s.unsubscribe h.proof id
    | none => s
  s.modifyRunner r fun h => { h with
    core := h.core.stopAll.2
    subscription := none
    listeners := h.listeners.clear
    standing := .dropped }

def isAwaited (s : Session) (r : RunnerId) : Bool := s.tasks.any (Task.awaits r)

/-- The owner gives a runner up. Those who wait for it keep it until they are done. -/
def dropRunner (s : Session) (r : RunnerId) : Session :=
  if s.isAwaited r then s.setStanding r .lingering else s.forget r

/-- Someone starts to wait until a runner has nothing in flight. -/
def wait (s : Session) (r : RunnerId) : Session :=
  { s with tasks := s.tasks ++ [Task.wait { runner := r, number := s.waits.length }]
           waits := s.waits ++ [false] }

/-- A wait, no longer among the tasks, has ended. -/
def endWait (s : Session) (w : Wait) : Session :=
  let s := { s with waits := s.waits.set w.number true }
  if (s.runner w.runner).standing == .lingering && !s.isAwaited w.runner then s.forget w.runner else s

/-! ## 4. Listeners and sinks -/

/-- Registers a listener that asks for `calls` whenever it is told of a change. -/
def addListener (s : Session) (home : Home) (calls : ListenerId → List Call) : Session :=
  let l := s.listeners.length
  let enter (slot : Nat) : Session :=
    { s with listeners := s.listeners ++ [{ home, slot, held := true, calls := calls l }] }
  match home with
  | .runner r => (enter (s.runner r).listeners.nextSlot).addTarget r (.client l)
  | .registry =>
    { enter s.registry.observers.nextSlot with
      registry := { s.registry with observers := s.registry.observers.add l } }

/-- The registration, if its owner still keeps it. -/
def registration? (s : Session) (l : ListenerId) : Option Listener :=
  s.listeners[l]?.filter Listener.held

/-- The listener would be told of a change. -/
def isListening (s : Session) (x : Listener) : Bool :=
  match x.home with
  | .runner r => (s.runner r).listeners.contains x.slot
  | .registry => s.registry.observers.contains x.slot

/-- Subscribes a sink of its own to a proof. -/
def subscribe (s : Session) (p : ProofId) (react : Nat → Event → List ProofCall) :
    SubscriptionId × Session :=
  let id := (s.proof p).nextSubscription
  let k := s.sinks.length
  let s : Session := { s with sinks := s.sinks ++ [{ react, shown := 0 }] }
  (id, s.modifyProof p (Watched.addSubscriber (.client k)))

end GoalWatch.Session
