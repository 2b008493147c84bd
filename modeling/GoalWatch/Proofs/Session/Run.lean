import GoalWatch.Proofs.Session.Chain

/-!
# Runs of a session

* `RunnerCall`, `Session.runnerCall` -- what can be asked of a runner, and the batch it returns;
* `Move`, `Session.move` -- what can happen to a session from outside;
* `Session.start`, `Session.run` -- a new session, and one after any moves;
* `Session.Within`, `passes_move` -- a move is made of permitted steps under any permit that covers it;
* `Move.license` -- what a move may bring in, `Move.permit` -- what it may do;
* `passes_permit`, `reaches_move` -- a move is made of steps that do no more;
* `run_keep`, `hosts_run` -- what holds after every run.
-/

namespace GoalWatch

/-- What can be asked of a runner. -/
inductive RunnerCall where
  | dispatch
  | resume
  | ruleApplied (goals : List Goal)
  | autoStarted
  | autoStopped
  | treeChanged
  | close
  | completed (batch : BatchId) (outcomes : List Outcome)
  | refresh (settings : Settings)
  | setSolvers (solvers : SolverSet)
  | stopAll

/-- What can happen to a session from outside. -/
inductive Move where
  | select (p : ProofId)
  | applyResult (n : NodeId)
  | refreshAll (settings : Settings)
  | shutdownAll
  | proof (p : ProofId) (call : ProofCall)
  | newRunner (p : ProofId) (settings : Settings)
  | runner (r : RunnerId) (call : RunnerCall)
  /-- The launcher returns these outcomes for a launch that is not over. -/
  | finish (o : Outstanding) (outcomes : List Outcome)
  | listen (home : Home) (calls : ListenerId → List Call)
  | subscribe (p : ProofId) (react : Nat → Event → List ProofCall)
  | dispose (l : ListenerId)
  /-- A proof from now on answers as if it were another one. -/
  | present (p : ProofId) (tree : Tree) (facade : Facade)

/-- What a move may bring in from outside, when it starts from the given session. -/
def Move.license (m : Move) (s : Session) : License where
  anyGoals := ∃ r goals, m = .runner r (.ruleApplied goals)
  anyProof := ∃ p tree facade, m = .present p tree facade
  answers r batch outcomes := m = .runner r (.completed batch outcomes) ∨
    ∃ o, m = .finish o outcomes ∧ .launch o ∈ s.tasks ∧ o.runner = r ∧ o.launch.batch = batch

/-- The move gives a runner new settings, when it starts from the given session. -/
def Move.refreshes (s : Session) (r : RunnerId) : Move → Bool
  | .runner k (.refresh _) => k == r
  | .refreshAll _ => s.registry.entries.any fun e => e.2 == r
  | _ => false

/-- **What a move may do**: it brings in what its license says, and gives new settings to those it is for. -/
def Move.permit (m : Move) (s : Session) : Permit :=
  { (m.license s).permit with refreshes := fun r => m.refreshes s r = true }

namespace Session

/-! ## 1. Moves -/

section Moves

variable (again : Again)

/-- Carries out what is asked of a runner; the batch, if one was handed out by it. -/
def runnerCall (s : Session) (r : RunnerId) : RunnerCall → Option BatchId × Session
  | .dispatch => s.dispatchOpen r .fresh
  | .resume => s.dispatchOpen r .retry
  | .ruleApplied goals => s.ruleApplied r goals
  | .autoStarted => (none, s.autoStarted r)
  | .autoStopped => s.autoStopped r
  | .treeChanged => treeChanged again s r
  | .close => (none, close again s r)
  | .completed batch outcomes => (none, complete again s r batch outcomes)
  | .refresh settings => (none, s.refreshSettings r settings)
  | .setSolvers solvers => s.setSolvers r solvers
  | .stopAll => (none, s.stopAll r)

def move (s : Session) : Move → Session
  | .select p => (select again s p).2
  | .applyResult n => (applyResult again s n).2
  | .refreshAll settings => refreshAll again s settings
  | .shutdownAll => shutdownAll again s
  | .proof p call => proofCall again s p call
  | .newRunner p settings => (newRunner again s p settings).2
  | .runner r call => (runnerCall again s r call).2
  | .finish o outcomes =>
    if .launch o ∈ s.tasks then
      complete again { s with tasks := s.tasks.erase (.launch o) } o.runner o.launch.batch outcomes
    else s
  | .listen home calls => s.addListener home calls
  | .subscribe p react => (s.subscribe p react).2
  | .dispose l => s.dispose l
  | .present p tree facade => s.modifyProof p fun w => { w with tree, facade }

/-- The session after the moves. -/
def run (s : Session) (moves : List Move) : Session := moves.foldl (move again) s

/-- The batches that a runner returned to those who asked it, in order. -/
def returns (r : RunnerId) : Session → List Move → List BatchId
  | _, [] => []
  | s, m :: rest =>
    (match m with
      | .runner k call => if k = r then (runnerCall again s k call).1.toList else []
      | _ => []) ++ returns r (move again s m) rest

end Moves

/-- A new session with the given proofs. -/
def start (proofs : List (String × Tree)) (settings : Settings) : Session :=
  { proofs := proofs.map fun x => { name := x.1, tree := x.2 }, registry := { settings } }

variable {P : Permit} {again : Again} {s s' : Session}

/-! ## 2. Moves are made of permitted steps -/

/-- The permit covers what is asked of a runner. -/
def CallWithin (P : Permit) (r : RunnerId) : RunnerCall → Prop
  | .ruleApplied _ => P.anyGoals
  | .close => P.closes r
  | .completed batch outcomes => P.answers r batch outcomes
  | .refresh _ => P.refreshes r
  | .stopAll => P.stops r
  | .dispatch | .resume | .autoStarted | .autoStopped | .treeChanged | .setSolvers _ => True

/-- **The permit covers the move.** -/
def Within (P : Permit) (s : Session) : Move → Prop
  | .select _ | .newRunner .. => (∀ r, P.stops r) ∧ ∀ r, s.runners.length ≤ r → P.closes r
  | .applyResult _ => ∀ r, s.registry.activeRunner? = some r →
    P.edits (s.runner r).proof ∧ Closable P s (s.runner r).proof
  | .refreshAll _ => ∀ e ∈ s.registry.entries, P.refreshes e.2
  | .shutdownAll => ∀ e ∈ s.registry.entries, P.closes e.2
  | .proof p _ => P.edits p ∧ Closable P s p
  | .runner r call => CallWithin P r call
  | .finish o outcomes => .launch o ∈ s.tasks → P.answers o.runner o.launch.batch outcomes
  | .listen _ calls => ∀ l, ∀ call ∈ calls l, P.calls call
  | .subscribe _ react => ∀ k e, ∀ call ∈ react k e, ∀ p, P.calls (.proof p call)
  | .dispose _ => True
  | .present p .. => P.anyProof ∧ P.edits p

section Passes

variable (ha : Obedient P again) (ht : Tame P s)

include ha ht

theorem passes_runnerCall {r : RunnerId} {call : RunnerCall} (hc : CallWithin P r call) :
    Passes P s (runnerCall again s r call).2 := by
  cases call with
  | dispatch => exact passes_dispatchOpen .fresh
  | resume => exact passes_dispatchOpen .retry
  | ruleApplied goals => exact passes_ruleApplied (Or.inl hc)
  | autoStarted => exact passes_autoStarted
  | autoStopped => exact passes_autoStopped
  | treeChanged => exact passes_treeChanged ha ht
  | close => exact passes_close ha ht hc
  | completed batch outcomes => exact passes_complete ha ht hc
  | refresh settings => exact .one (.refresh hc settings)
  | setSolvers solvers => exact passes_setSolvers solvers
  | stopAll => exact .one (.stop hc)

/-- **A move is made of permitted steps** under any permit that covers it. -/
theorem passes_move {m : Move} (hm : Within P s m) : Passes P s (move again s m) := by
  cases m with
  | select p => exact passes_select ha hm.1 ht hm.2
  | applyResult n => exact passes_applyResult ha ht n hm
  | refreshAll settings => exact passes_refreshAll ha ht hm settings
  | shutdownAll => exact passes_shutdownAll ha ht hm
  | proof p call => exact passes_proofCall ha ht hm.1 hm.2 call
  | newRunner p settings => exact passes_newRunner ha hm.1 ht hm.2 settings
  | runner r call => exact passes_runnerCall ha ht hm
  | finish o outcomes =>
      show Passes _ s (if .launch o ∈ s.tasks then _ else s)
      split
      · rename_i ho
        have h0 : Passes P s { s with tasks := s.tasks.erase (.launch o) } :=
          .one (.tasks _ fun _ ho => List.mem_of_mem_erase ho)
        exact h0.trans (passes_complete ha (tame_passes ht h0) (hm ho))
      · exact .start
  | listen home calls => exact passes_addListener ht home hm
  | subscribe p react => exact passes_subscribe ht hm
  | dispose l => exact passes_dispose ht l
  | present p tree facade => exact .one (.present hm.1 hm.2 tree facade)

end Passes

theorem open_permit (L : License) : L.permit.Open := ⟨fun _ => trivial, fun _ => trivial, fun _ => trivial⟩

theorem open_movePermit (m : Move) (s : Session) : (m.permit s).Open :=
  ⟨fun _ => trivial, fun _ => trivial, fun _ => trivial⟩

/-- What a move may do covers the move. -/
theorem within_permit (m : Move) (s : Session) : Within (m.permit s) s m := by
  cases m with
  | runner r call =>
      cases call with
      | ruleApplied goals => exact ⟨r, goals, rfl⟩
      | completed batch outcomes => exact Or.inl rfl
      | refresh settings => exact beq_self_eq_true r
      | dispatch | resume | autoStarted | autoStopped | treeChanged | close | setSolvers | stopAll =>
          trivial
  | finish o outcomes => exact fun ho => Or.inr ⟨o, rfl, ho, rfl, rfl⟩
  | present p tree facade => exact ⟨⟨p, tree, facade, rfl⟩, trivial⟩
  | select p => exact ⟨fun _ => trivial, fun _ _ => trivial⟩
  | newRunner p settings => exact ⟨fun _ => trivial, fun _ _ => trivial⟩
  | proof p call => exact ⟨trivial, closable_of_open (open_movePermit _ s)⟩
  | applyResult n => exact fun _ _ => ⟨trivial, closable_of_open (open_movePermit _ s)⟩
  | refreshAll settings => exact fun e he => List.any_eq_true.mpr ⟨e, he, beq_self_eq_true e.2⟩
  | shutdownAll => exact fun _ _ => trivial
  | listen => exact fun _ _ _ => trivial
  | subscribe => exact fun _ _ _ _ _ => trivial
  | dispose => trivial

/-- **A move is made of permitted steps** that do nothing but what the move may do. -/
theorem passes_permit (depth : Nat) (m : Move) (hw : Wired s) :
    Passes (m.permit s) s (move (perform depth) s m) :=
  passes_move (obedient_perform (open_movePermit m s) depth) (hw.tame fun _ => trivial)
    (within_permit m s)

/-- A move is made of steps that bring in nothing but what the move does. -/
theorem reaches_move (depth : Nat) (m : Move) (hw : Wired s) :
    Reaches (m.license s) s (move (perform depth) s m) := (passes_permit depth m hw).reaches

/-! ## 3. Every run -/

/-- A session after one more move. -/
theorem run_append_singleton (again : Again) (s : Session) (moves : List Move) (m : Move) :
    run again s (moves ++ [m]) = move again (run again s moves) m := List.foldl_append

section Runs

variable (depth : Nat) (proofs : List (String × Tree)) (settings : Settings)

/-- **What moves of a kind keep, every run of such moves keeps.** -/
theorem run_keep {I : Session → Prop} {P : Move → Prop}
    (hI : ∀ {m : Move} {s s' : Session}, P m → Wired s → I s → Reaches (m.license s) s s' → I s')
    (hw : Wired s) (h0 : I s) (moves : List Move) (hP : ∀ m ∈ moves, P m) :
    Wired (run (perform depth) s moves) ∧ I (run (perform depth) s moves) := by
  induction moves generalizing s with
  | nil => exact ⟨hw, h0⟩
  | cons m rest ih =>
      have hr : Reaches (m.license s) s (move (perform depth) s m) :=
        reaches_move depth m hw
      exact ih (wired_reaches hw hr) (hI (hP m List.mem_cons_self) hw h0 hr)
        fun m hm => hP m (List.mem_cons_of_mem _ hm)

theorem grows_run (hw : Wired s) (moves : List Move) : Grows s (run (perform depth) s moves) :=
  (run_keep depth (fun _ _ h hr => h.trans (grows_reaches hr)) hw (.refl s) moves
    fun _ _ => trivial).2

theorem wired_run (hw : Wired s) (moves : List Move) : Wired (run (perform depth) s moves) :=
  (run_keep depth (I := fun _ => True) (P := fun _ => True) (fun _ _ _ _ => trivial) hw trivial moves
    fun _ _ => trivial).1

/-- A proof of a new session has no subscribers and holds back nothing. -/
theorem proof_start (p : ProofId) :
    ((start proofs settings).proof p).subscribers = [] ∧ ((start proofs settings).proof p).held = [] := by
  unfold start proof
  simp only [List.getD_eq_getElem?_getD, List.getElem?_map]
  cases proofs[p]? <;> exact ⟨rfl, rfl⟩

theorem wired_start : Wired (start proofs settings) where
  subscriber p x hx := by
    rw [(proof_start proofs settings p).1] at hx
    exact absurd hx List.not_mem_nil
  held p e he := by
    rw [(proof_start proofs settings p).2] at he
    exact absurd he List.not_mem_nil
  entry _ he := absurd he List.not_mem_nil
  task _ ho := absurd ho List.not_mem_nil

/-- A new session has no runners. -/
theorem hosts_start {I : Runner → List Deed → Prop} : Hosts I (start proofs settings) :=
  ⟨fun _ hr => absurd hr (Nat.not_lt_zero _), fun _ _ => rfl⟩

/-- **What holds of a new runner and is kept by acts holds of every runner in every run.** -/
theorem hosts_run {I : Runner → List Deed → Prop} (h0 : ∀ settings, I { settings } [])
    (hI : ∀ {c c' : Runner} {ds es : List Deed}, I c es → Runner.Act c ds c' → I c' (ds ++ es))
    (moves : List Move) : Hosts I (run (perform depth) (start proofs settings) moves) :=
  (run_keep depth (fun _ _ h hr => hosts_reaches h0 hI h hr) (wired_start proofs settings)
    (hosts_start proofs settings) moves fun _ _ => trivial).2

end Runs

end Session

end GoalWatch
