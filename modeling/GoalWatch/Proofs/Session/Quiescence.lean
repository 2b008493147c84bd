import GoalWatch.Proofs.Runner.Exact
import GoalWatch.Proofs.Session.Calm.Basic
import GoalWatch.Proofs.Session.Station

/-!
# Answers when nothing is in flight

A runner that is given work, new settings and answers that depend on sequents only, and that is never told to
give up batches, knows exactly the answers for the open goals once all batches are answered.

* `Move.Answers` -- answers arrive that depend on sequents only;
* `Move.IsWork` -- such answers, changes of proofs, and work for runners;
* `Session.workPermit` -- what work may do;
* `Session.Working`, `working_run` -- what every run of work keeps;
* **`exact_at_quiescence`** -- after a last dispatch, when all batches have been answered, every open goal has
  exactly its answer.
-/

namespace GoalWatch

/-- What can be asked of a runner so that it goes on working. -/
def RunnerCall.isWork : RunnerCall → Bool
  | .dispatch | .resume | .autoStarted | .autoStopped | .treeChanged | .refresh _ | .setSolvers _ => true
  | .ruleApplied _ | .close | .completed .. | .stopAll => false

/-- Answers arrive for a launch, for each problem the one of its sequent. -/
def Move.Answers (ans : Sequent → Status) : Move → Prop
  | .finish o outcomes => ∀ g ∈ o.launch.problems, Runner.statusOf outcomes g.node = ans g.sequent
  | _ => False

/-- **Work**: a proof changes, pauses or goes on, a runner is asked to go on, or answers arrive. -/
def Move.IsWork (ans : Sequent → Status) : Move → Prop
  | .proof .. => True
  | .runner _ call => call.isWork = true
  | m => m.Answers ans

namespace Session

open Station (Exact HandedOut Sound Turn)

variable {ans : Sequent → Status} {s t : Session} {m : Move} {p : ProofId} {r : RunnerId} {free : Prop}

/-! ## 1. What work may do -/

/-- **What work may do**: answers of launches are taken in; and, if it is free to, proofs change, runners are
    given new settings and end with their proofs. -/
def workPermit (ans : Sequent → Status) (s : Session) (free : Prop) : Permit where
  anyGoals := False
  anyProof := False
  answers r b os := ∃ o, .launch o ∈ s.tasks ∧ o.runner = r ∧ o.launch.batch = b ∧
    ∀ g ∈ o.launch.problems, Runner.statusOf os g.node = ans g.sequent
  calls _ := False
  edits _ := free
  stops _ := False
  refreshes _ := free
  closes _ := free

theorem within_answers (hm : m.Answers ans) : Within (workPermit ans s free) s m := by
  cases m with
  | finish o outcomes => exact fun ho => ⟨o, ho, rfl, rfl, hm⟩
  | _ => exact hm.elim

theorem within_work (hm : m.IsWork ans) : Within (workPermit ans s True) s m := by
  cases m with
  | proof p call => exact ⟨trivial, fun _ => Or.inl trivial⟩
  | runner r call =>
      cases call with
      | ruleApplied | close | completed | stopAll => cases hm
      | dispatch | resume | autoStarted | autoStopped | treeChanged | refresh | setSolvers => trivial
  | finish o outcomes => exact within_answers (m := .finish o outcomes) hm
  | _ => exact hm.elim

/-- Moves under a work permit are made of steps that it allows. -/
theorem passes_work (depth : Nat) (hp : Passive s) (hm : Within (workPermit ans s free) s m) :
    Passes (workPermit ans s free) s (move (perform depth) s m) :=
  passes_move (obedient_of_silent (fun _ => id) (perform depth)) hp.tame hm

/-! ## 2. What work keeps -/

/-- **What work keeps**: nobody asks for anything from inside, all stations are sound, and each runner that has
    not ended knows the answers exactly. -/
structure Working (ans : Sequent → Status) (s : Session) : Prop where
  passive : Passive s
  posted : Posted s
  exact : ∀ r < s.runners.length, (s.runner r).core.closed = false → (s.station r).Exact ans

theorem working_start (proofs : List (String × Tree)) (settings : Settings) :
    Working ans (start proofs settings) where
  passive := ⟨wired_start proofs settings, fun _ h => absurd h List.not_mem_nil,
    fun _ h => absurd h List.not_mem_nil⟩
  posted := posted_start proofs settings
  exact _ hr := absurd hr (Nat.not_lt_zero _)

/-- Answers that arrive for a launch answer the problems of its batch: no two launches have one number. -/
theorem status_of_launch {x : Station} (hx : Sound x) {launch : Launch} (hl : .launched launch ∈ x.deeds)
    {os : List Outcome} (ha : ∀ g ∈ launch.problems, Runner.statusOf os g.node = ans g.sequent)
    {q : Problem} (hq : q ∈ x.core.problems) (hb : q.batch = launch.batch) :
    Runner.statusOf os q.node = ans q.sequent := by
  obtain ⟨launch', hl', hb', hmem⟩ := hx.backed.problem q hq
  have hsame : launch' = launch := launched_unique hx.accounted.once hl' hl (hb'.trans hb)
  exact ha _ (hsame ▸ hmem)

theorem working_passes (h : Working ans s) (hs : Passes (workPermit ans s free) s t) : Working ans t := by
  -- what was handed out when the work began is kept in the marks, for the answers that arrive
  have hall := stations_passes (P := workPermit ans s free)
    (I := fun r x => (∀ d ∈ s.deeds r, d ∈ x.deeds) ∧ (x.core.closed = false → Exact ans x))
    id id (fun r hr tree settings => ⟨fun d hd => ?_, fun _ => Station.exact_start ans tree settings⟩)
    (fun {r q x y} hx ih hturn => ⟨fun d hd => ?_, ?_⟩) h.posted
    (fun r hr => ⟨fun _ hd => hd, h.exact r hr⟩) hs
  · exact ⟨passive_passes (fun _ => id) h.passive hs, posted_passes id id h.posted hs,
      fun r hr => (hall r hr).2⟩
  · rw [h.posted.unborn r hr] at hd
    exact hd
  · obtain ⟨ds, _, he⟩ := hturn.acts
    rw [he]
    exact List.mem_append_right _ (ih.1 d hd)
  · refine Station.exact_turn hx id (fun b os ha q hq hb => ?_) hturn ih.2
    obtain ⟨o, ho, rfl, hob, hstatus⟩ := ha
    have hl : .launched o.launch ∈ s.deeds o.runner :=
      List.mem_filterMap.mpr ⟨_, h.passive.task o ho, deed?_eq_launched.mpr rfl⟩
    exact status_of_launch hx (ih.1 _ hl) hstatus hq (hb.trans hob.symm)

/-- A new runner at a proof that asks for no selection. -/
theorem passes_newRunner_plain {P : Permit} (again : Again) (settings : Settings)
    (hp : (((s.enlist p settings).2).proof p).facade.selectOnSubscribe = false) :
    Passes P s (newRunner again s p settings).2 := by
  have he : afterSubscribe again p (s.enlist p settings).2 = (s.enlist p settings).2 := by
    unfold afterSubscribe
    rw [if_neg (by rw [hp]; exact Bool.false_ne_true)]
  have h : Passes P s (((s.enlist p settings).2).setStanding s.runners.length .held) :=
    (Passes.one (.enlist p settings)).trans (passes_setStanding .held)
  rw [← he] at h
  exact h

/-- The first runner of a session. -/
theorem working_first (ans : Sequent → Status) (depth : Nat) (proofs : List (String × Tree))
    (settings chosen : Settings) (p : ProofId) :
    let s := move (perform depth) (start proofs settings) (.newRunner p chosen)
    Working ans s ∧ 0 < s.runners.length ∧ (s.runner 0).proof = p := by
  intro s
  have hplain : ((((start proofs settings).enlist p chosen).2).proof p).facade.selectOnSubscribe = false := by
    have hfacade : ((start proofs settings).proof p).facade = {} := by
      unfold start proof
      simp only [List.getD_eq_getElem?_getD, List.getElem?_map]
      cases proofs[p]? <;> rfl
    rcases proof_enlist_cases (s := start proofs settings) (p := p) (q := p) chosen with e | ⟨_, e⟩
    · rw [e, hfacade]
    · rw [e]
      show ((start proofs settings).proof p).facade.selectOnSubscribe = false
      rw [hfacade]
  have hs : Passes (workPermit ans (start proofs settings) False) (start proofs settings) s :=
    passes_newRunner_plain (perform depth) chosen hplain
  refine ⟨working_passes (working_start proofs settings) hs, ?_⟩
  -- the runner is enlisted and then kept
  have he : s = (((start proofs settings).enlist p chosen).2).setStanding 0 .held := by
    show (afterSubscribe (perform depth) p ((start proofs settings).enlist p chosen).2).setStanding 0 .held = _
    unfold afterSubscribe
    rw [if_neg (by rw [hplain]; exact Bool.false_ne_true)]
  have hlen : 0 < ((start proofs settings).enlist p chosen).2.runners.length := by
    rw [length_enlist]
    exact Nat.succ_pos _
  rw [he, setStanding, length_modifyRunner, runner_modifyRunner_self _ hlen]
  exact ⟨hlen, congrArg Hosted.proof (runner_enlist_self (s := start proofs settings) (p := p) chosen)⟩

theorem working_run (depth : Nat) (h : Working ans s) (moves : List Move)
    (hm : ∀ m ∈ moves, m.IsWork ans) : Working ans (run (perform depth) s moves) := by
  induction moves generalizing s with
  | nil => exact h
  | cons m rest ih =>
      have hs := passes_work depth h.passive (within_work (s := s) (hm m List.mem_cons_self))
      exact ih (working_passes h hs) fun k hk => hm k (List.mem_cons_of_mem _ hk)

/-! ## 3. The last dispatch -/

/-- After a fresh dispatch every open goal was handed out, and the runner goes on. -/
theorem handedOut_dispatch (hr : r < s.runners.length) (ha : (s.runner r).core.accepting = true)
    (hs : (s.runner r).core.settings.hasSolvers = true) :
    HandedOut ((s.dispatchOpen r .fresh).2.station r) ∧
      ((s.dispatchOpen r .fresh).2.runner r).core.closed = (s.runner r).core.closed := by
  have hsame : Same (s.setCore r _) (s.dispatchOpen r .fresh).2 := same_dispatchOpen .fresh
  have hrun : (s.dispatchOpen r .fresh).2.runner r = { s.runner r with
      core := ((s.runner r).core.dispatchOpen .fresh (s.proof (s.runner r).proof).openGoals).2 } := by
    rw [hsame.runner, setCore, runner_modifyRunner_self _ hr]
  refine ⟨fun g hg => ?_, ?_⟩
  · unfold station at hg ⊢
    rw [hrun] at hg ⊢
    rw [hsame.proof] at hg
    exact Runner.dispatched_fresh ha hs (mem_openGoals.mpr hg)
  · rw [hrun]
    exact Runner.dispatchOpen_closed

/-- While nothing but answers arrives, what was handed out stays so, and the runner goes on. -/
theorem handedOut_answers (depth : Nat) (h : Working ans s) (hr : r < s.runners.length)
    (hd : HandedOut (s.station r)) (hc : (s.runner r).core.closed = false) (answers : List Move)
    (hm : ∀ m ∈ answers, m.Answers ans) :
    Working ans (run (perform depth) s answers) ∧ HandedOut ((run (perform depth) s answers).station r) ∧
      ((run (perform depth) s answers).runner r).core.closed = false := by
  induction answers generalizing s with
  | nil => exact ⟨h, hd, hc⟩
  | cons m rest ih =>
      have hs : Passes (workPermit ans s False) s (move (perform depth) s m) :=
        passes_work depth h.passive (within_answers (hm m List.mem_cons_self))
      have hkept := station_passes (I := fun x => HandedOut x ∧ x.core.closed = false) id id h.posted hr
        (fun _ ih hturn => ⟨Station.handedOut_turn id id id hturn ih.1, ?_⟩) ⟨hd, hc⟩ hs
      · exact ih (working_passes h hs) (Nat.lt_of_lt_of_le hr (grows_passes hs).runners) hkept.1 hkept.2
          fun k hk => hm k (List.mem_cons_of_mem _ hk)
      · by_contra hclosed
        rcases hturn.closed.2 (by simpa using hclosed) with hx | hx
        · rw [ih.2] at hx
          cases hx
        · exact hx

/-- **Exact answers when nothing is in flight.** A session with one runner at one of its proofs goes through
    any work: changes of proofs, pauses, automatic mode, dispatches and retries, other solvers, new settings,
    and answers in any order that depend on sequents only. If the runner then neither has ended nor is
    suspended and has a solver, and is asked once more for the open goals, then after answers for all batches
    in flight each open goal is proved iff its answer is valid, and the conclusive answer for its sequent is
    its answer, or none if that is unknown. -/
theorem exact_at_quiescence (depth : Nat) (proofs : List (String × Tree)) (settings chosen : Settings)
    (p : ProofId) (ans : Sequent → Status) (moves answers : List Move)
    (hmoves : ∀ m ∈ moves, m.IsWork ans) (hanswers : ∀ m ∈ answers, m.Answers ans) {s t : Session}
    (hs : s = run (perform depth) (start proofs settings) (.newRunner p chosen :: moves))
    (ht : t = run (perform depth) s (.runner 0 .dispatch :: answers))
    (hopen : (s.runner 0).core.closed = false) (hgoing : (s.runner 0).core.suspended = false)
    (hsolver : (s.runner 0).core.settings.hasSolvers = true) (hidle : (t.runner 0).core.inFlight = []) :
    ∀ g ∈ (t.proof p).tree.goals,
      ((t.runner 0).core.isSolved g.node = true ↔ ans g.sequent = .valid) ∧
      (t.runner 0).core.cachedResult g.sequent =
        if (ans g.sequent).isDefinitive then some (ans g.sequent) else none := by
  intro g hg
  obtain ⟨hfirst, hlen, hproof⟩ := working_first ans depth proofs settings chosen p
  have hbefore : Working ans s := hs ▸ working_run depth hfirst moves hmoves
  have hgrows : Grows _ s := hs ▸ grows_run depth hfirst.passive.toWired moves
  have hr : 0 < s.runners.length := Nat.lt_of_lt_of_le hlen hgrows.runners
  have hacc : (s.runner 0).core.accepting = true := by simp [Runner.accepting, hopen, hgoing]
  -- the last dispatch
  obtain ⟨hd, hc⟩ := handedOut_dispatch hr hacc hsolver
  have hdisp : Passes (workPermit ans s False) s (s.dispatchOpen 0 .fresh).2 := passes_dispatchOpen .fresh
  have hafter := handedOut_answers depth (working_passes hbefore hdisp)
    (Nat.lt_of_lt_of_le hr (grows_passes hdisp).runners) hd (hc.trans hopen) answers hanswers
  have hrun : run (perform depth) (s.dispatchOpen 0 .fresh).2 answers = t := ht.symm
  rw [hrun] at hafter
  obtain ⟨hwork, hd, hc⟩ := hafter
  have hgrows' : Grows s t := ht ▸ grows_run depth hbefore.passive.toWired _
  have hrt : 0 < t.runners.length := Nat.lt_of_lt_of_le hr hgrows'.runners
  have hwatch : (t.runner 0).proof = p :=
    (hgrows'.watches 0 hr).trans ((hgrows.watches 0 hlen).trans hproof)
  have hgoal : g ∈ (t.station 0).tree.goals := by
    unfold station
    rw [hwatch]
    exact hg
  exact Exact.settled (hwork.posted.sound 0 hrt) (hwork.exact 0 hrt hc) hidle hgoal (hd g hgoal)

/-- A goal is split while events are held back, and pruned and split again before they are shown; a batch is
    answered after new settings have made it void; the goals left have different answers. -/
theorem exact_at_quiescence_pruned :
    let a : Sequent := { succedent := ["a"] }
    let b : Sequent := { succedent := ["b"] }
    let c : Sequent := { succedent := ["c"] }
    let ans : Sequent → Status := fun q =>
      if q.succedent = ["a"] then .valid else if q.succedent = ["b"] then .invalid else .unknown
    let chosen : Settings := { solvers := .ofList [.z3] }
    let launch (k : BatchId) (goals : List Goal) : Launch := { batch := k, settings := chosen, problems := goals }
    let moves : List Move := [.runner 0 .dispatch, .proof 0 .pause,
      .proof 0 (.applyRule 1 "split" [a, c]), .proof 0 (.prune 1), .proof 0 (.applyRule 1 "split" [b, c, a]),
      .runner 0 (.refresh chosen), .finish ⟨0, launch 1 [⟨1, a⟩], .queued⟩ [{ node := 1, status := .valid }],
      .proof 0 .resume]
    let answers : List Move := [.finish ⟨0, launch 2 [⟨2, a⟩, ⟨3, c⟩], .queued⟩
        [{ node := 2, status := .valid }],
      .finish ⟨0, launch 3 [⟨4, b⟩, ⟨5, c⟩, ⟨6, a⟩], .queued⟩
        [{ node := 4, status := .invalid }, { node := 6, status := .valid }]]
    let s := run (perform 1) (start [("p", .ofGoals [a])] chosen) (.newRunner 0 chosen :: moves)
    let t := run (perform 1) s (.runner 0 .dispatch :: answers)
    (∀ m ∈ moves, m.IsWork ans) ∧ (∀ m ∈ answers, m.Answers ans) ∧
    (s.runner 0).core.closed = false ∧ (s.runner 0).core.suspended = false ∧
    (s.runner 0).core.settings.hasSolvers = true ∧ (t.runner 0).core.inFlight = [] ∧
    (t.proof 0).tree.goals = [⟨4, b⟩, ⟨5, c⟩, ⟨6, a⟩] ∧
    ∀ g ∈ (t.proof 0).tree.goals,
      ((t.runner 0).core.isSolved g.node = true ↔ ans g.sequent = .valid) ∧
      (t.runner 0).core.cachedResult g.sequent =
        if (ans g.sequent).isDefinitive then some (ans g.sequent) else none := by
  intro a b c ans chosen launch moves answers s t
  have hm : ∀ m ∈ moves, m.IsWork ans := by
    intro m hm
    simp only [moves, List.mem_cons, List.not_mem_nil, or_false] at hm
    rcases hm with rfl | rfl | rfl | rfl | rfl | rfl | rfl | rfl
    · rfl
    · trivial
    · trivial
    · trivial
    · trivial
    · rfl
    · show ∀ g ∈ [(⟨1, a⟩ : Goal)], _
      decide
    · trivial
  have ha : ∀ m ∈ answers, m.Answers ans := by
    intro m hm
    simp only [answers, List.mem_cons, List.not_mem_nil, or_false] at hm
    rcases hm with rfl | rfl
    · show ∀ g ∈ [(⟨2, a⟩ : Goal), ⟨3, c⟩], _
      decide
    · show ∀ g ∈ [(⟨4, b⟩ : Goal), ⟨5, c⟩, ⟨6, a⟩], _
      decide
  have h1 : (s.runner 0).core.closed = false := by decide +kernel
  have h2 : (s.runner 0).core.suspended = false := by decide +kernel
  have h3 : (s.runner 0).core.settings.hasSolvers = true := by decide +kernel
  have h4 : (t.runner 0).core.inFlight = [] := by decide +kernel
  have h5 : (t.proof 0).tree.goals = [⟨4, b⟩, ⟨5, c⟩, ⟨6, a⟩] := by decide +kernel
  exact ⟨hm, ha, h1, h2, h3, h4, h5, exact_at_quiescence 1 [("p", .ofGoals [a])] chosen chosen 0 ans moves
    answers hm ha (s := s) (t := t) rfl rfl h1 h2 h3 h4⟩

end Session

end GoalWatch
