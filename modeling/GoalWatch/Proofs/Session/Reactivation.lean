import GoalWatch.Proofs.Runner.Credit
import GoalWatch.Proofs.Session.Latest
import GoalWatch.Proofs.Session.Trees

/-!
# Goals with a known answer after a retry

A retry leaves out every goal for whose sequent a conclusive answer is known, whatever node that answer was
given for. A goal with a known valid answer is therefore taken care of only if the answer is its own.

* `credited_run` -- after faithful moves, what was answered valid is proved, and nothing else;
* `RunnerCall.isRetry` -- the calls that hand out goals once more;
* `retry_skips_answered` -- a retry passes over goals with a known answer;
* **`retry_covers_iff`** -- which open goals with a known valid answer are proved or in flight after a retry;
* `answer_of_twin` -- a goal that a retry leaves out because of the answer for another node.
-/

namespace GoalWatch

/-- The call hands out once more what is neither running nor has a conclusive answer. -/
def RunnerCall.isRetry : RunnerCall → Bool
  | .resume | .setSolvers _ => true
  | _ => false

namespace Session

open Station (Credited)

variable {s t : Session} {r : RunnerId} {call : RunnerCall}

/-! ## 1. Credit in every run -/

theorem credited_run (depth : Nat) {first : Session} (hw : Wired first) (hp : Posted first)
    (h0 : first.runners = []) (moves : List Move) (hm : ∀ m ∈ moves, m.isFaithful = true) :
    ∀ r < (run (perform depth) first moves).runners.length,
      Credited ((run (perform depth) first moves).station r) := by
  induction moves using List.reverseRecOn with
  | nil =>
      intro r hr
      rw [show run (perform depth) first [] = first from rfl, h0] at hr
      exact absurd hr (Nat.not_lt_zero _)
  | append_singleton moves m ih =>
      have hmoves : ∀ k ∈ moves, k.isFaithful = true := fun k hk => hm k (List.mem_append_left _ hk)
      obtain ⟨hG, hP⟩ := faithful_license (hm m (by simp)) (run (perform depth) first moves)
      rw [run_append_singleton]
      exact stations_passes (I := fun _ => Credited) hG hP (fun _ _ => Station.credited_start)
        (fun hs h ht => Station.credited_turn hs ht h) (posted_run depth hw hp moves hmoves) (ih hmoves)
        (passes_permit depth m (wired_run depth hw moves))

/-! ## 2. Retries -/

/-- A dispatch of the open goals, seen from the runner. -/
theorem core_dispatchOpen (hr : r < s.runners.length) (mode : Mode) :
    ((s.dispatchOpen r mode).2.runner r).core =
      ((s.runner r).core.dispatchOpen mode (s.proof (s.runner r).proof).openGoals).2 := by
  unfold dispatchOpen
  simp only
  split
  · have hl : r < (s.probe (s.runner r).proof r .dispatching).runners.length := by
      obtain ⟨es, _, e⟩ := probe_eq (s := s) (p := (s.runner r).proof) r .dispatching
      rw [e]
      exact hr
    rw [runner_takeLaunch, setCore, runner_modifyRunner_self _ hl, proof_probe]
  · rename_i h
    unfold Runner.dispatchOpen
    rw [if_neg h]

theorem proof_dispatchOpen (mode : Mode) (q : ProofId) :
    (s.dispatchOpen r mode).2.proof q = s.proof q := by
  unfold dispatchOpen
  simp only
  split
  · rw [proof_takeLaunch, proof_probe]
  · rfl

/-- What a retry makes of a runner: it takes over solvers at most, and hands out once more. -/
theorem core_retry (again : Again) (hr : r < s.runners.length) (hcall : call.isRetry = true) :
    (∃ settings, ((runnerCall again s r call).2.runner r).core =
      (({ (s.runner r).core with settings }).dispatchOpen .retry
        (s.proof (s.runner r).proof).openGoals).2) ∧
    ∀ q, (runnerCall again s r call).2.proof q = s.proof q := by
  cases call with
  | resume => exact ⟨⟨(s.runner r).core.settings, core_dispatchOpen hr .retry⟩, proof_dispatchOpen .retry⟩
  | setSolvers solvers =>
      have hl : r < (s.setCore r ((s.runner r).core.setSolvers solvers)).runners.length := by
        rw [setCore, length_modifyRunner]
        exact hr
      have he := runner_modifyRunner_self (s := s) (r := r)
        (fun h => { h with core := (s.runner r).core.setSolvers solvers }) hr
      refine ⟨⟨{ (s.runner r).core.settings with solvers }, ?_⟩, proof_dispatchOpen .retry⟩
      refine (core_dispatchOpen hl .retry).trans ?_
      rw [setCore, he]
      rfl
  | dispatch | ruleApplied | autoStarted | autoStopped | treeChanged | close | completed | refresh
  | stopAll => cases hcall

/-- **A retry passes over a goal for whose sequent the answer is known**, and leaves an open runner open. -/
theorem retry_skips_answered (again : Again) (hr : r < s.runners.length) (hcall : call.isRetry = true)
    (hc : (s.runner r).core.Consistent) {g : Goal} (hg : g ∈ (s.proof (s.runner r).proof).tree.goals)
    (hv : (((runnerCall again s r call).2.runner r).core.cachedResult g.sequent).isSome = true) :
    ((runnerCall again s r call).2.runner r).core.isRunning g.node = (s.runner r).core.isRunning g.node ∧
      ((runnerCall again s r call).2.runner r).core.closed = (s.runner r).core.closed := by
  obtain ⟨⟨chosen, hcore⟩, _⟩ := core_retry again hr hcall
  -- the runner before, with the settings that it takes over
  have hcons : ({ (s.runner r).core with settings := chosen } : Runner).Consistent :=
    hc.congr rfl rfl rfl (Nat.le_refl _)
  rw [hcore] at hv ⊢
  rw [Runner.cachedResult_dispatchOpen] at hv
  refine ⟨Runner.retry_passes_over hcons (fun k hk hn => ?_) hv, Runner.dispatchOpen_closed⟩
  rw [Tree.goal_unique (mem_openGoals.mp hk) hg hn]

theorem isFaithful_of_isRetry (hcall : call.isRetry = true) : (Move.runner r call).isFaithful = true := by
  cases call <;> first | rfl | cases hcall

/-- **Which goals with a known valid answer are proved or in flight after a retry.** Take any proofs as they
    are built and any moves in which goals come from proofs, with any answers, stops and retries, and let a
    runner that has not ended hand out goals once more, with the same or with other solvers. An open goal
    for whose sequent the known answer is valid then is proved or in flight iff its own node was answered
    valid at some time, or it was in flight already. If it is neither, the known answer was given for another
    node. In the active proof it can be closed with its answer iff its own node was answered valid. -/
theorem retry_covers_iff (depth : Nat) (proofs : List (String × Tree)) (settings : Settings)
    (moves : List Move) (hnew : ∀ x ∈ proofs, x.2.IsNew) (hf : ∀ m ∈ moves, m.isFaithful = true)
    (hs : s = run (perform depth) (start proofs settings) moves) (hr : r < s.runners.length)
    (hopen : (s.runner r).core.closed = false) (hcall : call.isRetry = true)
    (ht : t = move (perform depth) s (.runner r call)) {g : Goal}
    (hg : g ∈ (t.proof (t.runner r).proof).tree.goals)
    (hv : (t.runner r).core.cachedResult g.sequent = some .valid) :
    ((g.node ∈ (t.runner r).core.solved ∨ (t.runner r).core.isRunning g.node = true) ↔
      answeredValid g.node (t.deeds r) = true ∨ (s.runner r).core.isRunning g.node = true) ∧
    (¬ (g.node ∈ (t.runner r).core.solved ∨ (t.runner r).core.isRunning g.node = true) →
      ∃ x ∈ (t.runner r).core.problems,
        x.node ≠ g.node ∧ x.sequent = g.sequent ∧ x.result = some .valid) ∧
    (t.registry.activeRunner? = some r →
      (t.canApply g.node = true ↔ answeredValid g.node (t.deeds r) = true)) := by
  have hw : Wired s := hs ▸ wired_run depth (wired_start proofs settings) moves
  have hrun : t = run (perform depth) (start proofs settings) (moves ++ [.runner r call]) := by
    rw [run_append_singleton, ← hs, ht]
  have hf' : ∀ m ∈ moves ++ [.runner r call], m.isFaithful = true := by
    intro m hm
    rcases List.mem_append.mp hm with hm | hm
    · exact hf m hm
    · rw [List.mem_singleton.mp hm]
      exact isFaithful_of_isRetry hcall
  have hgrow : Grows s t := by
    rw [ht]
    exact grows_reaches (reaches_move depth _ hw)
  have hwatch : (t.runner r).proof = (s.runner r).proof := hgrow.watches r hr
  have he : t = (runnerCall (perform depth) s r call).2 := ht
  have hgoals : g ∈ (s.proof (s.runner r).proof).tree.goals := by
    rw [hwatch, he, (core_retry (perform depth) hr hcall).2] at hg
    exact hg
  have hcons : (s.runner r).core.Consistent := by
    have hp := posted_run depth (wired_start proofs settings) (posted_start proofs settings) moves hf
    exact ((hs ▸ hp).sound r hr).consistent
  obtain ⟨hrunning, hclosed⟩ := retry_skips_answered (perform depth) hr hcall hcons hgoals
    (by rw [← he, hv]; rfl)
  rw [← he] at hrunning hclosed
  -- what was answered valid is proved, and nothing else
  have hr' : r < t.runners.length := Nat.lt_of_lt_of_le hr hgrow.runners
  have hcred : Credited (t.station r) := by
    have hall := credited_run depth (wired_start proofs settings) (posted_start proofs settings) rfl
      (moves ++ [.runner r call]) hf'
    rw [← hrun] at hall
    exact hall r hr'
  have hsolved : g.node ∈ (t.runner r).core.solved ↔ answeredValid g.node (t.deeds r) = true :=
    hcred.mem_solved_iff (hclosed.trans hopen) (Runner.contains_of_mem_goals hg)
  refine ⟨by rw [hsolved, hrunning], fun hnot => ?_, fun hact => ?_⟩
  · obtain ⟨x, hx, hq, hres⟩ := Runner.cachedResult_mem hv
    refine ⟨x, hx, fun e => hnot (Or.inl (hsolved.mpr ?_)), hq, hres⟩
    exact e ▸ hcred.result x hx hres
  · have hshape : (t.proof (t.runner r).proof).tree.Shape := by
      rw [hrun]
      refine shape_run depth hnew settings _ (fun m hm => ?_) _
      have hfm := hf' m hm
      cases m <;> first | rfl | cases hfm
    exact (canApply_iff_solved hact hshape hg).trans hsolved

/-- Of two goals with one sequent, handed out one after the other, the first is answered valid and the
    second is given up; after a retry with another solver the first is proved. -/
theorem retry_covers_iff_own :
    let chosen : Settings := { solvers := .ofList [.z3] }
    let a : Sequent := .goal "a"
    let b : Sequent := .goal "b"
    let proofs : List (String × Tree) := [("p", .ofGoals [a, b])]
    let first : Launch := { batch := 1, settings := chosen, problems := [⟨1, a⟩, ⟨2, b⟩] }
    let moves : List Move := [.select 0, .proof 0 (.applyRule 2 "cut" [a]),
      .finish ⟨0, first, .queued⟩ [{ node := 1, status := .valid }], .runner 0 .stopAll]
    let s := run (perform 1) (start proofs chosen) moves
    let t := move (perform 1) s (.runner 0 (.setSolvers (.ofList [.cvc5])))
    (∀ x ∈ proofs, x.2.IsNew) ∧ (∀ m ∈ moves, m.isFaithful = true) ∧ 0 < s.runners.length ∧
    (s.runner 0).core.closed = false ∧ (⟨1, a⟩ : Goal) ∈ (t.proof (t.runner 0).proof).tree.goals ∧
    (t.runner 0).core.cachedResult a = some .valid ∧ answeredValid 1 (t.deeds 0) = true ∧
    (1 ∈ (t.runner 0).core.solved ∨ (t.runner 0).core.isRunning 1 = true) ∧ t.canApply 1 = true := by
  intro chosen a b proofs first moves s t
  have hnew : ∀ x ∈ proofs, x.2.IsNew := by
    intro x hx
    rw [List.mem_singleton.mp hx]
    exact .ofGoals _
  have hf : ∀ m ∈ moves, m.isFaithful = true := by decide +kernel
  have hr : 0 < s.runners.length := by decide +kernel
  have hopen : (s.runner 0).core.closed = false := by decide +kernel
  have hg : (⟨1, a⟩ : Goal) ∈ (t.proof (t.runner 0).proof).tree.goals := by decide +kernel
  have hv : (t.runner 0).core.cachedResult a = some .valid := by decide +kernel
  have ha : answeredValid 1 (t.deeds 0) = true := by decide +kernel
  have hact : t.registry.activeRunner? = some 0 := by decide +kernel
  have hs : s = run (perform 1) (start proofs chosen) moves := rfl
  have hcall : RunnerCall.isRetry (.setSolvers (.ofList [.cvc5])) = true := rfl
  obtain ⟨hcov, _, hcan⟩ := retry_covers_iff 1 proofs chosen moves hnew hf hs (r := 0) hr hopen hcall
    (t := t) rfl (g := ⟨1, a⟩) hg hv
  exact ⟨hnew, hf, hr, hopen, hg, hv, ha, hcov.mpr (Or.inl ha), (hcan hact).mpr ha⟩

/-- **A goal that a retry leaves out because of the answer for another node.** Of two goals with one sequent,
    handed out one after the other, the first is answered valid and the second is given up. The runner is
    open, not suspended and has a solver, but handing out goals once more passes over the second, which is
    open with a known valid answer, and neither proved nor in flight. -/
theorem answer_of_twin :
    let chosen : Settings := { solvers := .ofList [.z3] }
    let a : Sequent := .goal "a"
    let b : Sequent := .goal "b"
    let first : Launch := { batch := 1, settings := chosen, problems := [⟨1, a⟩, ⟨2, b⟩] }
    let s := run (perform 1) (start [("p", .ofGoals [a, b])] chosen)
      [.select 0, .proof 0 (.applyRule 2 "cut" [a]),
        .finish ⟨0, first, .queued⟩ [{ node := 1, status := .valid }], .runner 0 .stopAll]
    let t := move (perform 1) s (.runner 0 .resume)
    (s.runner 0).core.closed = false ∧ (s.runner 0).core.suspended = false ∧
    (s.runner 0).core.settings.hasSolvers = true ∧
    (⟨3, a⟩ : Goal) ∈ (t.proof (t.runner 0).proof).tree.goals ∧
    (t.runner 0).core.cachedResult a = some .valid ∧
    3 ∉ (t.runner 0).core.solved ∧ (t.runner 0).core.isRunning 3 = false ∧ t.canApply 3 = false := by
  decide +kernel

end Session

end GoalWatch
