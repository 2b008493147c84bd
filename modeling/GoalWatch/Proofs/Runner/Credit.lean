import GoalWatch.Proofs.Runner.Latest

/-!
# Answers and proved nodes

Answers are kept by sequent, proved nodes by number. A node that is still there is proved exactly when a
batch with which it was handed out itself was answered valid for it; a valid answer for another node with
the same sequent does not count.

* `answeredValid` -- the node was answered valid, read off the marks of a runner;
* `Station.Credited` -- the nodes that were answered valid are the proved ones;
* `credited_turn` -- every turn keeps that;
* `Runner.retry_passes_over` -- a retry leaves alone what has a conclusive answer.
-/

namespace GoalWatch

/-- **A batch with which the node was handed out was answered valid for it**, some time in the marks of a
    runner, the newest first. -/
def answeredValid (n : NodeId) : List Deed → Bool
  | [] => false
  | .completed batch outcomes :: earlier =>
    (earlier.any (Deed.handsOut batch n) && Runner.statusOf outcomes n == .valid) ||
      answeredValid n earlier
  | _ :: earlier => answeredValid n earlier

/-- What is given up is no answer. -/
theorem answeredValid_stopped (n : NodeId) (ds : List Deed) : ∀ stopped : List BatchId,
    answeredValid n ((stopped.map .stopped).reverse ++ ds) = answeredValid n ds := by
  intro stopped
  rw [← List.map_reverse]
  induction stopped.reverse with
  | nil => rfl
  | cons b rest ih => exact ih

theorem answeredValid_completed {n : NodeId} {ds : List Deed} {batch : BatchId} {outcomes : List Outcome} :
    answeredValid n (.completed batch outcomes :: ds) = true ↔
      ds.any (Deed.handsOut batch n) = true ∧ Runner.statusOf outcomes n = .valid ∨
        answeredValid n ds = true := by
  simp [answeredValid]

namespace Station

variable {G : Grant} {x y : Station} {n : NodeId}

/-! ## 1. Credit -/

/-- **What was answered valid is proved, and nothing else**, as far as it is still there. -/
structure Credited (x : Station) : Prop where
  known : ∀ n, answeredValid n x.deeds = true → n < x.tree.nodes.size
  proved : ∀ n ∈ x.core.solved, answeredValid n x.deeds = true
  /-- A problem has a valid result only if its node was answered valid. -/
  result : ∀ p ∈ x.core.problems, p.result = some .valid → answeredValid p.node x.deeds = true
  credit : x.core.closed = false → ∀ n, x.tree.contains n = true → answeredValid n x.deeds = true →
    n ∈ x.core.solved

theorem credited_start (tree : Tree) (settings : Settings) : Credited ⟨tree, { settings }, []⟩ where
  known _ h := by cases h
  proved _ h := absurd h List.not_mem_nil
  result _ h := absurd h List.not_mem_nil
  credit _ _ _ h := by cases h

/-- A tree that has lost nodes and got new ones. -/
theorem Credited.setTree (h : Credited x) {tree : Tree} (hsize : x.tree.nodes.size ≤ tree.nodes.size)
    (hlive : ∀ n < x.tree.nodes.size, tree.contains n = true → x.tree.contains n = true) :
    Credited { x with tree } where
  known n ha := Nat.lt_of_lt_of_le (h.known n ha) hsize
  proved := h.proved
  result := h.result
  credit ho n hc ha := h.credit ho n (hlive n (h.known n ha) hc) ha

/-- The runner forgets problems at most, keeps what is proved, and leaves marks that are no answers. -/
theorem Credited.congr (h : Credited x) {core : Runner} {ds : List Deed}
    (ha : ∀ n, answeredValid n (ds ++ x.deeds) = answeredValid n x.deeds)
    (hp : ∀ p ∈ core.problems, p ∈ x.core.problems ∨ p.result = none)
    (hs : core.solved = x.core.solved) (hc : core.closed = x.core.closed) :
    Credited (x.put core ds) where
  known n hn := h.known n (ha n ▸ hn)
  proved n hn := (ha n).trans (h.proved n (hs ▸ hn))
  result p hm hr := by
    rcases hp p hm with hm | hnone
    · exact (ha p.node).trans (h.result p hm hr)
    · rw [hnone] at hr
      cases hr
  credit ho n hl hn := by
    show n ∈ core.solved
    rw [hs]
    exact h.credit (hc ▸ ho) n hl (ha n ▸ hn)

/-- Answers of a batch in flight: a node that was handed out with it has a problem without a result, so it
    is proved if its answer is valid and the node is still there. -/
theorem credited_answer (hs : Sound x) (h : Credited x) {batch : BatchId} {outcomes : List Outcome}
    (hf : batch ∈ x.core.inFlight) :
    Credited (x.put (x.core.afterAnswers x.tree.contains x.tree.contains batch outcomes)
      [.completed batch outcomes]) := by
  have hproblem : ∀ p ∈ x.core.problems, p.batch = batch →
      x.deeds.any (Deed.handsOut batch p.node) = true := by
    intro p hp hb
    obtain ⟨launch, hl, he, hg⟩ := hs.backed.problem p hp
    exact handsOut_iff.mpr ⟨launch, hl, he.trans hb, _, hg, rfl⟩
  -- and the other way round
  have hentry : ∀ n, x.deeds.any (Deed.handsOut batch n) = true →
      ∃ p ∈ x.core.problems, p.node = n ∧ p.batch = batch := by
    intro n hn
    obtain ⟨launch, hl, rfl, g, hg, rfl⟩ := handsOut_iff.mp hn
    exact hs.roster launch hl hf g hg
  refine ⟨fun n hn => ?_, fun n hn => ?_, fun q hq hr => ?_, fun ho n hl hn => ?_⟩
  · rcases answeredValid_completed.mp hn with ⟨hany, _⟩ | hn
    · obtain ⟨p, hp, rfl, _⟩ := hentry n hany
      exact (hs.carries p hp).lt_size
    · exact h.known n hn
  · refine answeredValid_completed.mpr ?_
    rcases mem_insertNodes.mp hn with hn | ⟨p, hp, rfl⟩
    · exact Or.inr (h.proved n hn)
    · obtain ⟨hp, hv⟩ := List.mem_filter.mp hp
      obtain ⟨hp, hb⟩ := List.mem_filter.mp hp
      simp only [Bool.and_eq_true, beq_iff_eq] at hv hb
      exact Or.inl ⟨hproblem p hp hb.1, hv.1⟩
  · obtain ⟨_, p, hp, rfl⟩ := Runner.mem_afterAnswers hq
    refine answeredValid_completed.mpr ?_
    by_cases hb : p.batch = batch
    · have hnone : p.result = none := hs.consistent.openFlight p hp (hb ▸ hf)
      have hr' : some (Runner.statusOf outcomes p.node) = some .valid := by
        simpa [hb, Problem.resolve, hnone] using hr
      rw [if_pos (by simpa using hb), Problem.resolve_node]
      exact Or.inl ⟨hproblem p hp hb, Option.some.inj hr'⟩
    · rw [untouched hb] at hr ⊢
      exact Or.inr (h.result p hp hr)
  · refine mem_insertNodes.mpr ?_
    rcases answeredValid_completed.mp hn with ⟨hany, hv⟩ | hn
    · obtain ⟨p, hp, rfl, hb⟩ := hentry n hany
      have hlive : x.tree.contains p.node = true := hl
      refine Or.inr ⟨p, List.mem_filter.mpr ⟨List.mem_filter.mpr ⟨hp, ?_⟩, ?_⟩, rfl⟩
      · simp [hb, hs.consistent.openFlight p hp (hb ▸ hf)]
      · simp [hv, hlive]
    · exact Or.inl (h.credit ho n hl hn)

/-- **Every turn keeps proved what was answered valid, and nothing else.** -/
theorem credited_turn (hs : Sound x) (ht : Turn G x y) (h : Credited x) : Credited y := by
  cases ht with
  | rule _ hr =>
      refine h.setTree ?_ fun n hn hc => (Tree.contains_applyRule hr hn) ▸ hc
      rw [Tree.size_applyRule hr]
      exact Nat.le_add_right _ _
  | prune _ hp =>
      exact h.setTree (Nat.le_of_eq (Tree.size_prune hp).symm) fun n _ hc => Tree.contains_of_prune hp hc
  | handOut mode goals hg ho =>
      rcases hs.handOut_cases mode hg ho with ⟨k, e⟩ | ⟨picked, _, e⟩
      · rw [e]
        exact h.congr (fun _ => rfl) (fun _ => Or.inl) rfl rfl
      · rw [e]
        refine h.congr (fun _ => rfl) (fun p hp => ?_) rfl rfl
        rcases mem_afterLaunch hp with hp | ⟨g, _, rfl⟩
        · exact Or.inl hp
        · exact Or.inr rfl
  | suspend =>
      unfold Runner.suspend
      split
      · exact h
      · exact h.congr (fun _ => rfl) (fun _ => Or.inl) rfl rfl
  | unsuspend =>
      unfold Runner.unsuspend
      split
      · exact h
      · exact h.congr (fun _ => rfl) (fun _ => Or.inl) rfl rfl
  | setSolvers solvers => exact h.congr (fun _ => rfl) (fun _ => Or.inl) rfl rfl
  | stop => exact h.congr (fun n => answeredValid_stopped n _ _) (fun _ => Or.inl) rfl rfl
  | refresh _ settings =>
      exact h.congr (fun n => answeredValid_stopped n _ _) (fun _ hp => absurd hp List.not_mem_nil) rfl rfl
  | close =>
      unfold Runner.close
      split
      · exact h
      · refine ⟨fun n hn => h.known n ?_, fun _ hn => absurd hn List.not_mem_nil,
          fun _ hp => absurd hp List.not_mem_nil, fun ho => by cases ho⟩
        rw [← answeredValid_stopped n x.deeds x.core.inFlight]
        exact hn
  | answer _ hc =>
      obtain ⟨hf, rfl⟩ := Runner.complete_cases.mp hc
      exact credited_answer hs h hf

/-- **A node that is there is proved iff it was answered valid**, until the runner ends. -/
theorem Credited.mem_solved_iff (h : Credited x) (ho : x.core.closed = false)
    (hl : x.tree.contains n = true) : n ∈ x.core.solved ↔ answeredValid n x.deeds = true :=
  ⟨h.proved n, h.credit ho n hl⟩

end Station

/-! ## 2. Retries -/

namespace Runner

variable {c : Runner} {goals : List Goal}

/-- New problems have no results, so a dispatch leaves all cached results alone. -/
theorem cachedResult_dispatchOpen (c : Runner) (mode : Mode) (goals : List Goal) (q : Sequent) :
    (c.dispatchOpen mode goals).2.cachedResult q = c.cachedResult q := by
  obtain ⟨picked, _, _, _, e, _⟩ := dispatchOpen_cases c mode goals
  have hnone : ((picked.map fun g =>
      ({ node := g.node, sequent := g.sequent, batch := c.nextBatch } : Problem)).filter
        fun p => p.sequent = q).filterMap Problem.result = [] := by
    refine List.filterMap_eq_nil_iff.mpr fun p hp => ?_
    obtain ⟨g, _, rfl⟩ := List.mem_map.mp (List.mem_filter.mp hp).1
    rfl
  unfold cachedResult
  rw [e, List.filter_append, List.filterMap_append, hnone, List.append_nil]

/-- **A retry leaves alone what has a conclusive answer**: whether the node runs does not change. -/
theorem retry_passes_over (hc : Consistent c) {g : Goal}
    (hsame : ∀ k ∈ goals, k.node = g.node → k.sequent = g.sequent)
    (hres : (c.cachedResult g.sequent).isSome = true) :
    (c.dispatchOpen .retry goals).2.isRunning g.node = c.isRunning g.node := by
  have hc' : Consistent (c.dispatchOpen .retry goals).2 := consistent_dispatchOpen hc .retry goals
  rcases dispatchOpen_eq c .retry goals with ⟨⟨k, e⟩, _⟩ | ⟨_, _, _, e⟩
  · rw [e]
    rfl
  · rw [e] at hc' ⊢
    -- the node is not picked: there is an answer for its sequent
    have hpick : ∀ k ∈ c.pick .retry goals, k.node ≠ g.node := by
      intro k hk hn
      obtain ⟨hk, hskip⟩ := List.mem_filter.mp hk
      have hq := hsame k (mem_of_mem_firstPerNode hk) hn
      simp [skips, hq, hres] at hskip
    rw [Bool.eq_iff_iff, hc'.isRunning_iff, hc.isRunning_iff]
    constructor
    · rintro ⟨p, hp, hn, hf⟩
      rcases Station.mem_afterLaunch hp with hp | ⟨k, hk, rfl⟩
      · exact ⟨p, hp, hn, (Station.flying_afterLaunch (hc.belowProblem p hp)).mp hf⟩
      · exact absurd hn (hpick k hk)
    · rintro ⟨p, hp, hn, hf⟩
      exact ⟨p, List.mem_append_left _ hp, hn,
        (Station.flying_afterLaunch (hc.belowProblem p hp)).mpr hf⟩

end Runner

end GoalWatch
