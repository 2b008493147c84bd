import GoalWatch.Proofs.Runner.Station

/-!
# Exact answers

A runner whose answers depend on sequents only, and that is never told to give up what is in flight without
forgetting it, knows exactly those answers.

* `Station.Exact` -- all results are those answers, and proved is what they prove;
* `exact_turn` -- every turn keeps that, until the runner ends;
* `Station.HandedOut` -- every open goal was handed out;
* `Exact.settled` -- once nothing is in flight, each open goal that was handed out has exactly its answer.
-/

namespace GoalWatch.Station

variable {G : Grant} {x y : Station} {n : NodeId} {ans : Sequent → Status}

/-! ## 1. All results are the answers -/

/-- **All that a station knows are the answers.** -/
structure Exact (ans : Sequent → Status) (x : Station) : Prop where
  /-- What is not in flight has its answer. -/
  answered : ∀ p ∈ x.core.problems, p.batch ∈ x.core.inFlight ∨ p.result = some (ans p.sequent)
  /-- What is proved has a valid answer, -/
  sound : ∀ n ∈ x.core.solved, ∃ q, x.tree.Carries n q ∧ ans q = .valid
  /-- and what has a valid answer is proved. -/
  complete : ∀ p ∈ x.core.problems, p.result = some .valid → p.node ∈ x.core.solved

theorem exact_start (ans : Sequent → Status) (tree : Tree) (settings : Settings) :
    Exact ans ⟨tree, { settings }, []⟩ where
  answered _ h := absurd h List.not_mem_nil
  sound _ h := absurd h List.not_mem_nil
  complete _ h := absurd h List.not_mem_nil

/-- The runner changes in nothing that is looked at here. -/
theorem Exact.congr (h : Exact ans x) {core : Runner} {ds : List Deed}
    (hf : core.inFlight = x.core.inFlight) (hp : core.problems = x.core.problems)
    (hs : core.solved = x.core.solved) : Exact ans (x.put core ds) where
  answered p hm := by
    show p.batch ∈ core.inFlight ∨ _
    rw [hf]
    exact h.answered p (hp ▸ hm)
  sound n hn := h.sound n (hs ▸ hn)
  complete p hm hr := by
    show p.node ∈ core.solved
    rw [hs]
    exact h.complete p (hp ▸ hm) hr

theorem exact_launch (h : Exact ans x) (picked : List Goal) (ds : List Deed) :
    Exact ans (x.put (x.core.afterLaunch picked) ds) where
  answered p hp := by
    rcases mem_afterLaunch hp with hp | ⟨g, _, rfl⟩
    · exact (h.answered p hp).imp (List.mem_append_left _) id
    · exact Or.inl (List.mem_append_right _ List.mem_cons_self)
  sound := h.sound
  complete p hp hr := by
    rcases mem_afterLaunch hp with hp | ⟨g, _, rfl⟩
    · exact h.complete p hp hr
    · cases hr

/-- The answers of a batch: a problem of it gets its answer, and if that is valid and its node is still there,
    the node is proved; if its node is gone, the problem is forgotten. -/
theorem exact_answer (hs : Sound x) (h : Exact ans x) {batch : BatchId} {outcomes : List Outcome}
    (hf : batch ∈ x.core.inFlight) (hans : ∀ p ∈ x.core.problems, p.batch = batch →
      Runner.statusOf outcomes p.node = ans p.sequent) (ds : List Deed) :
    Exact ans (x.put (x.core.afterAnswers x.tree.contains x.tree.contains batch outcomes) ds) := by
  have hfly : ∀ b, b ∈ x.core.inFlight.erase batch ↔ b ≠ batch ∧ b ∈ x.core.inFlight :=
    fun b => hs.consistent.flightOnce.mem_erase_iff
  -- a problem of the batch had no result, so it gets the answer
  have hresolve : ∀ p ∈ x.core.problems, p.batch = batch →
      (if p.batch == batch then p.resolve (Runner.statusOf outcomes p.node) else p) =
        { p with result := some (ans p.sequent) } := by
    intro p hp hb
    rw [if_pos (by simpa using hb), hans p hp hb]
    unfold Problem.resolve
    rw [hs.consistent.openFlight p hp (hb ▸ hf)]
  have hsolved : ∀ n, n ∈ (x.core.afterAnswers x.tree.contains x.tree.contains batch outcomes).solved ↔
      n ∈ x.core.solved ∨ ∃ p ∈ (x.core.problems.filter fun p => p.batch == batch && p.result.isNone).filter
        (fun p => Runner.statusOf outcomes p.node == .valid && x.tree.contains p.node), p.node = n :=
    fun n => mem_insertNodes
  refine ⟨fun p' hp' => ?_, fun n hn => ?_, fun p' hp' hr => ?_⟩
  · obtain ⟨_, p, hp, rfl⟩ := Runner.mem_afterAnswers hp'
    by_cases hb : p.batch = batch
    · rw [hresolve p hp hb]
      exact Or.inr rfl
    · rw [untouched hb]
      exact (h.answered p hp).imp (fun hm => (hfly _).mpr ⟨hb, hm⟩) id
  · rcases (hsolved n).mp hn with hn | ⟨p, hp, rfl⟩
    · exact h.sound n hn
    · obtain ⟨hp, hv⟩ := List.mem_filter.mp hp
      obtain ⟨hp, hb⟩ := List.mem_filter.mp hp
      simp only [Bool.and_eq_true, beq_iff_eq] at hv hb
      exact ⟨p.sequent, hs.carries p hp, (hans p hp hb.1).symm.trans hv.1⟩
  · obtain ⟨hk, p, hp, rfl⟩ := Runner.mem_afterAnswers hp'
    refine (hsolved _).mpr ?_
    by_cases hb : p.batch = batch
    · rw [hresolve p hp hb] at hk hr ⊢
      -- its batch is over, so it is still there only if its node is
      have hlive : x.tree.contains p.node = true :=
        hk.resolve_right fun hm => ((hfly _).mp hm).1 hb
      refine Or.inr ⟨p, List.mem_filter.mpr ⟨List.mem_filter.mpr ⟨hp, ?_⟩, ?_⟩, rfl⟩
      · simp [hb, hs.consistent.openFlight p hp (hb ▸ hf)]
      · simpa [hans p hp hb, hlive] using hr
    · rw [untouched hb] at hr ⊢
      exact Or.inl (h.complete p hp hr)

/-- **Every turn keeps the answers exact**, until the runner ends. -/
theorem exact_turn (hs : Sound x) (hG : ¬ G.stops)
    (hans : ∀ b os, G.answers b os → ∀ p ∈ x.core.problems, p.batch = b →
      Runner.statusOf os p.node = ans p.sequent)
    (ht : Turn G x y) (h : x.core.closed = false → Exact ans x) :
    y.core.closed = false → Exact ans y := by
  intro hopen
  have h := h (by
    by_contra hc
    rw [ht.closed.1 (by simpa using hc)] at hopen
    cases hopen)
  cases ht with
  | rule _ hr =>
      refine ⟨h.answered, fun n hn => ?_, h.complete⟩
      obtain ⟨q, hq, hv⟩ := h.sound n hn
      exact ⟨q, Tree.carries_applyRule hr hq, hv⟩
  | prune _ hp =>
      refine ⟨h.answered, fun n hn => ?_, h.complete⟩
      obtain ⟨q, hq, hv⟩ := h.sound n hn
      exact ⟨q, Tree.carries_prune hp hq, hv⟩
  | handOut mode goals hg ho =>
      rcases hs.handOut_cases mode hg ho with ⟨k, e⟩ | ⟨picked, _, e⟩
      · rw [e]
        exact h.congr rfl rfl rfl
      · rw [e]
        exact exact_launch h picked _
  | suspend =>
      unfold Runner.suspend
      split
      · exact h
      · exact h.congr rfl rfl rfl
  | unsuspend =>
      unfold Runner.unsuspend
      split
      · exact h
      · exact h.congr rfl rfl rfl
  | setSolvers solvers => exact h.congr rfl rfl rfl
  | stop hstop => exact absurd hstop hG
  | refresh _ settings =>
      exact ⟨fun _ hp => absurd hp List.not_mem_nil, h.sound, fun _ hp => absurd hp List.not_mem_nil⟩
  | close =>
      unfold Runner.close at hopen ⊢
      by_cases hc : x.core.closed = true
      · rw [if_pos hc]
        exact h
      · rw [if_neg hc] at hopen
        cases hopen
  | @answer batch outcomes core ha hc =>
      obtain ⟨hf, rfl⟩ := Runner.complete_cases.mp hc
      exact exact_answer hs h hf (hans batch outcomes ha) _

/-! ## 2. Nothing in flight -/

/-- Every open goal was handed out. -/
def HandedOut (x : Station) : Prop := ∀ g ∈ x.tree.goals, g.node ∈ x.core.dispatched

/-- A turn that neither changes the tree nor forgets what was handed out. -/
theorem handedOut_turn (he : ¬ G.edits) (hr : ¬ G.refreshes) (hc : ¬ G.closes) (ht : Turn G x y)
    (h : HandedOut x) : HandedOut y := by
  cases ht with
  | rule hG | prune hG => exact absurd hG he
  | refresh hG => exact absurd hG hr
  | close hG => exact absurd hG hc
  | handOut mode goals _ _ => exact fun g hg => Runner.mem_dispatched_dispatchOpen (h g hg)
  | suspend =>
      unfold Runner.suspend
      split <;> exact h
  | unsuspend =>
      unfold Runner.unsuspend
      split <;> exact h
  | answer _ hcompl =>
      obtain ⟨_, rfl⟩ := Runner.complete_cases.mp hcompl
      exact h
  | setSolvers | stop => exact h

/-- When all results of problems with a sequent are one answer, that is the conclusive one, if it is. -/
theorem cachedResult_of_answered {c : Runner} {q : Sequent} {st : Status}
    (hall : ∀ p ∈ c.problems, p.sequent = q → p.result = some st)
    (hsome : ∃ p ∈ c.problems, p.sequent = q) :
    c.cachedResult q = if st.isDefinitive then some st else none := by
  obtain ⟨p, hp, hq⟩ := hsome
  cases hdef : st.isDefinitive with
  | true =>
      have hs : (c.cachedResult q).isSome = true :=
        Runner.cachedResult_isSome.mpr ⟨p, hp, hq, st, hall p hp hq, hdef⟩
      obtain ⟨st', hst'⟩ := Option.isSome_iff_exists.mp hs
      obtain ⟨p', hp', hq', hr'⟩ := Runner.cachedResult_mem hst'
      rw [hall p' hp' hq'] at hr'
      rw [hst', ← hr']
      rfl
  | false =>
      have hn : ¬ (c.cachedResult q).isSome = true := by
        intro hs
        obtain ⟨p', hp', hq', st', hr', hd'⟩ := Runner.cachedResult_isSome.mp hs
        rw [hall p' hp' hq'] at hr'
        cases hr'
        rw [hdef] at hd'
        cases hd'
      simpa using hn

/-- **Once nothing is in flight, each open goal that was handed out has exactly its answer.** -/
theorem Exact.settled (hs : Sound x) (h : Exact ans x) (hidle : x.core.inFlight = []) {g : Goal}
    (hg : g ∈ x.tree.goals) (hd : g.node ∈ x.core.dispatched) :
    (x.core.isSolved g.node = true ↔ ans g.sequent = .valid) ∧
      x.core.cachedResult g.sequent =
        if (ans g.sequent).isDefinitive then some (ans g.sequent) else none := by
  have hcar := Tree.carries_of_mem_goals hg
  have hall : ∀ p ∈ x.core.problems, p.result = some (ans p.sequent) := by
    intro p hp
    refine (h.answered p hp).resolve_left fun hm => ?_
    rw [hidle] at hm
    exact absurd hm List.not_mem_nil
  -- an open goal that was handed out is remembered
  obtain ⟨p, hp, hn⟩ := hs.knows.entry _ hd (Runner.contains_of_mem_goals hg)
  have hq : p.sequent = g.sequent := (hs.carries p hp).unique (hn ▸ hcar)
  refine ⟨⟨fun hsol => ?_, fun hv => ?_⟩, ?_⟩
  · obtain ⟨q, hc, hv⟩ := h.sound _ (List.contains_iff_mem.mp hsol)
    rw [hcar.unique hc]
    exact hv
  · refine List.contains_iff_mem.mpr (hn ▸ h.complete p hp ?_)
    rw [hall p hp, hq, hv]
  · refine cachedResult_of_answered (fun p hp he => ?_) ⟨p, hp, hq⟩
    rw [hall p hp, he]

end GoalWatch.Station
