import GoalWatch.Proofs.Runner.Consistent
import GoalWatch.Proofs.Tree.Table

/-!
# A runner and the tree it watches

Which open goals of a tree a runner has handed out, as the runner works and the tree changes.

* `Runner.Knows` -- the runner remembers every live node that it handed out;
* `Runner.Tends` -- and it has handed out every open goal, once it remembers a node that is gone;
* `Runner.Attends` -- every open goal was handed out, or its sequent has a conclusive answer;
* `tends_rule`, `tends_fresh`, `tends_afterAnswers`, … -- what keeps the second, `attends_…` -- the third.
-/

namespace GoalWatch.Runner

variable {c c' : Runner} {t t' : Tree} {mode : Mode} {goals : List Goal} {n : NodeId}

/-! ## 1. Handing out, seen from the tree -/

/-- All that a dispatch changes: what it picked is handed out and remembered. -/
theorem dispatchOpen_cases (c : Runner) (mode : Mode) (goals : List Goal) :
    ∃ picked, (c.accepting = true → c.settings.hasSolvers = true → picked = c.pick mode goals) ∧
      (∀ g ∈ picked, g ∈ goals) ∧
      (∀ n, n ∈ (c.dispatchOpen mode goals).2.dispatched ↔ n ∈ c.dispatched ∨ ∃ g ∈ picked, g.node = n) ∧
      (c.dispatchOpen mode goals).2.problems = c.problems ++ picked.map (fun g =>
        { node := g.node, sequent := g.sequent, batch := c.nextBatch }) ∧
      (c.dispatchOpen mode goals).2.settings = c.settings ∧
      (c.dispatchOpen mode goals).2.closed = c.closed ∧
      (c.dispatchOpen mode goals).2.suspended = c.suspended := by
  unfold dispatchOpen
  split
  · rcases dispatch_cases c mode goals with ⟨e, hn⟩ | ⟨_, _, _, e⟩
    · rw [e]
      exact ⟨[], fun ha hs => (hn ha hs).symm, fun _ h => absurd h List.not_mem_nil, fun n => by simp,
        by simp, rfl, rfl, rfl⟩
    · rw [e]
      refine ⟨c.pick mode goals, fun _ _ => rfl, fun g hg => ?_, fun n => mem_addNodes, rfl, rfl, rfl, rfl⟩
      exact mem_of_mem_firstPerNode (List.mem_filter.mp hg).1
  · rename_i hacc
    exact ⟨[], fun ha => absurd ha hacc, fun _ h => absurd h List.not_mem_nil, fun n => by simp,
      by simp, rfl, rfl, rfl⟩

@[simp] theorem dispatchOpen_settings : (c.dispatchOpen mode goals).2.settings = c.settings := by
  obtain ⟨_, _, _, _, _, h, _, _⟩ := dispatchOpen_cases c mode goals
  exact h

@[simp] theorem dispatchOpen_closed : (c.dispatchOpen mode goals).2.closed = c.closed := by
  obtain ⟨_, _, _, _, _, _, h, _⟩ := dispatchOpen_cases c mode goals
  exact h

@[simp] theorem dispatchOpen_accepting : (c.dispatchOpen mode goals).2.accepting = c.accepting := by
  obtain ⟨_, _, _, _, _, _, h, h'⟩ := dispatchOpen_cases c mode goals
  unfold accepting
  rw [h, h']

theorem mem_dispatched_dispatchOpen (h : n ∈ c.dispatched) :
    n ∈ (c.dispatchOpen mode goals).2.dispatched := by
  obtain ⟨_, _, _, hd, _⟩ := dispatchOpen_cases c mode goals
  exact (hd n).mpr (Or.inl h)

/-- A fresh dispatch hands out every goal that was not handed out before. -/
theorem dispatched_fresh (ha : c.accepting = true) (hs : c.settings.hasSolvers = true) {g : Goal}
    (hg : g ∈ goals) : g.node ∈ (c.dispatchOpen .fresh goals).2.dispatched := by
  obtain ⟨picked, hp, _, hd, _⟩ := dispatchOpen_cases c .fresh goals
  rw [hd, hp ha hs]
  obtain ⟨x, hx, he⟩ := exists_mem_firstPerNode hg
  by_cases hm : g.node ∈ c.dispatched
  · exact Or.inl hm
  · refine Or.inr ⟨x, List.mem_filter.mpr ⟨hx, ?_⟩, he⟩
    simpa [skips, he] using hm

/-- There is a conclusive answer for a sequent iff some problem with it has one. -/
theorem cachedResult_isSome {q : Sequent} : (c.cachedResult q).isSome = true ↔
    ∃ x ∈ c.problems, x.sequent = q ∧ ∃ st, x.result = some st ∧ st.isDefinitive = true := by
  unfold cachedResult
  rw [List.find?_isSome]
  simp only [List.mem_filterMap, List.mem_filter, decide_eq_true_eq]
  constructor
  · rintro ⟨st, ⟨x, ⟨hx, hq⟩, hr⟩, hd⟩
    exact ⟨x, hx, hq, st, hr, hd⟩
  · rintro ⟨x, hx, hq, st, hr, hd⟩
    exact ⟨st, ⟨x, ⟨hx, hq⟩, hr⟩, hd⟩

/-- A conclusive answer for a sequent is the result of one of its problems. -/
theorem cachedResult_mem {q : Sequent} {st : Status} (h : c.cachedResult q = some st) :
    ∃ x ∈ c.problems, x.sequent = q ∧ x.result = some st := by
  obtain ⟨x, hx, he⟩ := List.mem_filterMap.mp (List.mem_of_find?_eq_some h)
  obtain ⟨hx, hq⟩ := List.mem_filter.mp hx
  exact ⟨x, hx, by simpa using hq, he⟩

/-! ## 2. What is remembered of a tree -/

/-- The nodes that were handed out are nodes of the tree, and those still live are remembered. -/
structure Knows (c : Runner) (t : Tree) : Prop where
  known : ∀ n ∈ c.dispatched, n < t.nodes.size
  entry : ∀ n ∈ c.dispatched, t.contains n = true → ∃ x ∈ c.problems, x.node = n

/-- **A runner tends its tree**: once it remembers a node that is gone, it has handed out every open goal,
    so that no open goal rests on an answer that will be forgotten with that node. -/
structure Tends (c : Runner) (t : Tree) : Prop extends Knows c t where
  gone : c.accepting = true → c.settings.hasSolvers = true →
    (∃ x ∈ c.problems, t.contains x.node = false) → ∀ g ∈ t.goals, g.node ∈ c.dispatched

/-- **A runner attends to its tree**: every open goal was handed out or needs no handing out. -/
def Attends (c : Runner) (t : Tree) : Prop :=
  c.accepting = true → c.settings.hasSolvers = true →
    ∀ g ∈ t.goals, g.node ∈ c.dispatched ∨ (c.cachedResult g.sequent).isSome = true

theorem tends_start (settings : Settings) (t : Tree) : Tends { settings } t where
  known _ h := absurd h List.not_mem_nil
  entry _ h := absurd h List.not_mem_nil
  gone _ _ := fun ⟨_, h, _⟩ => absurd h List.not_mem_nil

theorem contains_of_mem_goals {g : Goal} (h : g ∈ t.goals) : t.contains g.node = true :=
  Tree.contains_of_isGoal (Tree.mem_goals.mp h).1

theorem lt_size_of_mem_goals {g : Goal} (h : g ∈ t.goals) : g.node < t.nodes.size :=
  Tree.lt_size_of_contains (contains_of_mem_goals h)

theorem knows_dispatchOpen (h : Knows c t) (hg : ∀ g ∈ goals, g.node < t.nodes.size) :
    Knows (c.dispatchOpen mode goals).2 t := by
  obtain ⟨picked, _, hsub, hd, hp, _⟩ := dispatchOpen_cases c mode goals
  refine ⟨fun n hn => ?_, fun n hn hc => ?_⟩
  · rcases (hd n).mp hn with hn | ⟨g, hm, rfl⟩
    · exact h.known n hn
    · exact hg g (hsub g hm)
  · rw [hp]
    rcases (hd n).mp hn with hn | ⟨g, hm, rfl⟩
    · obtain ⟨x, hx, he⟩ := h.entry n hn hc
      exact ⟨x, List.mem_append_left _ hx, he⟩
    · exact ⟨_, List.mem_append_right _ (List.mem_map_of_mem hm), rfl⟩

/-- A problem after a dispatch was there before, or belongs to one of the goals. -/
theorem node_of_dispatchOpen {x : Problem} (hx : x ∈ (c.dispatchOpen mode goals).2.problems) :
    x ∈ c.problems ∨ ∃ g ∈ goals, g.node = x.node := by
  obtain ⟨picked, _, hsub, _, hp, _⟩ := dispatchOpen_cases c mode goals
  rw [hp] at hx
  rcases List.mem_append.mp hx with hx | hx
  · exact Or.inl hx
  · obtain ⟨g, hm, rfl⟩ := List.mem_map.mp hx
    exact Or.inr ⟨g, hsub g hm, rfl⟩

theorem tends_dispatchOpen (h : Tends c t) (hg : ∀ g ∈ goals, g ∈ t.goals) :
    Tends (c.dispatchOpen mode goals).2 t where
  toKnows := knows_dispatchOpen h.toKnows fun g hm => lt_size_of_mem_goals (hg g hm)
  gone ha hs := by
    rintro ⟨x, hx, hc⟩ g hm
    rw [dispatchOpen_accepting] at ha
    rw [dispatchOpen_settings] at hs
    rcases node_of_dispatchOpen hx with hx | ⟨y, hy, he⟩
    · exact mem_dispatched_dispatchOpen (h.gone ha hs ⟨x, hx, hc⟩ g hm)
    · rw [← he, contains_of_mem_goals (hg y hy)] at hc
      cases hc

/-- After a fresh dispatch of all open goals nothing is left to hand out, whatever was forgotten before. -/
theorem tends_fresh (h : Knows c t) : Tends (c.dispatchOpen .fresh t.goals).2 t where
  toKnows := knows_dispatchOpen h fun _ => lt_size_of_mem_goals
  gone ha hs _ g hm := by
    rw [dispatchOpen_accepting] at ha
    rw [dispatchOpen_settings] at hs
    exact dispatched_fresh ha hs hm

theorem attends_fresh : Attends (c.dispatchOpen .fresh t.goals).2 t := by
  intro ha hs g hm
  rw [dispatchOpen_accepting] at ha
  rw [dispatchOpen_settings] at hs
  exact Or.inl (dispatched_fresh ha hs hm)

/-- A retry leaves out what is running, which was handed out, and what has a conclusive answer. -/
theorem attends_retry (hc : Consistent c) : Attends (c.dispatchOpen .retry t.goals).2 t := by
  intro ha hs g hm
  rw [dispatchOpen_accepting] at ha
  rw [dispatchOpen_settings] at hs
  obtain ⟨picked, hpick, _, hd, hp, _⟩ := dispatchOpen_cases c .retry t.goals
  obtain ⟨x, hx, he⟩ := exists_mem_firstPerNode hm
  have hxg : x = g := Tree.goal_unique (mem_of_mem_firstPerNode hx) hm he
  subst hxg
  rw [hd, hpick ha hs]
  by_cases hskip : c.skips .retry x = true
  · simp only [skips, Bool.or_eq_true] at hskip
    rcases hskip with hrun | hcache
    · obtain ⟨y, hy, hn, _⟩ := (hc.isRunning_iff _).mp hrun
      exact Or.inl (Or.inl (hn ▸ hc.handedOut y hy))
    · obtain ⟨y, hy, hq, hres⟩ := cachedResult_isSome.mp hcache
      refine Or.inr (cachedResult_isSome.mpr ⟨y, ?_, hq, hres⟩)
      rw [hp]
      exact List.mem_append_left _ hy
  · exact Or.inl (Or.inr ⟨x, List.mem_filter.mpr ⟨hx, by simpa using hskip⟩, rfl⟩)

/-- **Whichever goals a runner picks, once it picked among all open goals it attends to its tree.** -/
theorem attends_dispatchOpen (hc : Consistent c) (mode : Mode) :
    Attends (c.dispatchOpen mode t.goals).2 t := by
  cases mode with
  | fresh => exact attends_fresh
  | retry => exact attends_retry hc

/-! ## 3. The tree changes -/

/-- A problem belongs to a node of the tree. -/
theorem Knows.lt_size (h : Knows c t) (hc : Consistent c) {x : Problem} (hx : x ∈ c.problems) :
    x.node < t.nodes.size := h.known _ (hc.handedOut x hx)

section Rule

variable {rule : String} {new : List Sequent}

/-- After a rule the runner still knows the tree, before it is told of the new goals. -/
theorem knows_rule (h : Knows c t) (hr : t.applyRule n rule new = .ok (goals, t')) : Knows c t' where
  known m hm := by
    rw [Tree.size_applyRule hr]
    exact Nat.lt_of_lt_of_le (h.known m hm) (Nat.le_add_right _ _)
  entry m hm hc := h.entry m hm (by rw [← Tree.contains_applyRule hr (h.known m hm)]; exact hc)

/-- **A rule, and the runner is told of its new goals.** Of the nodes remembered none is gone that was not
    gone before, and the new goals are handed out. -/
theorem tends_rule (h : Tends c t) (hc : Consistent c)
    (hr : t.applyRule n rule new = .ok (goals, t')) : Tends (c.dispatchOpen .fresh goals).2 t' where
  toKnows := knows_dispatchOpen (knows_rule h.toKnows hr) fun g hm =>
    lt_size_of_mem_goals ((Tree.goals_applyRule hr).mpr (Or.inr hm))
  gone ha hs := by
    rintro ⟨x, hx, hgone⟩ g hm
    rw [dispatchOpen_accepting] at ha
    rw [dispatchOpen_settings] at hs
    rcases (Tree.goals_applyRule hr).mp hm with ⟨hm, _⟩ | hm
    · rcases node_of_dispatchOpen hx with hx | ⟨y, hy, he⟩
      · rw [Tree.contains_applyRule hr (h.lt_size hc hx)] at hgone
        exact mem_dispatched_dispatchOpen (h.gone ha hs ⟨x, hx, hgone⟩ g hm)
      · -- the new goals are live
        rw [← he, contains_of_mem_goals ((Tree.goals_applyRule hr).mpr (Or.inr hy))] at hgone
        cases hgone
    · exact dispatched_fresh ha hs hm

theorem attends_rule (h : Attends c t) (hr : t.applyRule n rule new = .ok (goals, t')) :
    Attends (c.dispatchOpen .fresh goals).2 t' := by
  intro ha hs g hm
  rw [dispatchOpen_accepting] at ha
  rw [dispatchOpen_settings] at hs
  rcases (Tree.goals_applyRule hr).mp hm with ⟨hm, _⟩ | hm
  · rcases h ha hs g hm with hd | hcache
    · exact Or.inl (mem_dispatched_dispatchOpen hd)
    · obtain ⟨x, hx, hq, hres⟩ := cachedResult_isSome.mp hcache
      obtain ⟨picked, _, _, _, hp, _⟩ := dispatchOpen_cases c .fresh goals
      refine Or.inr (cachedResult_isSome.mpr ⟨x, ?_, hq, hres⟩)
      rw [hp]
      exact List.mem_append_left _ hx
  · exact Or.inl (dispatched_fresh ha hs hm)

end Rule

/-- Pruning takes nodes away, and with them nothing that has to be remembered. -/
theorem knows_prune (h : Knows c t) (hp : t.prune n = .ok t') : Knows c t' where
  known m hm := by
    rw [Tree.size_prune hp]
    exact h.known m hm
  entry m hm hc := h.entry m hm (Tree.contains_of_prune hp hc)

/-! ## 4. The runner changes -/

/-- A runner that takes no batches leaves nothing to show. -/
theorem tends_suspended (h : Knows c' t) (hs : c'.accepting = false) : Tends c' t where
  toKnows := h
  gone ha := by
    rw [hs] at ha
    cases ha

theorem knows_suspend (h : Knows c t) : Knows c.suspend t := by
  unfold suspend
  split
  · exact h
  · exact ⟨h.known, h.entry⟩

theorem suspend_accepting : c.suspend.accepting = false := by
  unfold suspend accepting
  split
  · rename_i hc
    simp [hc]
  · simp

theorem knows_unsuspend (h : Knows c t) : Knows c.unsuspend t := by
  unfold unsuspend
  split
  · exact h
  · exact ⟨h.known, h.entry⟩

theorem tends_stopAll (h : Tends c t) : Tends c.stopAll.2 t := ⟨⟨h.known, h.entry⟩, h.gone⟩

theorem tends_refresh (c : Runner) (settings : Settings) (t : Tree) : Tends (c.refresh settings).2 t where
  known _ h := absurd h List.not_mem_nil
  entry _ h := absurd h List.not_mem_nil
  gone _ _ := fun ⟨_, h, _⟩ => absurd h List.not_mem_nil

section Answers

variable {batch : BatchId} {outcomes : List Outcome}

/-- Answers leave what is remembered of live nodes. -/
theorem knows_afterAnswers (h : Knows c t) :
    Knows (c.afterAnswers t.contains t.contains batch outcomes) t where
  known := h.known
  entry n hn hc := by
    obtain ⟨x, hx, rfl⟩ := h.entry n hn hc
    refine ⟨_, mem_afterAnswers_of_mem hx (Or.inl hc), ?_⟩
    split <;> simp

theorem tends_afterAnswers (h : Tends c t) :
    Tends (c.afterAnswers t.contains t.contains batch outcomes) t where
  toKnows := knows_afterAnswers h.toKnows
  gone ha hs := by
    rintro ⟨y, hy, hc⟩ g hg
    obtain ⟨_, x, hx, rfl⟩ := mem_afterAnswers hy
    refine h.gone ha hs ⟨x, hx, ?_⟩ g hg
    split at hc
    · simpa using hc
    · exact hc

/-- A result that is there stays as it is. -/
theorem resolve_of_result {x : Problem} {st st' : Status} (h : x.result = some st) :
    x.resolve st' = x := by
  unfold Problem.resolve
  rw [h]

/-- An open goal that rests on a conclusive answer keeps it: were the node of that answer gone, the goal
    would have been handed out. -/
theorem attends_afterAnswers (h : Attends c t) (ht : Tends c t) :
    Attends (c.afterAnswers t.contains t.contains batch outcomes) t := by
  intro ha hs g hg
  rcases h ha hs g hg with hd | hcache
  · exact Or.inl hd
  · obtain ⟨x, hx, hq, st, hr, hdef⟩ := cachedResult_isSome.mp hcache
    by_cases hc : t.contains x.node = true
    · refine Or.inr (cachedResult_isSome.mpr ⟨_, mem_afterAnswers_of_mem hx (Or.inl hc), ?_⟩)
      rw [resolve_of_result hr, ite_self]
      exact ⟨hq, st, hr, hdef⟩
    · exact Or.inl (ht.gone ha hs ⟨x, hx, by simpa using hc⟩ g hg)

end Answers

end GoalWatch.Runner
