import GoalWatch.Proofs.Runner.Act

/-!
# The memory of a runner is consistent

* `Runner.Consistent` -- what batches, problems and handed out nodes have to do with each other;
* `consistent_act` -- every change of a runner keeps it;
* `Runner.Operation`, `Runner.operate` -- the operations of a runner, each with what the proof answers
  when it is asked in the middle of it;
* **`operated_consistent`** -- a runner is consistent after any operations, whatever the proof answers.
-/

namespace GoalWatch

namespace Runner

/-- **What holds of a runner at all times.** Batches are told apart by their numbers. -/
structure Consistent (c : Runner) : Prop where
  /-- A node has at most one problem whose batch is in flight. -/
  oneFlight : ((c.problems.filter fun p => c.inFlight.contains p.batch).map Problem.node).Nodup
  /-- A problem whose batch is in flight has no result. -/
  openFlight : ∀ p ∈ c.problems, p.batch ∈ c.inFlight → p.result = none
  /-- A batch in flight has a problem. -/
  owner : ∀ b ∈ c.inFlight, ∃ p ∈ c.problems, p.batch = b
  /-- The problems of one batch have different nodes. -/
  distinct : ∀ b, ((c.problems.filter fun p => p.batch == b).map Problem.node).Nodup
  /-- The node of a problem was handed out. -/
  handedOut : ∀ p ∈ c.problems, p.node ∈ c.dispatched
  /-- The numbers in use are below the next one. -/
  belowProblem : ∀ p ∈ c.problems, p.batch < c.nextBatch
  belowFlight : ∀ b ∈ c.inFlight, b < c.nextBatch
  /-- A batch is in flight once. -/
  flightOnce : c.inFlight.Nodup

variable {c c' : Runner}

theorem consistent_start (settings : Settings) : Consistent { settings } where
  oneFlight := List.nodup_nil
  openFlight _ h := absurd h List.not_mem_nil
  owner _ h := absurd h List.not_mem_nil
  distinct _ := List.nodup_nil
  handedOut _ h := absurd h List.not_mem_nil
  belowProblem _ h := absurd h List.not_mem_nil
  belowFlight _ h := absurd h List.not_mem_nil
  flightOnce := List.nodup_nil

/-! ## 1. Handing out -/

/-- A runner that is consistent says of a node that it runs iff one of its problems is in flight. -/
theorem Consistent.isRunning_iff (h : Consistent c) (n : NodeId) :
    c.isRunning n = true ↔ ∃ p ∈ c.problems, p.node = n ∧ p.batch ∈ c.inFlight := by
  simp only [isRunning, List.any_eq_true, Bool.and_eq_true, beq_iff_eq, Option.isNone_iff_eq_none,
    List.contains_iff_mem]
  constructor
  · rintro ⟨p, hp, ⟨hn, _⟩, hf⟩
    exact ⟨p, hp, hn, hf⟩
  · rintro ⟨p, hp, hn, hf⟩
    exact ⟨p, hp, ⟨hn, h.openFlight p hp hf⟩, hf⟩

/-- A goal that is picked has no problem in flight, in either mode. -/
theorem Consistent.pick_not_flying (h : Consistent c) {mode : Mode} {goals : List Goal} {g : Goal}
    (hg : g ∈ c.pick mode goals) {p : Problem} (hp : p ∈ c.problems) (hn : p.node = g.node) :
    p.batch ∉ c.inFlight := by
  have hskip : c.skips mode g = false := by simpa using (List.mem_filter.mp hg).2
  intro hf
  cases mode with
  | fresh =>
      have hd : g.node ∈ c.dispatched := hn ▸ h.handedOut p hp
      simp [skips, hd] at hskip
  | retry =>
      have hr : c.isRunning g.node = true := (h.isRunning_iff _).mpr ⟨p, hp, hn, hf⟩
      simp [skips, hr] at hskip

theorem pick_nodup (c : Runner) (mode : Mode) (goals : List Goal) :
    ((c.pick mode goals).map Goal.node).Nodup :=
  (List.filter_sublist.map Goal.node).nodup (firstPerNode_nodup goals)

/-- The problems that a launch of `picked` adds. -/
theorem map_node_launched (c : Runner) (picked : List Goal) :
    (picked.map fun g => ({ node := g.node, sequent := g.sequent, batch := c.nextBatch } : Problem)).map
      Problem.node = picked.map Goal.node := by
  rw [List.map_map]
  rfl

/-- The problems in flight after a launch are those from before and the new ones. -/
theorem Consistent.flying_afterLaunch (h : Consistent c) (picked : List Goal) :
    ((c.afterLaunch picked).problems.filter fun p => (c.afterLaunch picked).inFlight.contains p.batch) =
      (c.problems.filter fun p => c.inFlight.contains p.batch) ++
        picked.map fun g => { node := g.node, sequent := g.sequent, batch := c.nextBatch } := by
  show (c.problems ++ _).filter _ = _
  rw [List.filter_append]
  congr 1
  · refine List.filter_congr fun p hp => ?_
    have hne : p.batch ≠ c.nextBatch := Nat.ne_of_lt (h.belowProblem p hp)
    simp [afterLaunch, hne]
  · refine List.filter_eq_self.mpr fun p hp => ?_
    obtain ⟨g, _, rfl⟩ := List.mem_map.mp hp
    simp [afterLaunch]

theorem consistent_afterLaunch (h : Consistent c) {picked : List Goal} (hne : picked ≠ [])
    (hnd : (picked.map Goal.node).Nodup)
    (hfree : ∀ g ∈ picked, ∀ p ∈ c.problems, p.node = g.node → p.batch ∉ c.inFlight) :
    Consistent (c.afterLaunch picked) where
  oneFlight := by
    rw [h.flying_afterLaunch picked, List.map_append, map_node_launched]
    refine List.Nodup.append h.oneFlight hnd fun n hn hn' => ?_
    obtain ⟨p, hp, rfl⟩ := List.mem_map.mp hn
    obtain ⟨g, hg, he⟩ := List.mem_map.mp hn'
    obtain ⟨hp, hf⟩ := List.mem_filter.mp hp
    exact hfree g hg p hp he.symm (List.contains_iff_mem.mp hf)
  openFlight p hp hf := by
    rcases List.mem_append.mp hp with hp | hp
    · rcases List.mem_append.mp hf with hf | hf
      · exact h.openFlight p hp hf
      · exact absurd (List.mem_singleton.mp hf) (Nat.ne_of_lt (h.belowProblem p hp))
    · obtain ⟨g, _, rfl⟩ := List.mem_map.mp hp
      rfl
  owner b hb := by
    rcases List.mem_append.mp hb with hb | hb
    · obtain ⟨p, hp, he⟩ := h.owner b hb
      exact ⟨p, List.mem_append_left _ hp, he⟩
    · obtain ⟨g, hg⟩ := List.exists_mem_of_ne_nil picked hne
      exact ⟨_, List.mem_append_right _ (List.mem_map.mpr ⟨g, hg, rfl⟩), (List.mem_singleton.mp hb).symm⟩
  distinct b := by
    show (((c.problems ++ _).filter _).map _).Nodup
    rw [List.filter_append, List.map_append]
    by_cases hb : c.nextBatch = b
    · -- the new batch has new problems only
      have hold : (c.problems.filter fun p => p.batch == b) = [] := by
        refine List.filter_eq_nil_iff.mpr fun p hp => ?_
        have hne : p.batch ≠ c.nextBatch := Nat.ne_of_lt (h.belowProblem p hp)
        simpa [← hb] using hne
      rw [hold]
      have hsub := (List.filter_sublist (l := picked.map fun g =>
        ({ node := g.node, sequent := g.sequent, batch := c.nextBatch } : Problem))
        (p := fun p => p.batch == b)).map Problem.node
      rw [map_node_launched] at hsub
      exact hsub.nodup hnd
    · have hnew : ((picked.map fun g =>
          ({ node := g.node, sequent := g.sequent, batch := c.nextBatch } : Problem)).filter
            fun p => p.batch == b) = [] := by
        refine List.filter_eq_nil_iff.mpr fun p hp => ?_
        obtain ⟨g, _, rfl⟩ := List.mem_map.mp hp
        simpa using hb
      rw [hnew, List.map_nil, List.append_nil]
      exact h.distinct b
  handedOut p hp := by
    refine mem_addNodes.mpr ?_
    rcases List.mem_append.mp hp with hp | hp
    · exact Or.inl (h.handedOut p hp)
    · obtain ⟨g, hg, rfl⟩ := List.mem_map.mp hp
      exact Or.inr ⟨g, hg, rfl⟩
  belowProblem p hp := by
    rcases List.mem_append.mp hp with hp | hp
    · exact Nat.lt_succ_of_lt (h.belowProblem p hp)
    · obtain ⟨g, _, rfl⟩ := List.mem_map.mp hp
      exact Nat.lt_succ_self _
  belowFlight b hb := by
    rcases List.mem_append.mp hb with hb | hb
    · exact Nat.lt_succ_of_lt (h.belowFlight b hb)
    · rw [List.mem_singleton.mp hb]
      exact Nat.lt_succ_self _
  flightOnce := by
    refine List.Nodup.append h.flightOnce (List.nodup_singleton _) fun b hb hb' => ?_
    rw [List.mem_singleton.mp hb'] at hb
    exact absurd (h.belowFlight _ hb) (Nat.lt_irrefl _)

/-- A runner that only changes what consistency does not look at. -/
theorem Consistent.congr (h : Consistent c) (hf : c'.inFlight = c.inFlight)
    (hp : c'.problems = c.problems) (hd : c'.dispatched = c.dispatched)
    (hb : c.nextBatch ≤ c'.nextBatch) : Consistent c' where
  oneFlight := by rw [hp, hf]; exact h.oneFlight
  openFlight := by rw [hp, hf]; exact h.openFlight
  owner := by rw [hp, hf]; exact h.owner
  distinct := by rw [hp]; exact h.distinct
  handedOut := by rw [hp, hd]; exact h.handedOut
  belowProblem p hm := Nat.lt_of_lt_of_le (h.belowProblem p (hp ▸ hm)) hb
  belowFlight b hm := Nat.lt_of_lt_of_le (h.belowFlight b (hf ▸ hm)) hb
  flightOnce := by rw [hf]; exact h.flightOnce

theorem consistent_dispatch (h : Consistent c) (mode : Mode) (goals : List Goal) :
    Consistent (c.dispatch mode goals).2 := by
  rcases dispatch_cases c mode goals with ⟨e, _⟩ | ⟨_, _, hne, e⟩
  · rw [e]
    exact h.congr rfl rfl rfl (Nat.le_succ _)
  · rw [e]
    exact consistent_afterLaunch h hne (pick_nodup c mode goals) fun g hg p hp hn =>
      h.pick_not_flying hg hp hn

/-! ## 2. Taking in and giving up -/

theorem consistent_afterAnswers (h : Consistent c) (found kept : NodeId → Bool) (batch : BatchId)
    (outcomes : List Outcome) : Consistent (c.afterAnswers found kept batch outcomes) := by
  -- answering changes results only, and only those of a batch that is no longer in flight
  have hnode : ∀ p : Problem,
      (if p.batch == batch then p.resolve (statusOf outcomes p.node) else p).node = p.node := by
    intro p
    split <;> simp
  have hbatch : ∀ p : Problem,
      (if p.batch == batch then p.resolve (statusOf outcomes p.node) else p).batch = p.batch := by
    intro p
    split <;> simp
  have hfly : ∀ b, b ∈ c.inFlight.erase batch ↔ b ≠ batch ∧ b ∈ c.inFlight :=
    fun b => h.flightOnce.mem_erase_iff
  -- a selection by batch of the answered problems has no other nodes than one of the problems before
  have hsub : ∀ f g : BatchId → Bool, (∀ b, f b = true → g b = true) →
      (((c.afterAnswers found kept batch outcomes).problems.filter fun p => f p.batch).map
        Problem.node).Sublist ((c.problems.filter fun p => g p.batch).map Problem.node) := by
    intro f g hfg
    show (((List.map _ c.problems).filter _).filter _ |>.map _).Sublist _
    rw [List.filter_filter, List.filter_map, List.map_map]
    have he : (Problem.node ∘ fun p : Problem =>
        if p.batch == batch then p.resolve (statusOf outcomes p.node) else p) = Problem.node :=
      funext hnode
    rw [he]
    refine (List.monotone_filter_right c.problems fun p hp => ?_).map Problem.node
    simp only [Function.comp, hbatch, Bool.and_eq_true] at hp
    exact hfg _ hp.1
  refine ⟨?_, ?_, ?_, ?_, ?_, ?_, ?_, ?_⟩
  · refine (hsub (fun b => (c.inFlight.erase batch).contains b) (fun b => c.inFlight.contains b)
      fun b hb => ?_).nodup h.oneFlight
    exact List.contains_iff_mem.mpr ((hfly b).mp (List.contains_iff_mem.mp hb)).2
  · intro q hq hf
    obtain ⟨_, p, hp, rfl⟩ := mem_afterAnswers hq
    rw [hbatch] at hf
    obtain ⟨hne, hf⟩ := (hfly _).mp hf
    rw [if_neg (by simpa using hne)]
    exact h.openFlight p hp hf
  · intro b hb
    obtain ⟨hne, hf⟩ := (hfly b).mp hb
    obtain ⟨p, hp, rfl⟩ := h.owner b hf
    exact ⟨_, mem_afterAnswers_of_mem hp (Or.inr hb), hbatch p⟩
  · intro b
    exact (hsub (fun x => x == b) (fun x => x == b) fun _ => id).nodup (h.distinct b)
  · intro q hq
    obtain ⟨_, p, hp, rfl⟩ := mem_afterAnswers hq
    rw [hnode]
    exact h.handedOut p hp
  · intro q hq
    obtain ⟨_, p, hp, rfl⟩ := mem_afterAnswers hq
    rw [hbatch]
    exact h.belowProblem p hp
  · intro b hb
    exact h.belowFlight b ((hfly b).mp hb).2
  · exact h.flightOnce.erase batch

/-- A runner with nothing in flight, whose problems are all there still or all forgotten. -/
theorem Consistent.landed (h : Consistent c) (hf : c'.inFlight = [])
    (hp : c'.problems = [] ∨ c'.problems = c.problems ∧ c'.dispatched = c.dispatched)
    (hb : c'.nextBatch = c.nextBatch) : Consistent c' := by
  have hmem : ∀ p ∈ c'.problems, p ∈ c.problems ∧ c'.dispatched = c.dispatched := by
    intro p hm
    rcases hp with hp | ⟨hp, hd⟩
    · rw [hp] at hm
      exact absurd hm List.not_mem_nil
    · exact ⟨hp ▸ hm, hd⟩
  refine ⟨?_, fun p _ hb => ?_, fun b hb => ?_, fun b => ?_, fun p hm => ?_, fun p hm => ?_, fun b hb => ?_, ?_⟩
  · have : (c'.problems.filter fun p => c'.inFlight.contains p.batch) = [] :=
      List.filter_eq_nil_iff.mpr fun p _ => by simp [hf]
    rw [this]
    exact List.nodup_nil
  · rw [hf] at hb
    exact absurd hb List.not_mem_nil
  · rw [hf] at hb
    exact absurd hb List.not_mem_nil
  · rcases hp with hp | ⟨hp, _⟩
    · rw [hp]
      exact List.nodup_nil
    · rw [hp]
      exact h.distinct b
  · rw [(hmem p hm).2]
    exact h.handedOut p (hmem p hm).1
  · rw [hb]
    exact h.belowProblem p (hmem p hm).1
  · rw [hf] at hb
    exact absurd hb List.not_mem_nil
  · rw [hf]
    exact List.nodup_nil

/-- **Every change of a runner keeps it consistent.** -/
theorem consistent_act {ds : List Deed} (h : Consistent c) (ha : Act c ds c') : Consistent c' := by
  cases ha with
  | dispatch mode goals => exact consistent_dispatch h mode goals
  | suspend =>
      unfold suspend
      split
      · exact h
      · exact h.congr rfl rfl rfl (Nat.le_refl _)
  | unsuspend =>
      unfold unsuspend
      split
      · exact h
      · exact h.congr rfl rfl rfl (Nat.le_refl _)
  | setSolvers solvers => exact h.congr rfl rfl rfl (Nat.le_refl _)
  | complete hc =>
      obtain ⟨_, rfl⟩ := complete_cases.mp hc
      exact consistent_afterAnswers h _ _ _ _
  | stopAll => exact h.landed rfl (Or.inr ⟨rfl, rfl⟩) rfl
  | refresh settings => exact h.landed rfl (Or.inl rfl) rfl
  | close =>
      unfold close
      split
      · exact h
      · exact h.landed rfl (Or.inl rfl) rfl

theorem consistent_acts {ds : List Deed} (h : Consistent c) (ha : Acts c ds c') : Consistent c' := by
  induction ha with
  | start => exact h
  | more _ ha ih => exact consistent_act ih ha

theorem consistent_dispatchOpen (h : Consistent c) (mode : Mode) (goals : List Goal) :
    Consistent (c.dispatchOpen mode goals).2 := consistent_acts h (acts_dispatchOpen c mode goals)

/-! ## 3. Operations -/

/-- The operations of a runner. What the proof answers when a runner asks it is part of the operation:
    `goals` are the open goals it reports, `found` and `kept` the nodes it still knows of. -/
inductive Operation where
  | dispatchOpenGoals (goals : List Goal)
  | resume (goals : List Goal)
  | ruleApplied (newGoals : List Goal)
  | autoModeStarted
  | autoModeStopped (goals : List Goal)
  | treeChanged (goals : List Goal)
  | completed (found kept : NodeId → Bool) (batch : BatchId) (outcomes : List Outcome)
  | refreshSettings (settings : Settings)
  | setSolvers (solvers : SolverSet) (goals : List Goal)
  | stopAll
  | close
  /-- The part of a dispatch after the proof was asked, when the runner may have changed meanwhile. -/
  | handOut (mode : Mode) (goals : List Goal)

def operate (c : Runner) : Operation → Runner
  | .dispatchOpenGoals goals => (c.dispatchOpen .fresh goals).2
  | .resume goals => (c.dispatchOpen .retry goals).2
  | .ruleApplied newGoals => (c.dispatchOpen .fresh newGoals).2
  | .autoModeStarted => c.suspend
  | .autoModeStopped goals => (c.unsuspend.dispatchOpen .fresh goals).2
  | .treeChanged goals => if c.closed then c else (c.dispatchOpen .fresh goals).2
  | .completed found kept batch outcomes => (c.complete found kept batch outcomes).getD c
  | .refreshSettings settings => (c.refresh settings).2
  | .setSolvers solvers goals => ((c.setSolvers solvers).dispatchOpen .retry goals).2
  | .stopAll => c.stopAll.2
  | .close => c.close.2
  | .handOut mode goals => (c.dispatch mode goals).2

/-- Every operation is made of acts. -/
theorem acts_operate (c : Runner) (o : Operation) : ∃ ds, Acts c ds (c.operate o) := by
  cases o with
  | dispatchOpenGoals goals => exact ⟨_, acts_dispatchOpen c .fresh goals⟩
  | resume goals => exact ⟨_, acts_dispatchOpen c .retry goals⟩
  | ruleApplied newGoals => exact ⟨_, acts_dispatchOpen c .fresh newGoals⟩
  | autoModeStarted => exact ⟨_, .one .suspend⟩
  | autoModeStopped goals => exact ⟨_, (Acts.one .unsuspend).trans (acts_dispatchOpen _ .fresh goals)⟩
  | treeChanged goals =>
      show ∃ ds, Acts c ds (if c.closed then c else (c.dispatchOpen .fresh goals).2)
      split
      · exact ⟨_, .start⟩
      · exact ⟨_, acts_dispatchOpen c .fresh goals⟩
  | completed found kept batch outcomes =>
      cases h : c.complete found kept batch outcomes with
      | none => exact ⟨[], by simpa [operate, h] using Acts.start⟩
      | some c' => exact ⟨_, by simpa [operate, h] using Acts.one (.complete h)⟩
  | refreshSettings settings => exact ⟨_, .one (.refresh settings)⟩
  | setSolvers solvers goals =>
      exact ⟨_, (Acts.one (.setSolvers solvers)).trans (acts_dispatchOpen _ .retry goals)⟩
  | stopAll => exact ⟨_, .one .stopAll⟩
  | close => exact ⟨_, .one .close⟩
  | handOut mode goals => exact ⟨_, .one (.dispatch mode goals)⟩

/-- **A runner is consistent after any operations**, with any arguments and whatever its proof answers:
    no two batches in flight share a node, a problem in flight has no result, every batch in flight has
    a problem, the problems of a batch have different nodes, all of which were handed out, and every
    batch in use has a number below the next. -/
theorem operated_consistent (settings : Settings) (operations : List Operation) :
    Consistent (operations.foldl operate { settings }) := by
  suffices h : ∀ c, Consistent c → Consistent (operations.foldl operate c) from
    h _ (consistent_start settings)
  induction operations with
  | nil => intro c h; exact h
  | cons o rest ih =>
      intro c h
      obtain ⟨ds, ha⟩ := acts_operate c o
      exact ih _ (consistent_acts h ha)

end Runner

end GoalWatch
