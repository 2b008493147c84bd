import GoalWatch.Proofs.Runner.Ledger
import GoalWatch.Proofs.Runner.Tending

/-!
# A runner at its post

A runner, the tree that it watches and the marks that it left change together. What is said here holds of a
runner whose goals come from its tree, whoever asks for what.

* `Station` -- the three of them;
* `Grant`, `Station.Turn` -- what may be done there, and one change;
* `Station.Sound` -- batches in flight, problems and tree agree with each other;
* `handOut_cases` -- what is handed out is carried by the tree and has no conclusive answer;
* `sound_turn` -- every turn keeps that.
-/

namespace GoalWatch

/-- A runner at the tree that it watches, with its marks, the newest first. -/
structure Station where
  tree : Tree
  core : Runner
  deeds : List Deed

/-- What may be done at a station. -/
structure Grant where
  /-- The tree may change. -/
  edits : Prop
  /-- The runner may be told to give up its batches, -/
  stops : Prop
  /-- to take over new settings, -/
  refreshes : Prop
  /-- to end. -/
  closes : Prop
  /-- These answers may arrive. -/
  answers : BatchId → List Outcome → Prop

namespace Station

/-- The runner changes and leaves marks. -/
def put (x : Station) (core : Runner) (ds : List Deed) : Station := { x with core, deeds := ds ++ x.deeds }

/-- **One change at a station.** Goals that are handed out are carried by the tree, live or not; a retry hands
    out open ones. -/
inductive Turn (G : Grant) (x : Station) : Station → Prop where
  | rule {n : NodeId} {name : String} {new : List Sequent} {goals : List Goal} {tree : Tree}
      (hG : G.edits) (h : x.tree.applyRule n name new = .ok (goals, tree)) : Turn G x { x with tree }
  | prune {n : NodeId} {tree : Tree} (hG : G.edits) (h : x.tree.prune n = .ok tree) :
      Turn G x { x with tree }
  | handOut (mode : Mode) (goals : List Goal) (h : ∀ g ∈ goals, x.tree.Carries g.node g.sequent)
      (ho : mode = .retry → ∀ g ∈ goals, g ∈ x.tree.goals) :
      Turn G x (x.put (x.core.dispatchOpen mode goals).2
        ((x.core.dispatchOpen mode goals).1.toList.map .launched))
  | suspend : Turn G x (x.put x.core.suspend [])
  | unsuspend : Turn G x (x.put x.core.unsuspend [])
  | setSolvers (solvers : SolverSet) : Turn G x (x.put (x.core.setSolvers solvers) [])
  | stop (hG : G.stops) : Turn G x (x.put x.core.stopAll.2 (x.core.stopAll.1.map .stopped).reverse)
  | refresh (hG : G.refreshes) (settings : Settings) :
      Turn G x (x.put (x.core.refresh settings).2 ((x.core.refresh settings).1.map .stopped).reverse)
  | close (hG : G.closes) : Turn G x (x.put x.core.close.2 (x.core.close.1.map .stopped).reverse)
  | answer {batch : BatchId} {outcomes : List Outcome} {core : Runner} (hG : G.answers batch outcomes)
      (h : x.core.complete x.tree.contains x.tree.contains batch outcomes = some core) :
      Turn G x (x.put core [.completed batch outcomes])

variable {G : Grant} {x y : Station} {n : NodeId}

/-! ## 1. Turns of the runner and turns of the tree -/

/-- Of the runner a turn makes acts. -/
theorem Turn.acts (h : Turn G x y) : ∃ ds, x.core.Acts ds y.core ∧ y.deeds = ds ++ x.deeds := by
  cases h with
  | rule | prune => exact ⟨[], .start, rfl⟩
  | handOut mode goals _ _ => exact ⟨_, Runner.acts_dispatchOpen _ mode goals, rfl⟩
  | suspend => exact ⟨_, .one .suspend, rfl⟩
  | unsuspend => exact ⟨_, .one .unsuspend, rfl⟩
  | setSolvers solvers => exact ⟨_, .one (.setSolvers solvers), rfl⟩
  | stop => exact ⟨_, .one .stopAll, rfl⟩
  | refresh _ settings => exact ⟨_, .one (.refresh settings), rfl⟩
  | close => exact ⟨_, .one .close, rfl⟩
  | answer _ hc => exact ⟨_, .one (.complete hc), rfl⟩

/-- What every act of a runner keeps, every turn keeps. -/
theorem Turn.keep {I : Runner → List Deed → Prop}
    (hI : ∀ {c c' : Runner} {ds es : List Deed}, I c es → Runner.Act c ds c' → I c' (ds ++ es))
    (ht : Turn G x y) (h : I x.core x.deeds) : I y.core y.deeds := by
  obtain ⟨ds, ha, hd⟩ := ht.acts
  rw [hd]
  exact Runner.acts_keep hI h ha

/-- A number that was there is not live unless it was. -/
theorem Turn.contains (ht : Turn G x y) (hn : n < x.tree.nodes.size) (h : y.tree.contains n = true) :
    x.tree.contains n = true := by
  cases ht with
  | rule _ hr =>
      rw [← Tree.contains_applyRule hr hn]
      exact h
  | prune _ hp => exact Tree.contains_of_prune hp h
  | handOut | suspend | unsuspend | setSolvers | stop | refresh | close | answer => exact h

/-- **Only an end ends a runner, and it is final.** -/
theorem Turn.closed (ht : Turn G x y) :
    (x.core.closed = true → y.core.closed = true) ∧
      (y.core.closed = true → x.core.closed = true ∨ G.closes) := by
  cases ht with
  | handOut mode goals _ _ =>
      show (_ → (x.core.dispatchOpen mode goals).2.closed = true) ∧
        ((x.core.dispatchOpen mode goals).2.closed = true → _)
      rw [Runner.dispatchOpen_closed]
      exact ⟨id, Or.inl⟩
  | suspend =>
      show (_ → x.core.suspend.closed = true) ∧ (x.core.suspend.closed = true → _)
      unfold Runner.suspend
      split <;> exact ⟨id, Or.inl⟩
  | unsuspend =>
      show (_ → x.core.unsuspend.closed = true) ∧ (x.core.unsuspend.closed = true → _)
      unfold Runner.unsuspend
      split <;> exact ⟨id, Or.inl⟩
  | close hG =>
      show (_ → x.core.close.2.closed = true) ∧ _
      refine ⟨fun h => ?_, fun _ => Or.inr hG⟩
      unfold Runner.close
      rw [if_pos h]
      exact h
  | answer _ hc =>
      obtain ⟨_, rfl⟩ := Runner.complete_cases.mp hc
      exact ⟨id, Or.inl⟩
  | rule | prune | setSolvers | stop | refresh => exact ⟨id, Or.inl⟩

/-- A dispatch proves nothing. -/
theorem dispatchOpen_solved (c : Runner) (mode : Mode) (goals : List Goal) :
    (c.dispatchOpen mode goals).2.solved = c.solved := by
  unfold Runner.dispatchOpen
  split
  · rcases Runner.dispatch_cases c mode goals with ⟨e, _⟩ | ⟨_, _, _, e⟩
    · rw [e]
    · rw [e]
      rfl
  · rfl

/-- **A node becomes proved by an answer only**: it had a problem in the batch, the answer is valid, and the
    node is live. -/
theorem Turn.solved (ht : Turn G x y) (hn : n ∈ y.core.solved) : n ∈ x.core.solved ∨
    ∃ batch outcomes, G.answers batch outcomes ∧ batch ∈ x.core.inFlight ∧
      y = x.put (x.core.afterAnswers x.tree.contains x.tree.contains batch outcomes)
        [.completed batch outcomes] ∧
      ∃ p ∈ x.core.problems, p.node = n ∧ p.batch = batch ∧ Runner.statusOf outcomes n = .valid ∧
        x.tree.contains n = true := by
  cases ht with
  | handOut mode goals _ _ =>
      left
      rw [← dispatchOpen_solved x.core mode goals]
      exact hn
  | suspend =>
      refine Or.inl ?_
      have hn' : n ∈ x.core.suspend.solved := hn
      unfold Runner.suspend at hn'
      split at hn' <;> exact hn'
  | unsuspend =>
      refine Or.inl ?_
      have hn' : n ∈ x.core.unsuspend.solved := hn
      unfold Runner.unsuspend at hn'
      split at hn' <;> exact hn'
  | close =>
      refine Or.inl ?_
      have hn' : n ∈ x.core.close.2.solved := hn
      unfold Runner.close at hn'
      split at hn'
      · exact hn'
      · exact absurd hn' List.not_mem_nil
  | @answer batch outcomes _ hG hc =>
      obtain ⟨hf, rfl⟩ := Runner.complete_cases.mp hc
      rcases mem_insertNodes.mp hn with hn | ⟨p, hp, rfl⟩
      · exact Or.inl hn
      · obtain ⟨hp, hv⟩ := List.mem_filter.mp hp
        obtain ⟨hp, hb⟩ := List.mem_filter.mp hp
        simp only [Bool.and_eq_true, beq_iff_eq] at hv hb
        exact Or.inr ⟨batch, outcomes, hG, hf, rfl, p, hp, rfl, hb.1, hv⟩
  | rule | prune | setSolvers | stop | refresh => exact Or.inl hn

/-! ## 2. Sound stations -/

/-- **Batches in flight, problems and tree agree with each other.** -/
structure Sound (x : Station) : Prop where
  accounted : x.core.Accounted x.deeds
  backed : x.core.Backed x.deeds
  knows : x.core.Knows x.tree
  carries : ∀ p ∈ x.core.problems, x.tree.Carries p.node p.sequent
  /-- All that was handed out with a batch in flight is remembered. -/
  roster : ∀ launch, .launched launch ∈ x.deeds → launch.batch ∈ x.core.inFlight →
    ∀ g ∈ launch.problems, ∃ p ∈ x.core.problems, p.node = g.node ∧ p.batch = launch.batch
  /-- A node in flight has no conclusive answer. -/
  undecided : ∀ p ∈ x.core.problems, p.batch ∈ x.core.inFlight → ∀ q ∈ x.core.problems,
    q.node = p.node → ∀ st, q.result = some st → st.isDefinitive = false

theorem sound_start (tree : Tree) (settings : Settings) : Sound ⟨tree, { settings }, []⟩ where
  accounted := Runner.accounted_start settings
  backed := Runner.backed_start settings
  knows := (Runner.tends_start settings tree).toKnows
  carries _ h := absurd h List.not_mem_nil
  roster _ h := absurd h List.not_mem_nil
  undecided _ h := absurd h List.not_mem_nil

theorem Sound.consistent (h : Sound x) : x.core.Consistent := h.accounted.consistent

/-- Two problems of one node in flight are of one batch. -/
theorem Sound.one_flight (h : Sound x) {p q : Problem} (hp : p ∈ x.core.problems)
    (hq : q ∈ x.core.problems) (hn : p.node = q.node) (hpf : p.batch ∈ x.core.inFlight)
    (hqf : q.batch ∈ x.core.inFlight) : p = q :=
  List.inj_on_of_nodup_map h.consistent.oneFlight
    (List.mem_filter.mpr ⟨hp, List.contains_iff_mem.mpr hpf⟩)
    (List.mem_filter.mpr ⟨hq, List.contains_iff_mem.mpr hqf⟩) hn

/-- Goals that may be handed out: the tree carries them, and of their nodes nothing is in flight or has a
    conclusive answer. -/
structure Due (x : Station) (picked : List Goal) : Prop where
  carried : ∀ g ∈ picked, x.tree.Carries g.node g.sequent
  landed : ∀ g ∈ picked, ∀ p ∈ x.core.problems, p.node = g.node → p.batch ∉ x.core.inFlight
  undecided : ∀ g ∈ picked, ∀ p ∈ x.core.problems, p.node = g.node →
    ∀ st, p.result = some st → st.isDefinitive = false
  /-- Only a live node is handed out once more. -/
  live : ∀ g ∈ picked, g.node ∈ x.core.dispatched → x.tree.contains g.node = true

/-- What is picked is due: a fresh pick has no problems at all, and a retry leaves out what is running and
    what has a conclusive answer. -/
theorem Sound.due (h : Sound x) {mode : Mode} {goals : List Goal}
    (hg : ∀ g ∈ goals, x.tree.Carries g.node g.sequent)
    (ho : mode = .retry → ∀ g ∈ goals, g ∈ x.tree.goals) : Due x (x.core.pick mode goals) where
  carried g hm := hg g (mem_of_mem_firstPerNode (List.mem_filter.mp hm).1)
  landed g hm p hp hn := h.consistent.pick_not_flying hm hp hn
  undecided g hm p hp hn st hst := by
    have hskip : x.core.skips mode g = false := by simpa using (List.mem_filter.mp hm).2
    cases mode with
    | fresh =>
        have hd : g.node ∈ x.core.dispatched := hn ▸ h.consistent.handedOut p hp
        simp [Runner.skips, hd] at hskip
    | retry =>
        simp only [Runner.skips, Bool.or_eq_false_iff] at hskip
        have hq : p.sequent = g.sequent :=
          (h.carries p hp).unique (hn ▸ hg g (mem_of_mem_firstPerNode (List.mem_filter.mp hm).1))
        by_contra hdef
        have hsome : (x.core.cachedResult g.sequent).isSome = true :=
          Runner.cachedResult_isSome.mpr ⟨p, hp, hq, st, hst, by simpa using hdef⟩
        rw [hskip.2] at hsome
        cases hsome
  live g hm hd := by
    cases mode with
    | fresh =>
        have hskip : x.core.skips .fresh g = false := by simpa using (List.mem_filter.mp hm).2
        simp [Runner.skips, hd] at hskip
    | retry =>
        exact Runner.contains_of_mem_goals
          (ho rfl g (mem_of_mem_firstPerNode (List.mem_filter.mp hm).1))

/-- **What handing out does**: at most a number is used up, or due goals are launched. -/
theorem Sound.handOut_cases (h : Sound x) (mode : Mode) {goals : List Goal}
    (hg : ∀ g ∈ goals, x.tree.Carries g.node g.sequent)
    (ho : mode = .retry → ∀ g ∈ goals, g ∈ x.tree.goals) :
    (∃ k, x.core.dispatchOpen mode goals = (none, { x.core with nextBatch := k })) ∨
    ∃ picked, Due x picked ∧
      x.core.dispatchOpen mode goals = (some (x.core.launchOf picked), x.core.afterLaunch picked) := by
  unfold Runner.dispatchOpen
  split
  · rcases Runner.dispatch_cases x.core mode goals with ⟨e, _⟩ | ⟨_, _, _, e⟩
    · exact Or.inl ⟨_, e⟩
    · exact Or.inr ⟨_, h.due hg ho, e⟩
  · exact Or.inl ⟨x.core.nextBatch, rfl⟩

/-! ## 3. Every turn keeps a station sound -/

/-- A problem after a launch: one from before, or a new one without a result. -/
theorem mem_afterLaunch {c : Runner} {picked : List Goal} {p : Problem}
    (h : p ∈ (c.afterLaunch picked).problems) : p ∈ c.problems ∨
      ∃ g ∈ picked, p = { node := g.node, sequent := g.sequent, batch := c.nextBatch } := by
  rcases List.mem_append.mp h with h | h
  · exact Or.inl h
  · obtain ⟨g, hg, rfl⟩ := List.mem_map.mp h
    exact Or.inr ⟨g, hg, rfl⟩

theorem flying_afterLaunch {c : Runner} {picked : List Goal} {b : BatchId} (hb : b < c.nextBatch) :
    b ∈ (c.afterLaunch picked).inFlight ↔ b ∈ c.inFlight := by
  have hne : b ≠ c.nextBatch := Nat.ne_of_lt hb
  simp [Runner.afterLaunch, hne]

/-- The tree changes, and the runner knows it still. -/
theorem Sound.setTree (h : Sound x) {tree : Tree} (hk : x.core.Knows tree)
    (hc : ∀ {n q}, x.tree.Carries n q → tree.Carries n q) : Sound { x with tree } :=
  ⟨h.accounted, h.backed, hk, fun p hp => hc (h.carries p hp), h.roster, h.undecided⟩

/-- The runner changes in nothing that is looked at here. -/
theorem Sound.congr (h : Sound x) {core : Runner} (ha : core.Accounted x.deeds)
    (hb : core.Backed x.deeds) (hf : core.inFlight = x.core.inFlight)
    (hp : core.problems = x.core.problems) (hd : core.dispatched = x.core.dispatched) :
    Sound (x.put core []) where
  accounted := ha
  backed := hb
  knows := ⟨fun n hn => h.knows.known n (hd ▸ hn), fun n hn hc => by
    obtain ⟨p, hm, he⟩ := h.knows.entry n (hd ▸ hn) hc
    exact ⟨p, hp ▸ hm, he⟩⟩
  carries p hm := h.carries p (hp ▸ hm)
  roster := by
    show ∀ launch : Launch, _ ∈ x.deeds → launch.batch ∈ core.inFlight → ∀ g ∈ _, ∃ p ∈ core.problems, _
    rw [hf, hp]
    exact h.roster
  undecided := by
    show ∀ p ∈ core.problems, p.batch ∈ core.inFlight → ∀ q ∈ core.problems, _
    rw [hf, hp]
    exact h.undecided

theorem sound_launch (h : Sound x) {picked : List Goal} (hd : Due x picked)
    (ha : (x.core.afterLaunch picked).Accounted (.launched (x.core.launchOf picked) :: x.deeds))
    (hb : (x.core.afterLaunch picked).Backed (.launched (x.core.launchOf picked) :: x.deeds)) :
    Sound (x.put (x.core.afterLaunch picked) [.launched (x.core.launchOf picked)]) where
  accounted := ha
  backed := hb
  knows := by
    have hm : ∀ n, n ∈ (x.core.afterLaunch picked).dispatched ↔
        n ∈ x.core.dispatched ∨ ∃ g ∈ picked, g.node = n := fun n => mem_addNodes
    refine ⟨fun n hn => ?_, fun n hn hc => ?_⟩
    · rcases (hm n).mp hn with hn | ⟨g, hg, rfl⟩
      · exact h.knows.known n hn
      · exact (hd.carried g hg).lt_size
    · rcases (hm n).mp hn with hn | ⟨g, hg, rfl⟩
      · obtain ⟨p, hp, he⟩ := h.knows.entry n hn hc
        exact ⟨p, List.mem_append_left _ hp, he⟩
      · exact ⟨_, List.mem_append_right _ (List.mem_map_of_mem hg), rfl⟩
  carries p hp := by
    rcases mem_afterLaunch hp with hp | ⟨g, hg, rfl⟩
    · exact h.carries p hp
    · exact hd.carried g hg
  roster launch hl hf g hg := by
    rcases List.mem_cons.mp hl with he | hl
    · cases he
      exact ⟨_, List.mem_append_right _ (List.mem_map_of_mem hg), rfl, rfl⟩
    · have hlt := h.accounted.below _ (mem_issued.mpr ⟨launch, hl, rfl⟩)
      obtain ⟨p, hp, he⟩ := h.roster launch hl ((flying_afterLaunch hlt).mp hf) g hg
      exact ⟨p, List.mem_append_left _ hp, he⟩
  undecided p hp hf q hq hn st hst := by
    rcases mem_afterLaunch hq with hq | ⟨g, _, rfl⟩
    · rcases mem_afterLaunch hp with hp | ⟨g, hg, rfl⟩
      · exact h.undecided p hp ((flying_afterLaunch (h.consistent.belowProblem p hp)).mp hf) q hq hn st hst
      · exact hd.undecided g hg q hq hn st hst
    · cases hst

/-- The runner gives up what is in flight, and may forget all its problems. -/
theorem Sound.landed (h : Sound x) {core : Runner} {ds : List Deed} (ha : core.Accounted (ds ++ x.deeds))
    (hb : core.Backed (ds ++ x.deeds)) (hf : core.inFlight = [])
    (hp : core.problems = [] ∧ core.dispatched = [] ∨
      core.problems = x.core.problems ∧ core.dispatched = x.core.dispatched) :
    Sound (x.put core ds) := by
  have hmem : ∀ p ∈ core.problems, p ∈ x.core.problems := by
    intro p hm
    rcases hp with ⟨hp, _⟩ | ⟨hp, _⟩
    · rw [hp] at hm
      exact absurd hm List.not_mem_nil
    · exact hp ▸ hm
  refine ⟨ha, hb, ?_, fun p hm => h.carries p (hmem p hm), fun launch _ hb => ?_, fun p _ hb => ?_⟩
  · rcases hp with ⟨_, hd⟩ | ⟨hp, hd⟩
    · constructor <;>
      · intro n hn
        have hn' : n ∈ core.dispatched := hn
        rw [hd] at hn'
        exact absurd hn' List.not_mem_nil
    · refine ⟨fun n hn => h.knows.known n (hd ▸ hn), fun n hn hc => ?_⟩
      obtain ⟨p, hm, he⟩ := h.knows.entry n (hd ▸ hn) hc
      exact ⟨p, hp ▸ hm, he⟩
  · have hb' : launch.batch ∈ core.inFlight := hb
    rw [hf] at hb'
    exact absurd hb' List.not_mem_nil
  · have hb' : p.batch ∈ core.inFlight := hb
    rw [hf] at hb'
    exact absurd hb' List.not_mem_nil

/-- A problem of another batch is untouched by answers. -/
theorem untouched {batch : BatchId} {outcomes : List Outcome} {p : Problem} (h : p.batch ≠ batch) :
    (if p.batch == batch then p.resolve (Runner.statusOf outcomes p.node) else p) = p :=
  if_neg (by simpa using h)

theorem sound_answer (h : Sound x) {batch : BatchId} {outcomes : List Outcome}
    (hf : batch ∈ x.core.inFlight)
    (ha : (x.core.afterAnswers x.tree.contains x.tree.contains batch outcomes).Accounted
      (.completed batch outcomes :: x.deeds))
    (hb : (x.core.afterAnswers x.tree.contains x.tree.contains batch outcomes).Backed
      (.completed batch outcomes :: x.deeds)) :
    Sound (x.put (x.core.afterAnswers x.tree.contains x.tree.contains batch outcomes)
      [.completed batch outcomes]) := by
  have hfly : ∀ b, b ∈ x.core.inFlight.erase batch ↔ b ≠ batch ∧ b ∈ x.core.inFlight :=
    fun b => h.consistent.flightOnce.mem_erase_iff
  refine ⟨ha, hb, Runner.knows_afterAnswers h.knows, fun q hq => ?_, fun launch hl hlf g hg => ?_,
    fun p' hp' hpf q' hq' hn st hst => ?_⟩
  · obtain ⟨_, p, hp, rfl⟩ := Runner.mem_afterAnswers hq
    have hc := h.carries p hp
    show x.tree.Carries _ _
    split <;> simpa using hc
  · rcases List.mem_cons.mp hl with he | hl
    · cases he
    · obtain ⟨hne, hlf'⟩ := (hfly _).mp hlf
      obtain ⟨p, hp, hn, hpb⟩ := h.roster launch hl hlf' g hg
      have hm : _ ∈ (x.core.afterAnswers x.tree.contains x.tree.contains batch outcomes).problems :=
        Runner.mem_afterAnswers_of_mem hp (Or.inr (hpb ▸ hlf))
      rw [untouched (hpb ▸ hne)] at hm
      exact ⟨p, hm, hn, hpb⟩
  · obtain ⟨_, p, hp, rfl⟩ := Runner.mem_afterAnswers hp'
    obtain ⟨_, q, hq, rfl⟩ := Runner.mem_afterAnswers hq'
    -- a problem that still flies is of another batch
    have hpb : p.batch ∈ x.core.inFlight.erase batch := by
      have hpf' : (if p.batch == batch then p.resolve (Runner.statusOf outcomes p.node) else p).batch ∈
        x.core.inFlight.erase batch := hpf
      split at hpf' <;> simpa using hpf'
    obtain ⟨hpne, hpf⟩ := (hfly _).mp hpb
    rw [untouched hpne] at hn
    have hqn : q.node = p.node := by
      rw [← hn]
      split <;> simp
    -- so the other one is not of the batch: two problems of one node would be in flight
    have hqne : q.batch ≠ batch := by
      intro he
      have hpq := h.one_flight hp hq hqn.symm hpf (he ▸ hf)
      exact hpne (hpq ▸ he)
    rw [untouched hqne] at hst
    exact h.undecided p hp hpf q hq hqn st hst

/-- **Every turn keeps a station sound.** -/
theorem sound_turn (h : Sound x) (ht : Turn G x y) : Sound y := by
  have ha : y.core.Accounted y.deeds := ht.keep Runner.accounted_act h.accounted
  have hb : y.core.Backed y.deeds := ht.keep Runner.backed_act h.backed
  cases ht with
  | rule _ hr => exact h.setTree (Runner.knows_rule h.knows hr) fun hc => Tree.carries_applyRule hr hc
  | prune _ hp => exact h.setTree (Runner.knows_prune h.knows hp) fun hc => Tree.carries_prune hp hc
  | handOut mode goals hg ho =>
      rcases h.handOut_cases mode hg ho with ⟨k, e⟩ | ⟨picked, hd, e⟩
      · rw [e] at ha hb ⊢
        exact h.congr ha hb rfl rfl rfl
      · rw [e] at ha hb ⊢
        exact sound_launch h hd ha hb
  | suspend =>
      unfold Runner.suspend at ha hb ⊢
      by_cases hc : x.core.closed = true
      · rw [if_pos hc]
        exact h
      · rw [if_neg hc] at ha hb ⊢
        exact h.congr ha hb rfl rfl rfl
  | unsuspend =>
      unfold Runner.unsuspend at ha hb ⊢
      by_cases hc : x.core.closed = true
      · rw [if_pos hc]
        exact h
      · rw [if_neg hc] at ha hb ⊢
        exact h.congr ha hb rfl rfl rfl
  | setSolvers solvers => exact h.congr ha hb rfl rfl rfl
  | stop => exact h.landed ha hb rfl (Or.inr ⟨rfl, rfl⟩)
  | refresh _ settings => exact h.landed ha hb rfl (Or.inl ⟨rfl, rfl⟩)
  | close =>
      unfold Runner.close at ha hb ⊢
      by_cases hc : x.core.closed = true
      · rw [if_pos hc]
        exact h
      · rw [if_neg hc] at ha hb ⊢
        exact h.landed ha hb rfl (Or.inl ⟨rfl, rfl⟩)
  | answer _ hc =>
      obtain ⟨hf, rfl⟩ := Runner.complete_cases.mp hc
      exact sound_answer h hf ha hb

end Station

end GoalWatch
