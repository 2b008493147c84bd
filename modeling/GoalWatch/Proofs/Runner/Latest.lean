import GoalWatch.Proofs.Runner.Station

/-!
# The latest answer for a node

Proved nodes are kept for good, problems only until settings change. What a runner says of a node therefore
agrees with the latest answer for it as long as the settings stay.

* `latestResult` -- the latest answer for a node, read off the marks of a runner;
* `Station.Confirmed` -- the latest answer for a node is valid, and no problem of it says otherwise;
* `confirmed_turn` -- a turn that leaves the settings alone keeps it;
* `solved_turn` -- a node that becomes proved is confirmed.
-/

namespace GoalWatch

/-- The mark says that the node was handed out with the batch. -/
def Deed.handsOut (b : BatchId) (n : NodeId) : Deed → Bool
  | .launched launch => launch.batch == b && launch.problems.any fun g => g.node == n
  | _ => false

/-- **The latest answer for a node** in the marks of a runner, the newest first: that of the latest answered
    batch with which the node was handed out. -/
def latestResult (n : NodeId) : List Deed → Option Status
  | [] => none
  | .completed batch outcomes :: earlier =>
    if earlier.any (Deed.handsOut batch n) then some (Runner.statusOf outcomes n)
    else latestResult n earlier
  | _ :: earlier => latestResult n earlier

theorem handsOut_iff {ds : List Deed} {b : BatchId} {n : NodeId} :
    ds.any (Deed.handsOut b n) = true ↔
      ∃ launch, .launched launch ∈ ds ∧ launch.batch = b ∧ ∃ g ∈ launch.problems, g.node = n := by
  rw [List.any_eq_true]
  constructor
  · rintro ⟨d, hd, h⟩
    cases d with
    | launched launch =>
        simp only [Deed.handsOut, Bool.and_eq_true, beq_iff_eq, List.any_eq_true] at h
        exact ⟨launch, hd, h⟩
    | completed | stopped => cases h
  · rintro ⟨launch, hl, h⟩
    refine ⟨_, hl, ?_⟩
    simpa only [Deed.handsOut, Bool.and_eq_true, beq_iff_eq, List.any_eq_true] using h

/-- What is given up leaves the latest answer. -/
theorem latestResult_stopped (n : NodeId) (ds : List Deed) : ∀ stopped : List BatchId,
    latestResult n ((stopped.map .stopped).reverse ++ ds) = latestResult n ds := by
  intro stopped
  rw [← List.map_reverse]
  induction stopped.reverse with
  | nil => rfl
  | cons b rest ih => exact ih

namespace Station

variable {G : Grant} {x y : Station} {n : NodeId}

/-- **The latest answer for a node is valid**, nothing of it is in flight, and its problems agree. -/
structure Confirmed (x : Station) (n : NodeId) : Prop where
  latest : latestResult n x.deeds = some .valid
  handed : n ∈ x.core.dispatched
  landed : ∀ p ∈ x.core.problems, p.node = n → p.batch ∉ x.core.inFlight
  upheld : ∀ p ∈ x.core.problems, p.node = n → p.result ≠ some .invalid
  entry : x.tree.contains n = true → ∃ p ∈ x.core.problems, p.node = n ∧ p.result = some .valid

/-- The runner changes in nothing that is looked at here. -/
theorem Confirmed.congr (h : Confirmed x n) {core : Runner} {ds : List Deed}
    (hl : latestResult n (ds ++ x.deeds) = latestResult n x.deeds)
    (hf : ∀ b ∈ core.inFlight, b ∈ x.core.inFlight) (hp : core.problems = x.core.problems)
    (hd : core.dispatched = x.core.dispatched) : Confirmed (x.put core ds) n where
  latest := hl.trans h.latest
  handed := by
    show n ∈ core.dispatched
    rw [hd]
    exact h.handed
  landed p hm hn hb := h.landed p (hp ▸ hm) hn (hf _ hb)
  upheld p hm := h.upheld p (hp ▸ hm)
  entry hc := by
    obtain ⟨p, hm, he⟩ := h.entry hc
    exact ⟨p, hp ▸ hm, he⟩

/-- A confirmed node is not due: handed out it was, so it would have to be live, and then it has a problem
    with a conclusive answer. -/
theorem Confirmed.not_due (h : Confirmed x n) {picked : List Goal} (hd : Due x picked) :
    ∀ g ∈ picked, g.node ≠ n := by
  rintro g hg rfl
  obtain ⟨p, hp, hn, hr⟩ := h.entry (hd.live g hg h.handed)
  cases hd.undecided g hg p hp hn _ hr

theorem confirmed_launch (hs : Sound x) (h : Confirmed x n) {picked : List Goal} (hd : Due x picked) :
    Confirmed (x.put (x.core.afterLaunch picked) [.launched (x.core.launchOf picked)]) n := by
  have hnew : ∀ p ∈ (x.core.afterLaunch picked).problems, p.node = n → p ∈ x.core.problems := by
    intro p hp hn
    rcases mem_afterLaunch hp with hp | ⟨g, hg, rfl⟩
    · exact hp
    · exact absurd hn (h.not_due hd g hg)
  refine ⟨h.latest, mem_addNodes.mpr (Or.inl h.handed), fun p hp hn hf => ?_, fun p hp hn => ?_, fun hc => ?_⟩
  · have hm := hnew p hp hn
    exact h.landed p hm hn ((flying_afterLaunch (hs.consistent.belowProblem p hm)).mp hf)
  · exact h.upheld p (hnew p hp hn) hn
  · obtain ⟨p, hp, he⟩ := h.entry hc
    exact ⟨p, List.mem_append_left _ hp, he⟩

section Answers

variable {batch : BatchId} {outcomes : List Outcome}

/-- A confirmed node was not handed out with a batch in flight. -/
theorem Confirmed.not_flying (hs : Sound x) (h : Confirmed x n) (hf : batch ∈ x.core.inFlight) :
    x.deeds.any (Deed.handsOut batch n) = false := by
  by_contra hany
  obtain ⟨launch, hl, rfl, g, hg, rfl⟩ := handsOut_iff.mp (by simpa using hany)
  obtain ⟨p, hp, hn, hb⟩ := hs.roster launch hl hf g hg
  exact h.landed p hp hn (hb ▸ hf)

theorem confirmed_answer (hs : Sound x) (h : Confirmed x n) (hf : batch ∈ x.core.inFlight) :
    Confirmed (x.put (x.core.afterAnswers x.tree.contains x.tree.contains batch outcomes)
      [.completed batch outcomes]) n := by
  -- its problems belong to other batches, so the answers are not for them
  have hold : ∀ p ∈ (x.core.afterAnswers x.tree.contains x.tree.contains batch outcomes).problems,
      p.node = n → p ∈ x.core.problems := by
    intro p' hp' hn
    obtain ⟨_, p, hp, rfl⟩ := Runner.mem_afterAnswers hp'
    have hpn : p.node = n := by
      rw [← hn]
      split <;> simp
    rw [untouched fun e => h.landed p hp hpn (e ▸ hf)]
    exact hp
  refine ⟨?_, h.handed, fun p hp hn hb => ?_, fun p hp hn => h.upheld p (hold p hp hn) hn, fun hc => ?_⟩
  · show (if x.deeds.any (Deed.handsOut batch n) = true then _ else latestResult n x.deeds) = _
    rw [h.not_flying hs hf]
    exact h.latest
  · exact h.landed p (hold p hp hn) hn (List.mem_of_mem_erase hb)
  · obtain ⟨p, hp, hn, hr⟩ := h.entry hc
    have hm : _ ∈ (x.core.afterAnswers x.tree.contains x.tree.contains batch outcomes).problems :=
      Runner.mem_afterAnswers_of_mem hp (Or.inl (hn ▸ hc))
    rw [untouched fun e => h.landed p hp hn (e ▸ hf)] at hm
    exact ⟨p, hm, hn, hr⟩

/-- **A node that an answer proves is confirmed**: it had one problem in flight, and none of the others has a
    conclusive answer. -/
theorem confirmed_proved (hs : Sound x) (hf : batch ∈ x.core.inFlight) {p : Problem}
    (hp : p ∈ x.core.problems) (hb : p.batch = batch) (hv : Runner.statusOf outcomes p.node = .valid) :
    Confirmed (x.put (x.core.afterAnswers x.tree.contains x.tree.contains batch outcomes)
      [.completed batch outcomes]) p.node := by
  have hpf : p.batch ∈ x.core.inFlight := hb ▸ hf
  have hnone : p.result = none := hs.consistent.openFlight p hp hpf
  have hresolve : (if p.batch == batch then p.resolve (Runner.statusOf outcomes p.node) else p) =
      { p with result := some .valid } := by
    rw [if_pos (by simpa using hb), hv]
    unfold Problem.resolve
    rw [hnone]
  refine ⟨?_, hs.consistent.handedOut p hp, fun q' hq' hn hqf => ?_, fun q' hq' hn hr => ?_, fun hc => ?_⟩
  · obtain ⟨launch, hl, he, hg⟩ := hs.backed.problem p hp
    have hany : x.deeds.any (Deed.handsOut batch p.node) = true :=
      handsOut_iff.mpr ⟨launch, hl, he.trans hb, _, hg, rfl⟩
    show (if x.deeds.any (Deed.handsOut batch p.node) = true then _ else _) = _
    rw [if_pos hany, hv]
  · obtain ⟨_, q, hq, rfl⟩ := Runner.mem_afterAnswers hq'
    have hqn : q.node = p.node := by
      rw [← hn]
      split <;> simp
    have hqb : q.batch ∈ x.core.inFlight.erase batch := by
      have hqf' : (if q.batch == batch then q.resolve (Runner.statusOf outcomes q.node) else q).batch ∈
        x.core.inFlight.erase batch := hqf
      split at hqf' <;> simpa using hqf'
    obtain ⟨hne, hqf⟩ := hs.consistent.flightOnce.mem_erase_iff.mp hqb
    exact hne (hs.one_flight hq hp hqn hqf hpf ▸ hb)
  · obtain ⟨_, q, hq, rfl⟩ := Runner.mem_afterAnswers hq'
    have hqn : q.node = p.node := by
      rw [← hn]
      split <;> simp
    by_cases hqb : q.batch = batch
    · have hqp : q = p := hs.one_flight hq hp hqn (hqb ▸ hf) hpf
      rw [hqp, hresolve] at hr
      cases hr
    · rw [untouched hqb] at hr
      cases hs.undecided p hp hpf q hq hqn _ hr
  · have hm : _ ∈ (x.core.afterAnswers x.tree.contains x.tree.contains batch outcomes).problems :=
      Runner.mem_afterAnswers_of_mem hp (Or.inl hc)
    rw [hresolve] at hm
    exact ⟨_, hm, rfl, rfl⟩

end Answers

/-- **A turn that leaves the settings alone keeps a node confirmed**, as long as it is proved at all. -/
theorem confirmed_turn (hs : Sound x) (hG : ¬ G.refreshes) (ht : Turn G x y) (h : Confirmed x n)
    (hn : n ∈ y.core.solved) : Confirmed y n := by
  have hlive : y.tree.contains n = true → x.tree.contains n = true :=
    ht.contains (hs.knows.known n h.handed)
  cases ht with
  | rule | prune => exact ⟨h.latest, h.handed, h.landed, h.upheld, fun hc => h.entry (hlive hc)⟩
  | handOut mode goals hg ho =>
      rcases hs.handOut_cases mode hg ho with ⟨k, e⟩ | ⟨picked, hd, e⟩
      · rw [e]
        exact h.congr rfl (fun _ => id) rfl rfl
      · rw [e]
        exact confirmed_launch hs h hd
  | suspend =>
      unfold Runner.suspend
      split
      · exact h
      · exact h.congr rfl (fun _ => id) rfl rfl
  | unsuspend =>
      unfold Runner.unsuspend
      split
      · exact h
      · exact h.congr rfl (fun _ => id) rfl rfl
  | setSolvers solvers => exact h.congr rfl (fun _ => id) rfl rfl
  | stop => exact h.congr (latestResult_stopped n _ _) (fun _ hb => absurd hb List.not_mem_nil) rfl rfl
  | refresh hr => exact absurd hr hG
  | close =>
      unfold Runner.close at hn ⊢
      by_cases hc : x.core.closed = true
      · rw [if_pos hc]
        exact h
      · rw [if_neg hc] at hn
        exact absurd hn List.not_mem_nil
  | answer _ hc =>
      obtain ⟨hf, rfl⟩ := Runner.complete_cases.mp hc
      exact confirmed_answer hs h hf

/-- **A node that becomes proved is confirmed.** -/
theorem solved_turn (hs : Sound x) (ht : Turn G x y) (hn : n ∈ y.core.solved) :
    n ∈ x.core.solved ∨ Confirmed y n := by
  rcases ht.solved hn with hn | ⟨batch, outcomes, _, hf, rfl, p, hp, rfl, hb, hv, _⟩
  · exact Or.inl hn
  · exact Or.inr (confirmed_proved hs hf hp hb hv)

end Station

end GoalWatch
