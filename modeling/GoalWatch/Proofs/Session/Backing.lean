import GoalWatch.Proofs.Session.Lifecycle

/-!
# What is applied was proved

* `carries_step` -- no step gives a node of a proof another sequent;
* `Session.Grounded` -- all that was handed out or told of stands in the table of its proof;
* `Move.isGenuine` -- goals come from proofs and answers from launches only;
* `Session.Answered` -- answers that were taken in were returned for a launch;
* **`applied_was_proved`** -- a result that is applied was handed out, with the sequent that its node has now,
  and answered valid.
-/

namespace GoalWatch

/-- Goals come from proofs, answers from launches, and proofs answer for themselves. -/
def Move.isGenuine : Move → Bool
  | .runner _ (.ruleApplied _) | .runner _ (.completed ..) | .present .. => false
  | _ => true

namespace Session

variable {L : License} {s s' : Session} {p : ProofId} {r : RunnerId} {n : NodeId} {q : Sequent}

/-! ## 1. Sequents of nodes -/

/-- A proof that changes keeps what it carries, if the new tree does. -/
theorem carries_setTree {k : ProofId} {tree : Tree}
    (ht : ∀ {n q}, (s.proof k).tree.Carries n q → tree.Carries n q)
    (h : (s.proof p).tree.Carries n q) : ((s.setTree k tree).proof p).tree.Carries n q := by
  rcases proof_modifyProof_cases (s := s) (p := k) (q := p) (fun w => { w with tree })
    with e | ⟨rfl, _, e⟩
  · rw [setTree, e]
    exact h
  · rw [setTree, e]
    exact ht h

/-- **No step gives a node of a proof another sequent**, unless proofs are replaced. -/
theorem carries_step (hL : ¬ L.anyProof) (hs : Step L s s') (h : (s.proof p).tree.Carries n q) :
    (s'.proof p).tree.Carries n q := by
  cases hs with
  | rule hr => exact carries_setTree (fun hc => Tree.carries_applyRule hr hc) h
  | prune hp => exact carries_setTree (fun hc => Tree.carries_prune hp hc) h
  | watch k f ht _ _ =>
      rcases proof_modifyProof_cases (s := s) (p := k) (q := p) f with e | ⟨_, _, e⟩
      · rw [e]
        exact h
      · rw [e, ht]
        exact h
  | present ha => exact absurd ha hL
  | enlist k settings =>
      rcases proof_enlist_cases (s := s) (p := k) (q := p) settings with e | ⟨_, e⟩
      · rw [e]
        exact h
      · rw [e]
        exact h
  | handOut r mode goals _ =>
      rw [proof_takeLaunch]
      exact h
  | remark | announce | host | tune | giveUp | answer | desk | clients | tasks => exact h

/-! ## 2. What was handed out -/

/-- **All that was handed out or told of stands in the table of its proof.** -/
structure Grounded (s : Session) : Prop where
  launched : ∀ r < s.runners.length, ∀ launch, .launched launch ∈ s.deeds r →
    ∀ g ∈ launch.problems, (s.proof (s.runner r).proof).tree.Carries g.node g.sequent
  told : ∀ p < s.proofs.length, ∀ goals, .emitted p (.ruleApplied goals) ∈ s.log →
    ∀ g ∈ goals, (s.proof p).tree.Carries g.node g.sequent

/-- What a launch holds is among the goals it was picked from. -/
theorem mem_goals_of_launch {c : Runner} {mode : Mode} {goals : List Goal} {launch : Launch}
    (h : (c.dispatchOpen mode goals).1 = some launch) {g : Goal} (hg : g ∈ launch.problems) :
    g ∈ goals := by
  unfold Runner.dispatchOpen at h
  split at h
  · rcases Runner.dispatch_cases c mode goals with ⟨e, _⟩ | ⟨_, _, _, e⟩
    · rw [e] at h
      cases h
    · rw [e] at h
      cases h
      exact mem_of_mem_firstPerNode (List.mem_filter.mp hg).1
  · cases h

/-- A launch of a runner was there before, or it was picked from goals that the runner may get. -/
theorem launched_step (hs : Step L s s') {launch : Launch} (h : .launched launch ∈ s'.deeds r) :
    .launched launch ∈ s.deeds r ∨ ∃ goals, (L.anyGoals ∨ s.Offered r goals) ∧
      ∀ g ∈ launch.problems, g ∈ goals := by
  cases hs with
  | remark es hr =>
      rw [deeds_recordAll es fun e he => deed?_of_isRemark (hr e he)] at h
      exact Or.inl h
  | handOut k mode goals hg =>
      rw [deeds_takeLaunch] at h
      rcases List.mem_append.mp h with hnew | hold
      · split at hnew
        · rename_i hk
          subst hk
          obtain ⟨l, hl, he⟩ := List.mem_map.mp hnew
          cases he
          exact Or.inr ⟨goals, hg, fun g hm => mem_goals_of_launch (Option.mem_toList.mp hl) hm⟩
        · exact absurd hnew List.not_mem_nil
      · exact Or.inl hold
  | giveUp k result _ =>
      rw [deeds_giveUp] at h
      rcases List.mem_append.mp h with h | h
      · split at h
        · simp at h
        · exact absurd h List.not_mem_nil
      · exact Or.inl h
  | answer _ _ =>
      rw [deeds_completed] at h
      rcases List.mem_append.mp h with h | h
      · split at h
        · simp at h
        · exact absurd h List.not_mem_nil
      · exact Or.inl h
  | announce | rule | prune | watch | present | enlist | host | tune | desk | clients | tasks =>
      exact Or.inl h

/-- What a step may write down. -/
inductive Writes (L : License) (s s' : Session) : Entry → Prop where
  | remark {e : Entry} (h : e.isRemark = true) : Writes L s s' e
  | announced {p : ProofId} {e : Event} (h : ∀ goals, e ≠ .ruleApplied goals) :
      Writes L s s' (.emitted p e)
  /-- New goals are told of only by the rule that made them. -/
  | told {p : ProofId} {goals : List Goal}
      (h : p < s.proofs.length → ∀ g ∈ goals, (s'.proof p).tree.Carries g.node g.sequent) :
      Writes L s s' (.emitted p (.ruleApplied goals))
  | requested {r : RunnerId} {launch : Launch} : Writes L s s' (.requested r launch)
  | completed {r : RunnerId} {b : BatchId} {os : List Outcome} (h : L.answers r b os) :
      Writes L s s' (.completed r b os)
  | stopped {r : RunnerId} {b : BatchId} : Writes L s s' (.stopped r b)

theorem writes_step (hs : Step L s s') {e : Entry} (h : e ∈ s'.log) : e ∈ s.log ∨ Writes L s s' e := by
  cases hs with
  | remark es hr =>
      rcases List.mem_append.mp h with h | h
      · exact Or.inr (.remark (hr e (List.mem_reverse.mp h)))
      · exact Or.inl h
  | announce k ev hne =>
      rcases List.mem_cons.mp h with rfl | h
      · exact Or.inr (.announced hne)
      · exact Or.inl h
  | @rule k _ _ _ goals tree hr =>
      rcases List.mem_cons.mp h with rfl | h
      · refine Or.inr (.told fun hp g hg => ?_)
        show ((s.setTree k tree).proof k).tree.Carries _ _
        rw [setTree, proof_modifyProof_self _ hp]
        exact Tree.carries_newGoal hr hg
      · exact Or.inl h
  | handOut k mode goals _ =>
      unfold takeLaunch at h
      split at h
      · exact Or.inl h
      · rcases List.mem_cons.mp h with rfl | h
        · exact Or.inr .requested
        · exact Or.inl h
  | giveUp k result _ =>
      rcases List.mem_append.mp h with h | h
      · obtain ⟨b, _, rfl⟩ := List.mem_map.mp (List.mem_reverse.mp h)
        exact Or.inr .stopped
      · exact Or.inl h
  | answer hL _ =>
      rcases List.mem_cons.mp h with rfl | h
      · exact Or.inr (.completed hL)
      · exact Or.inl h
  | prune | watch | present | enlist | host | tune | desk | clients | tasks => exact Or.inl h

/-- Goals that a runner may get stand in the table of its proof. -/
theorem Grounded.offered (h : Grounded s) {goals : List Goal} (ho : s.Offered r goals) {g : Goal}
    (hg : g ∈ goals) : (s.proof (s.runner r).proof).tree.Carries g.node g.sequent := by
  rcases ho g hg with hopen | ⟨new, hm, hp, he⟩
  · exact Tree.carries_of_mem_goals hopen
  · exact h.told _ hp new he g hm

theorem grounded_step (hG : ¬ L.anyGoals) (hP : ¬ L.anyProof) (h : Grounded s)
    (hu : ∀ r, s.runners.length ≤ r → s.deeds r = []) (hs : Step L s s') : Grounded s' := by
  have hg := grows_step hs
  refine ⟨fun r hr launch hl g hm => ?_, fun p hp goals he g hm => ?_⟩
  · rcases Nat.lt_or_ge r s.runners.length with hlt | hge
    · rw [hg.watches r hlt]
      refine carries_step hP hs ?_
      rcases launched_step hs hl with hl | ⟨goals, ho, hsub⟩
      · exact h.launched r hlt launch hl g hm
      · exact h.offered (ho.resolve_left hG) (hsub g hm)
    · -- a runner that is new has handed out nothing
      rw [deeds_step_of_le hs hge, hu r hge] at hl
      exact absurd hl List.not_mem_nil
  · rw [hg.proofs] at hp
    rcases writes_step hs he with he | hnew
    · exact carries_step hP hs (h.told p hp goals he g hm)
    · cases hnew with
      | remark hr => cases hr
      | announced hne => exact absurd rfl (hne goals)
      | told ht => exact ht hp g hm

/-! ## 3. What was answered -/

/-- Answers are taken in only as the license says. -/
theorem completed_reaches (hr : Reaches L s s') {b : BatchId} {os : List Outcome}
    (h : .completed r b os ∈ s'.log) : .completed r b os ∈ s.log ∨ L.answers r b os := by
  induction hr with
  | start => exact Or.inl h
  | more _ hs ih =>
      rcases writes_step hs h with h | hnew
      · exact ih h
      · cases hnew with
        | remark hr => cases hr
        | completed hL => exact Or.inr hL

/-- **Answers that were taken in were returned for a launch**, by one of the moves. -/
def Answered (moves : List Move) (s : Session) : Prop :=
  ∀ r b os, .completed r b os ∈ s.log → ∃ o, .finish o os ∈ moves ∧ o.runner = r ∧
    o.launch.batch = b ∧ .requested r o.launch ∈ s.log

theorem answered_reaches {moves : List Move} {m : Move} (hm : m ∈ moves) (hg : m.isGenuine = true)
    (hw : Wired s) (h : Answered moves s) (hr : Reaches (m.license s) s s') : Answered moves s' := by
  intro r b os hc
  have hlog := (grows_reaches hr).log
  rcases completed_reaches hr hc with hc | rfl | ⟨o, rfl, ho, hrun, hb⟩
  · obtain ⟨o, hf, hrun, hb, hreq⟩ := h r b os hc
    exact ⟨o, hf, hrun, hb, hlog.mem hreq⟩
  · cases hg
  · refine ⟨o, hm, hrun, hb, hlog.mem ?_⟩
    rw [← hrun]
    exact hw.task o ho

/-- All that a run of genuine moves keeps. -/
structure Honest (moves : List Move) (s : Session) : Prop where
  accounted : Hosts Runner.Accounted s
  backed : Hosts Runner.Backed s
  grounded : Grounded s
  answered : Answered moves s

theorem genuine_license {m : Move} (hg : m.isGenuine = true) (s : Session) :
    ¬ (m.license s).anyGoals ∧ ¬ (m.license s).anyProof := by
  refine ⟨?_, ?_⟩
  · rintro ⟨r, goals, rfl⟩
    cases hg
  · rintro ⟨p, tree, facade, rfl⟩
    cases hg

theorem honest_reaches {moves : List Move} {m : Move} (hm : m ∈ moves) (hg : m.isGenuine = true)
    (hw : Wired s) (h : Honest moves s) (hr : Reaches (m.license s) s s') : Honest moves s' := by
  obtain ⟨hG, hP⟩ := genuine_license hg s
  have hground : Hosts Runner.Accounted s' ∧ Grounded s' :=
    reaches_keep (I := fun s => Hosts Runner.Accounted s ∧ Grounded s)
      (fun h hs => ⟨hosts_step Runner.accounted_start Runner.accounted_act h.1 hs,
        grounded_step hG hP h.2 h.1.unborn hs⟩) ⟨h.accounted, h.grounded⟩ hr
  exact ⟨hground.1, hosts_reaches Runner.backed_start Runner.backed_act h.backed hr, hground.2,
    answered_reaches hm hg hw h.answered hr⟩

theorem honest_start (proofs : List (String × Tree)) (settings : Settings) (moves : List Move) :
    Honest moves (start proofs settings) where
  accounted := hosts_start proofs settings
  backed := hosts_start proofs settings
  grounded := ⟨fun _ hr => absurd hr (Nat.not_lt_zero _), fun _ _ _ h => absurd h List.not_mem_nil⟩
  answered _ _ _ h := absurd h List.not_mem_nil

/-! ## 4. Applying a result -/

theorem deed?_eq_launched {e : Entry} {launch : Launch} :
    e.deed? r = some (.launched launch) ↔ e = .requested r launch := by
  cases e <;> simp [Entry.deed?]

theorem deed?_eq_completed {e : Entry} {b : BatchId} {os : List Outcome} :
    e.deed? r = some (.completed b os) ↔ e = .completed r b os := by
  cases e <;> simp [Entry.deed?]

/-- The order of a runner's marks is the order in which they were written down. -/
theorem log_of_deeds {launch : Launch} {b : BatchId} {os : List Outcome} {later earlier : List Deed}
    (h : s.deeds r = later ++ .completed b os :: earlier) (hl : .launched launch ∈ earlier) :
    ∃ after before, s.log = after ++ .completed r b os :: before ∧ .requested r launch ∈ before := by
  obtain ⟨after, rest, hlog, _, hrest⟩ := List.filterMap_eq_append_iff.mp h
  obtain ⟨skipped, e, before, rfl, _, he, hbefore⟩ := List.filterMap_eq_cons_iff.mp hrest
  cases deed?_eq_completed.mp he
  refine ⟨after ++ skipped, before, by rw [hlog, List.append_assoc], ?_⟩
  rw [← hbefore] at hl
  obtain ⟨e, hm, he⟩ := List.mem_filterMap.mp hl
  cases deed?_eq_launched.mp he
  exact hm

/-- No two launches of a runner have one number. -/
theorem launched_unique {ds : List Deed} (h : (issued ds).Nodup) {l l' : Launch}
    (hl : .launched l ∈ ds) (hl' : .launched l' ∈ ds) (he : l.batch = l'.batch) : l = l' := by
  induction ds with
  | nil => exact absurd hl List.not_mem_nil
  | cons d rest ih =>
      have hrest : (issued rest).Nodup := (List.Sublist.filterMap _ (List.sublist_cons_self d rest)).nodup h
      -- a launch at the head has a number that no later one has
      have hhead : ∀ {k k' : Launch}, d = .launched k → .launched k' ∈ rest → k.batch ≠ k'.batch := by
        rintro k k' rfl hk hb
        exact (List.nodup_cons.mp h).1 (hb ▸ mem_issued.mpr ⟨k', hk, rfl⟩)
      rcases List.mem_cons.mp hl with hd | hl <;> rcases List.mem_cons.mp hl' with hd' | hl'
      · cases hd.trans hd'.symm
        rfl
      · exact absurd he (hhead hd.symm hl')
      · exact absurd he.symm (hhead hd'.symm hl)
      · exact ih hrest hl hl'

/-- A result is applied only where it can be. -/
theorem canApply_of_applied {again : Again} (h : (applyResult again s n).1 = .applied) :
    ∃ r, s.registry.activeRunner? = some r ∧ n ∈ (s.runner r).core.solved ∧
      (s.proof (s.runner r).proof).tree.contains n = true := by
  have hc : s.canApply n = true := by
    unfold applyResult at h
    simp only at h
    split at h
    · assumption
    · cases h
  unfold canApply at hc
  split at hc
  · cases hc
  · rename_i r hr
    simp only [Bool.and_eq_true] at hc
    exact ⟨r, hr, List.contains_iff_mem.mp hc.1.1.1.2, hc.1.1.2⟩

/-- A result that is applied in an honest session was handed out and answered valid. -/
theorem Honest.applied {moves : List Move} {again : Again} (h : Honest moves s) (hw : Wired s)
    (ha : (applyResult again s n).1 = .applied) :
    ∃ p r q launch outcomes, s.registry.active = some p ∧ s.registry.runnerFor? p = some r ∧
      (s.runner r).proof = p ∧ (s.proof p).tree.sequent? n = some q ∧
      ⟨n, q⟩ ∈ launch.problems ∧ Runner.statusOf outcomes n = .valid ∧
      (∃ after before, s.log = after ++ .completed r launch.batch outcomes :: before ∧
        .requested r launch ∈ before) ∧
      ∃ stage, .finish ⟨r, launch, stage⟩ outcomes ∈ moves := by
  obtain ⟨r, hact, hsolved, hcont⟩ := canApply_of_applied ha
  obtain ⟨p, hp, hr⟩ := Option.bind_eq_some_iff.mp hact
  obtain ⟨hlt, hproof⟩ := hw.entry (p, r) (mem_of_runnerFor? hr)
  obtain ⟨launch, outcomes, q, later, earlier, hd, hl, hmem, hv⟩ := (h.backed.hosted r hlt).proved n hsolved
  obtain ⟨after, before, hlog, hreq⟩ := log_of_deeds hd hl
  have hlaunched : .launched launch ∈ s.deeds r := by
    rw [hd]
    exact List.mem_append_right _ (List.mem_cons_of_mem _ hl)
  have hcar := h.grounded.launched r hlt launch hlaunched _ hmem
  rw [hproof] at hcar hcont
  have hcompleted : .completed r launch.batch outcomes ∈ s.log := by
    rw [hlog]
    exact List.mem_append_right _ List.mem_cons_self
  obtain ⟨⟨k, l, stage⟩, hfin, rfl, hb, hreq'⟩ := h.answered r launch.batch outcomes hcompleted
  -- the launch that was answered has the number of the one that held the node, so it is that launch
  have hsame : l = launch := launched_unique (h.accounted.hosted k hlt).once
    (List.mem_filterMap.mpr ⟨_, hreq', deed?_eq_launched.mpr rfl⟩) hlaunched hb
  subst hsame
  exact ⟨p, k, q, l, outcomes, hp, hr, hproof, hcar.sequent? hcont, hmem, hv,
    ⟨after, before, hlog, hreq⟩, stage, hfin⟩

/-- **What is applied was proved.** Take any number of proofs and any moves in which goals come from proofs
    and answers from launches; let `t` be the session after them or any one on the way of a further move `m`,
    such as one in which a client that is called applies a result. If the result for a node is applied there,
    the runner of the active proof had handed out that node, with the sequent that it carries now, in a launch
    for which the launcher then returned that the node is valid. -/
theorem applied_was_proved (depth : Nat) (proofs : List (String × Tree)) (settings : Settings)
    (moves : List Move) (m : Move) (hg : ∀ k ∈ m :: moves, k.isGenuine = true) {t : Session}
    (ht : Reaches (m.license (run (perform depth) (start proofs settings) moves))
      (run (perform depth) (start proofs settings) moves) t)
    {again : Again} {n : NodeId} (ha : (applyResult again t n).1 = .applied) :
    ∃ p r q launch outcomes, t.registry.active = some p ∧ t.registry.runnerFor? p = some r ∧
      (t.runner r).proof = p ∧ (t.proof p).tree.sequent? n = some q ∧
      ⟨n, q⟩ ∈ launch.problems ∧ Runner.statusOf outcomes n = .valid ∧
      (∃ after before, t.log = after ++ .completed r launch.batch outcomes :: before ∧
        .requested r launch ∈ before) ∧
      ∃ stage, .finish ⟨r, launch, stage⟩ outcomes ∈ m :: moves := by
  obtain ⟨hw, hh⟩ := run_keep depth (P := fun k => k ∈ m :: moves)
    (fun hk hw h hr => honest_reaches hk (hg _ hk) hw h hr) (wired_start proofs settings)
    (honest_start proofs settings (m :: moves)) moves fun k hk => List.mem_cons_of_mem _ hk
  have hm : m ∈ m :: moves := List.mem_cons_self
  exact (honest_reaches hm (hg m hm) hw hh ht).applied (wired_reaches hw ht) ha

/-- A proof with one goal, its launch, and an answer that can be applied. -/
theorem applied_was_proved_single :
    let goal : Sequent := { succedent := ["a"] }
    let chosen : Settings := { solvers := .ofList [.z3] }
    let launch : Launch := { batch := 1, settings := chosen, problems := [⟨0, goal⟩] }
    let moves : List Move := [.select 0, .finish ⟨0, launch, .queued⟩ [{ node := 0, status := .valid }]]
    let t := run (perform 1) (start [("p", .ofRoot goal)] chosen) moves
    (∀ k ∈ Move.applyResult 0 :: moves, k.isGenuine = true) ∧
    (applyResult (perform 1) t 0).1 = .applied ∧
    ∃ p r q launch outcomes, t.registry.active = some p ∧ t.registry.runnerFor? p = some r ∧
      (t.runner r).proof = p ∧ (t.proof p).tree.sequent? 0 = some q ∧
      ⟨0, q⟩ ∈ launch.problems ∧ Runner.statusOf outcomes 0 = .valid ∧
      (∃ after before, t.log = after ++ .completed r launch.batch outcomes :: before ∧
        .requested r launch ∈ before) ∧
      ∃ stage, .finish ⟨r, launch, stage⟩ outcomes ∈ Move.applyResult 0 :: moves := by
  intro goal chosen launch moves t
  have hg : ∀ k ∈ Move.applyResult 0 :: moves, k.isGenuine = true := by
    intro k hk
    rcases List.mem_cons.mp hk with rfl | hk
    · rfl
    · rcases List.mem_cons.mp hk with rfl | hk
      · rfl
      · rw [List.mem_singleton.mp hk]
        rfl
  have ha : (applyResult (perform 1) t 0).1 = .applied := by decide +kernel
  have ht : Reaches ((Move.applyResult 0).license t) t t := .start
  exact ⟨hg, ha, applied_was_proved 1 [("p", .ofRoot goal)] chosen moves (.applyResult 0) hg
    (t := t) ht ha⟩

end Session

end GoalWatch
