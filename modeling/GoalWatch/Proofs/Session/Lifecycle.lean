import GoalWatch.Proofs.Session.Run

/-!
# The life of a batch

Whatever is asked of a runner and whoever calls back meanwhile, each batch it hands out is new and has
one fate from then on.

* `accounted_run` -- every runner's account is right in every run;
* `returned_new` -- a batch that a runner returns was never handed out before;
* `complete_foreign` -- answers for a batch that is not in flight do nothing;
* **`batch_lifecycle`** -- all of it, for any sequence of moves.
-/

namespace GoalWatch.Session

variable {again : Again} {s s' : Session} {r : RunnerId} {b : BatchId}

/-! ## 1. New batches -/

theorem accounted_run (depth : Nat) (proofs : List (String × Tree)) (settings : Settings)
    (moves : List Move) :
    Hosts Runner.Accounted (run (perform depth) (start proofs settings) moves) :=
  hosts_run depth proofs settings Runner.accounted_start Runner.accounted_act moves

/-- A batch that was handed out stays so. -/
theorem issued_grows (h : Grows s s') (hb : b ∈ issued (s.deeds r)) : b ∈ issued (s'.deeds r) :=
  ((h.log.filterMap _).filterMap _).mem hb

/-- A launch that is returned has the next number of its runner. -/
theorem dispatchOpen_batch {c : Runner} {mode : Mode} {goals : List Goal} {launch : Launch}
    (h : (c.dispatchOpen mode goals).1 = some launch) : launch.batch = c.nextBatch := by
  unfold Runner.dispatchOpen at h
  split at h
  · rcases Runner.dispatch_cases c mode goals with ⟨e, _⟩ | ⟨_, _, _, e⟩
    · rw [e] at h
      cases h
    · rw [e] at h
      cases h
      rfl
  · cases h

/-- Whoever hands out goals is told a number that was not handed out before, and is now. -/
theorem takeLaunch_new (h : Hosts Runner.Accounted s) {c : Runner} {mode : Mode} {goals : List Goal}
    (hc : c = (s.runner r).core) (hb : (s.takeLaunch r (c.dispatchOpen mode goals)).1 = some b) :
    b ∉ issued (s.deeds r) ∧ b ∈ issued ((s.takeLaunch r (c.dispatchOpen mode goals)).2.deeds r) := by
  rw [deeds_takeLaunch, if_pos rfl]
  unfold takeLaunch at hb
  cases hl : (c.dispatchOpen mode goals).1 with
  | none =>
      rw [hl] at hb
      cases hb
  | some launch =>
      rw [hl] at hb
      have he : launch.batch = b := Option.some.inj hb
      refine ⟨?_, ?_⟩
      · rcases Nat.lt_or_ge r s.runners.length with hr | hr
        · rw [← he, dispatchOpen_batch hl, hc]
          exact (h.hosted r hr).next_unused.1
        · rw [h.unborn r hr]
          exact List.not_mem_nil
      · exact mem_issued.mpr ⟨launch, List.mem_append_left _ (by simp), he⟩

theorem dispatchOpen_new (h : Hosts Runner.Accounted s) {mode : Mode}
    (hb : (s.dispatchOpen r mode).1 = some b) :
    b ∉ issued (s.deeds r) ∧ b ∈ issued ((s.dispatchOpen r mode).2.deeds r) := by
  unfold dispatchOpen at hb ⊢
  simp only at hb ⊢
  split at hb
  · rename_i hacc
    rw [if_pos hacc]
    have hp : Reaches .shut s (s.probe (s.runner r).proof r .dispatching) :=
      (passes_probe (P := License.shut.permit) r .dispatching).reaches
    have hh := hosts_reaches Runner.accounted_start Runner.accounted_act h hp
    obtain ⟨hn, hi⟩ := takeLaunch_new hh (by rw [runner_probe]) hb
    exact ⟨fun hm => hn (issued_grows (grows_reaches hp) hm), hi⟩
  · cases hb

/-- **A batch that a runner returns is new**: it was not handed out before the call, and is after it. -/
theorem returned_new (depth : Nat) (hw : Wired s) (h : Hosts Runner.Accounted s)
    {call : RunnerCall} (hb : (runnerCall (perform depth) s r call).1 = some b) :
    b ∉ issued (s.deeds r) ∧ b ∈ issued ((runnerCall (perform depth) s r call).2.deeds r) := by
  -- a call that does something else first: what was handed out before it still was when it hands out
  have later : ∀ {L : License} {t : Session} {mode : Mode}, Reaches L s t →
      (t.dispatchOpen r mode).1 = some b →
      b ∉ issued (s.deeds r) ∧ b ∈ issued ((t.dispatchOpen r mode).2.deeds r) := by
    intro L t mode ht hb
    have hh := hosts_reaches Runner.accounted_start Runner.accounted_act h ht
    obtain ⟨hn, hi⟩ := dispatchOpen_new hh hb
    exact ⟨fun hm => hn (issued_grows (grows_reaches ht) hm), hi⟩
  cases call with
  | dispatch => exact dispatchOpen_new h hb
  | resume => exact dispatchOpen_new h hb
  | ruleApplied goals => exact takeLaunch_new h rfl hb
  | autoStopped => exact later (.one (L := .shut) (.tune r _ .unsuspend)) hb
  | setSolvers solvers =>
      exact later (.one (L := .shut) (.tune r _ (.setSolvers solvers))) hb
  | treeChanged =>
      unfold runnerCall treeChanged at hb ⊢
      simp only at hb ⊢
      split at hb
      · cases hb
      · rename_i hc
        rw [if_neg hc]
        exact later (passes_notifyRunner (obedient_perform (open_permit .shut) depth)
          (hw.tame fun _ => trivial)).reaches hb
  | autoStarted | close | completed | refresh | stopAll => cases hb

/-! ## 2. Answers for other batches -/

/-- **Answers for a batch that is not in flight do nothing**: at most the proof is asked for its nodes, which
    may be written down; no runner changes and nobody is told. -/
theorem complete_foreign (again : Again) (s : Session) {outcomes : List Outcome}
    (hb : b ∉ (s.runner r).core.inFlight) :
    ∃ es, (∀ e ∈ es, ∃ phase, e = .probed phase) ∧ complete again s r b outcomes = s.recordAll es := by
  obtain ⟨es, hes, ⟨_, e⟩ | ⟨core, hc, _⟩⟩ := session_complete_cases again s r b outcomes
  · exact ⟨es, hes, e⟩
  · exact absurd (Runner.complete_cases.mp hc).1 hb

/-! ## 3. Whole runs -/

/-- The first move returns nothing, or it asked the runner and got a batch. -/
theorem returns_cons_cases (again : Again) (s : Session) (r : RunnerId) (m : Move) (rest : List Move) :
    returns again r s (m :: rest) = returns again r (move again s m) rest ∨
      ∃ call b, m = .runner r call ∧ (runnerCall again s r call).1 = some b ∧
        returns again r s (m :: rest) = b :: returns again r (move again s m) rest := by
  cases m with
  | runner k call =>
      by_cases hk : k = r
      · subst hk
        cases hb : (runnerCall again s k call).1 with
        | none =>
            left
            simp [returns, hb]
        | some b =>
            right
            exact ⟨call, b, rfl, hb, by simp [returns, hb]⟩
      · left
        simp [returns, hk]
  | _ => exact Or.inl rfl

/-- What a runner returns in a run is handed out at its end and was not at its start, each number once. -/
theorem returns_issued (depth : Nat) (hw : Wired s) (h : Hosts Runner.Accounted s) (moves : List Move) :
    (returns (perform depth) r s moves).Nodup ∧ ∀ b ∈ returns (perform depth) r s moves,
      b ∉ issued (s.deeds r) ∧ b ∈ issued ((run (perform depth) s moves).deeds r) := by
  induction moves generalizing s with
  | nil => exact ⟨List.nodup_nil, fun _ hb => absurd hb List.not_mem_nil⟩
  | cons m rest ih =>
      have hr : Reaches (m.license s) s (move (perform depth) s m) :=
        reaches_move depth m hw
      have hh := hosts_reaches Runner.accounted_start Runner.accounted_act h hr
      obtain ⟨hnd, hrest⟩ := ih (wired_reaches hw hr) hh
      have hlater : ∀ b ∈ returns (perform depth) r (move (perform depth) s m) rest,
          b ∉ issued (s.deeds r) ∧ b ∈ issued ((run (perform depth) s (m :: rest)).deeds r) :=
        fun b hb => ⟨fun hm => (hrest b hb).1 (issued_grows (grows_reaches hr) hm), (hrest b hb).2⟩
      rcases returns_cons_cases (perform depth) s r m rest with e | ⟨call, b, rfl, hb, e⟩
      · rw [e]
        exact ⟨hnd, hlater⟩
      · -- what the first move returns is handed out by it, so the later moves return something else
        obtain ⟨hfresh, hissued⟩ := returned_new depth hw h hb
        rw [e]
        refine ⟨List.nodup_cons.mpr ⟨fun hm => (hrest b hm).1 hissued, hnd⟩, fun b' hb' => ?_⟩
        rcases List.mem_cons.mp hb' with rfl | hm
        · exact ⟨hfresh, issued_grows (grows_run depth (wired_reaches hw hr) rest) hissued⟩
        · exact hlater b' hm

/-- **The life of a batch.** After any moves, with calls from inside nested to any depth: the batches that
    a runner returned are pairwise distinct and were handed out; no number was ever handed out twice; each
    batch handed out is in flight, or was answered once, or was given up once; and answers for a batch that is
    not in flight change nothing and are told to nobody. -/
theorem batch_lifecycle (depth : Nat) (proofs : List (String × Tree)) (settings : Settings)
    (moves : List Move) (r : RunnerId) :
    let first := start proofs settings
    let last := run (perform depth) first moves
    (returns (perform depth) r first moves).Nodup ∧
    (∀ b ∈ returns (perform depth) r first moves, b ∈ issued (last.deeds r)) ∧
    (issued (last.deeds r)).Nodup ∧
    (∀ b ∈ issued (last.deeds r), Fate (last.runner r).core (last.deeds r) b) ∧
    ∀ b outcomes, b ∉ (last.runner r).core.inFlight →
      ∃ es, (∀ e ∈ es, ∃ phase, e = .probed phase) ∧
        complete (perform depth) last r b outcomes = last.recordAll es := by
  intro first last
  obtain ⟨hnd, hret⟩ := returns_issued (r := r) depth (wired_start proofs settings)
    (accounted_run depth proofs settings []) moves
  have hacc : Hosts Runner.Accounted last := accounted_run depth proofs settings moves
  refine ⟨hnd, fun b hb => (hret b hb).2, ?_, fun b hb => ?_, fun b outcomes hb =>
    complete_foreign (perform depth) last hb⟩
  · rcases Nat.lt_or_ge r last.runners.length with hr | hr
    · exact (hacc.hosted r hr).once
    · rw [hacc.unborn r hr]
      exact List.nodup_nil
  · rcases Nat.lt_or_ge r last.runners.length with hr | hr
    · exact (hacc.hosted r hr).fate b hb
    · rw [hacc.unborn r hr] at hb
      exact absurd hb List.not_mem_nil

end GoalWatch.Session
