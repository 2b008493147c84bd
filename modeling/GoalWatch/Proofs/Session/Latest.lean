import GoalWatch.Proofs.Runner.Latest
import GoalWatch.Proofs.Session.Station
import Mathlib.Data.List.Induction

/-!
# Proved nodes and the latest answer

* `Move.isFaithful` -- goals come from proofs, answers from anywhere;
* `posted_run` -- after faithful moves all stations are sound;
* `Session.ProvedBefore` -- a node was proved when its runner was given new settings;
* `confirmed_passes`, `confirmed_run` -- a proved node is confirmed, or it was proved before;
* **`solved_latest`** -- what a proved node says about the latest answer for it;
* `solved_outlives_refresh` -- new settings keep a node proved whatever is answered later.
-/

namespace GoalWatch

/-- Goals come from proofs, and proofs answer for themselves. Answers may come from anywhere. -/
def Move.isFaithful : Move → Bool
  | .runner _ (.ruleApplied _) | .present .. => false
  | _ => true

namespace Session

open Station (Confirmed Sound Turn)

variable {s s' t : Session} {m : Move} {r : RunnerId} {n : NodeId}

/-! ## 1. Faithful moves -/

theorem faithful_license (hm : m.isFaithful = true) (s : Session) :
    ¬ (m.permit s).anyGoals ∧ ¬ (m.permit s).anyProof := by
  refine ⟨?_, ?_⟩
  · rintro ⟨r, goals, rfl⟩
    cases hm
  · rintro ⟨p, tree, facade, rfl⟩
    cases hm

theorem posted_run (depth : Nat) (hw : Wired s) (hp : Posted s) (moves : List Move)
    (hm : ∀ m ∈ moves, m.isFaithful = true) : Posted (run (perform depth) s moves) := by
  induction moves using List.reverseRecOn with
  | nil => exact hp
  | append_singleton moves m ih =>
      rw [run_append_singleton]
      obtain ⟨hG, hP⟩ := faithful_license (hm m (by simp)) (run (perform depth) s moves)
      exact posted_passes hG hP (ih fun k hk => hm k (List.mem_append_left _ hk))
        (passes_permit depth m (wired_run depth hw moves))

/-! ## 2. Proved before -/

/-- **A node was proved when its runner was given new settings**, and the latest answer for it was valid
    then. -/
def ProvedBefore (depth : Nat) (first : Session) (moves : List Move) (r : RunnerId) (n : NodeId) : Prop :=
  ∃ earlier m later, moves = earlier ++ m :: later ∧
    m.refreshes (run (perform depth) first earlier) r = true ∧
    n ∈ ((run (perform depth) first earlier).runner r).core.solved ∧
    latestResult n ((run (perform depth) first earlier).deeds r) = some .valid

theorem ProvedBefore.append {depth : Nat} {first : Session} {moves : List Move}
    (h : ProvedBefore depth first moves r n) (m : Move) :
    ProvedBefore depth first (moves ++ [m]) r n := by
  obtain ⟨earlier, k, later, rfl, h⟩ := h
  exact ⟨earlier, k, later ++ [m], by simp, h⟩

/-- A move that gives new settings brings no answers. -/
theorem answers_of_refreshes (hm : m.refreshes s r = true) {k : RunnerId} {b : BatchId}
    {os : List Outcome} : ¬ (m.permit s).answers k b os := by
  rintro (rfl | ⟨o, rfl, _⟩) <;> cases hm

/-- While new settings are given, no node becomes proved. -/
theorem solved_of_refreshes (hf : m.isFaithful = true) (hp : Posted s) (hm : m.refreshes s r = true)
    (ht : Passes (m.permit s) s t) (hr : r < t.runners.length) (hn : n ∈ (t.runner r).core.solved) :
    n ∈ (s.runner r).core.solved := by
  obtain ⟨hG, hP⟩ := faithful_license hf s
  have hsub := stations_passes (I := fun k x => ∀ n ∈ x.core.solved, n ∈ (s.runner k).core.solved)
    hG hP (fun _ _ _ _ _ h => absurd h List.not_mem_nil)
    (fun _ ih hturn n hn => ?_) hp (fun _ _ _ h => h) ht
  · exact hsub r hr n hn
  · rcases hturn.solved hn with hn | ⟨batch, outcomes, ha, _⟩
    · exact ih n hn
    · exact absurd ha (answers_of_refreshes hm)

/-- **A proved node is confirmed, or it was proved before**; a move keeps that. -/
theorem confirmed_passes {depth : Nat} {first : Session} {moves : List Move}
    (hs : s = run (perform depth) first moves) (hf : m.isFaithful = true) (hp : Posted s)
    (h : ∀ r < s.runners.length, ∀ n ∈ (s.runner r).core.solved,
      ProvedBefore depth first moves r n ∨ Confirmed (s.station r) n)
    (ht : Passes (m.permit s) s t) :
    ∀ r < t.runners.length, ∀ n ∈ (t.runner r).core.solved,
      ProvedBefore depth first (moves ++ [m]) r n ∨ Confirmed (t.station r) n := by
  intro r hr n hn
  obtain ⟨hG, hP⟩ := faithful_license hf s
  cases hm : m.refreshes s r with
  | true =>
      -- it was proved when the move began
      have hn₀ := solved_of_refreshes hf hp hm ht hr hn
      have hr₀ : r < s.runners.length := by
        rcases Nat.lt_or_ge r s.runners.length with hlt | hge
        · exact hlt
        · rw [runner_of_le hge] at hn₀
          exact absurd hn₀ List.not_mem_nil
      left
      rcases h r hr₀ n hn₀ with hb | hc
      · exact hb.append m
      · subst hs
        exact ⟨moves, m, [], rfl, hm, hn₀, hc.latest⟩
  | false =>
      have hall := stations_passes (I := fun k x => m.refreshes s k = false → ∀ n ∈ x.core.solved,
          ProvedBefore depth first (moves ++ [m]) k n ∨ Confirmed x n)
        hG hP (fun _ _ _ _ _ _ h => absurd h List.not_mem_nil)
        (fun {k p x y} hsound ih hturn hk n hn => ?_) hp
        (fun k hk _ n hn => (h k hk n hn).imp (fun hb => hb.append m) id) ht
      · exact hall r hr hm n hn
      · rcases Station.solved_turn hsound hturn hn with hn₀ | hc
        · refine (ih hk n hn₀).imp id fun hc => Station.confirmed_turn hsound ?_ hturn hc hn
          show ¬ m.refreshes s k = true
          rw [hk]
          exact Bool.false_ne_true
        · exact Or.inr hc

theorem confirmed_run (depth : Nat) {first : Session} (hw : Wired first) (hp : Posted first)
    (h0 : first.runners = []) (moves : List Move) (hm : ∀ m ∈ moves, m.isFaithful = true) :
    ∀ r < (run (perform depth) first moves).runners.length,
      ∀ n ∈ ((run (perform depth) first moves).runner r).core.solved,
        ProvedBefore depth first moves r n ∨
          Confirmed ((run (perform depth) first moves).station r) n := by
  induction moves using List.reverseRecOn with
  | nil =>
      intro r hr
      rw [show run (perform depth) first [] = first from rfl, h0] at hr
      exact absurd hr (Nat.not_lt_zero _)
  | append_singleton moves m ih =>
      have hmoves : ∀ k ∈ moves, k.isFaithful = true := fun k hk => hm k (List.mem_append_left _ hk)
      rw [run_append_singleton]
      exact confirmed_passes rfl (hm m (by simp)) (posted_run depth hw hp moves hmoves) (ih hmoves)
        (passes_permit depth m (wired_run depth hw moves))

/-! ## 3. The latest answer -/

/-- **What a proved node says about the latest answer for it.** Take any number of proofs and any moves in
    which goals come from proofs, with any answers in any order, retries and new settings; let `t` be the
    session after them or any one on the way of a further move `m`. If a runner says there that a node is
    proved, it was proved, by its latest answer at that moment, when the runner was given new settings; or the
    latest answer for it is valid, and a conclusive answer for a sequent says otherwise only if another node
    has been answered so. -/
theorem solved_latest (depth : Nat) (proofs : List (String × Tree)) (settings : Settings)
    (moves : List Move) (m : Move) (hf : ∀ k ∈ moves ++ [m], k.isFaithful = true) {t : Session}
    (ht : Passes (m.permit (run (perform depth) (start proofs settings) moves))
      (run (perform depth) (start proofs settings) moves) t)
    {r : RunnerId} {n : NodeId} (hn : (t.runner r).core.isSolved n = true) :
    ProvedBefore depth (start proofs settings) (moves ++ [m]) r n ∨
    latestResult n (t.deeds r) = some .valid ∧
      ∀ q, (t.runner r).core.cachedResult q = some .invalid →
        ∃ x ∈ (t.runner r).core.problems, x.node ≠ n ∧ x.sequent = q ∧ x.result = some .invalid := by
  have hn' : n ∈ (t.runner r).core.solved := List.contains_iff_mem.mp hn
  have hr : r < t.runners.length := by
    rcases Nat.lt_or_ge r t.runners.length with hlt | hge
    · exact hlt
    · rw [runner_of_le hge] at hn'
      exact absurd hn' List.not_mem_nil
  have hw := wired_start proofs settings
  have hp := posted_start proofs settings
  have hmoves : ∀ k ∈ moves, k.isFaithful = true := fun k hk => hf k (List.mem_append_left _ hk)
  rcases confirmed_passes rfl (hf m (by simp)) (posted_run depth hw hp moves hmoves)
    (confirmed_run depth hw hp rfl moves hmoves) ht r hr n hn' with hb | hc
  · exact Or.inl hb
  · refine Or.inr ⟨hc.latest, fun q hq => ?_⟩
    obtain ⟨x, hx, he, hres⟩ := Runner.cachedResult_mem hq
    exact ⟨x, hx, fun e => hc.upheld x hx e hres, he, hres⟩

/-- A node is proved, then its runner gets new settings and hands it out once more. -/
theorem solved_latest_refreshed :
    let goal : Sequent := { succedent := ["a"] }
    let chosen : Settings := { solvers := .ofList [.z3] }
    let launch (b : BatchId) : Launch := { batch := b, settings := chosen, problems := [⟨0, goal⟩] }
    let moves : List Move := [.newRunner 0 chosen, .runner 0 .dispatch,
      .finish ⟨0, launch 1, .queued⟩ [{ node := 0, status := .valid }],
      .runner 0 (.refresh chosen), .runner 0 .dispatch]
    let m : Move := .finish ⟨0, launch 2, .queued⟩ [{ node := 0, status := .invalid }]
    let first := start [("p", .ofRoot goal)] chosen
    let s := run (perform 1) first moves
    let t := move (perform 1) s m
    (∀ k ∈ moves ++ [m], k.isFaithful = true) ∧ Passes (m.permit s) s t ∧
    (t.runner 0).core.isSolved 0 = true ∧
    (ProvedBefore 1 first (moves ++ [m]) 0 0 ∨
      latestResult 0 (t.deeds 0) = some .valid ∧
        ∀ q, (t.runner 0).core.cachedResult q = some .invalid →
          ∃ x ∈ (t.runner 0).core.problems, x.node ≠ 0 ∧ x.sequent = q ∧ x.result = some .invalid) := by
  intro goal chosen launch moves m first s t
  have hf : ∀ k ∈ moves ++ [m], k.isFaithful = true := by
    intro k hk
    simp only [moves, m, List.cons_append, List.nil_append, List.mem_cons, List.not_mem_nil, or_false] at hk
    rcases hk with rfl | rfl | rfl | rfl | rfl | rfl <;> rfl
  have ht : Passes (m.permit s) s t :=
    passes_permit 1 m (wired_run 1 (wired_start [("p", .ofRoot goal)] chosen) moves)
  have hn : (t.runner 0).core.isSolved 0 = true := by decide +kernel
  exact ⟨hf, ht, hn, solved_latest 1 [("p", .ofRoot goal)] chosen moves m hf ht hn⟩

/-- **New settings keep a node proved whatever is answered later**: a node is answered valid and, after new
    settings, invalid. It is still proved, though the latest answer for it, and the conclusive one for its
    sequent, is invalid. And without new settings, of two nodes with one sequent in one batch the first may be
    answered invalid and the second valid: the second is proved, and the conclusive answer for its sequent is
    that of the first. -/
theorem solved_outlives_refresh :
    let goal : Sequent := { succedent := ["a"] }
    let chosen : Settings := { solvers := .ofList [.z3] }
    let launch (b : BatchId) (goals : List Goal) : Launch :=
      { batch := b, settings := chosen, problems := goals }
    let t := run (perform 1) (start [("p", .ofRoot goal)] chosen)
      [.newRunner 0 chosen, .runner 0 .dispatch,
        .finish ⟨0, launch 1 [⟨0, goal⟩], .queued⟩ [{ node := 0, status := .valid }],
        .runner 0 (.refresh chosen), .runner 0 .dispatch,
        .finish ⟨0, launch 2 [⟨0, goal⟩], .queued⟩ [{ node := 0, status := .invalid }]]
    let u := run (perform 1) (start [("p", .ofGoals [goal, goal])] chosen)
      [.newRunner 0 chosen, .runner 0 .dispatch,
        .finish ⟨0, launch 1 [⟨1, goal⟩, ⟨2, goal⟩], .queued⟩
          [{ node := 1, status := .invalid }, { node := 2, status := .valid }]]
    ((t.runner 0).core.isSolved 0 = true ∧ latestResult 0 (t.deeds 0) = some .invalid ∧
      (t.runner 0).core.cachedResult goal = some .invalid) ∧
    (u.runner 0).core.isSolved 2 = true ∧ (u.proof 0).tree.sequent? 2 = some goal ∧
      (u.runner 0).core.cachedResult goal = some .invalid := by
  decide +kernel

end Session

end GoalWatch
