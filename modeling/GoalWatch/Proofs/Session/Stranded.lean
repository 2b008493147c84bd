import GoalWatch.Proofs.Session.Calm.Moves
import GoalWatch.Proofs.Session.Lifecycle

/-!
# Goals that are left behind

A runner that takes batches should have every open goal of its tree in hand. It has, but for one kind of
goal: one that was handed out and given up again, and that no dispatch picked up since.

* `Runner.Covers` -- a goal is in flight, or has a result, or an equal sequent has a conclusive one;
* `Session.Stranded` -- all batches of a goal were given up, and nothing else answers for it;
* `covers_iff_not_stranded` -- the active runner covers exactly the open goals that are not stranded;
* `goal_left_behind` -- a stranded goal, after a proof was left and selected again in automatic mode.
-/

namespace GoalWatch

/-- The runner has the goal in hand: it is in flight, it has a result, or its sequent has a conclusive one. -/
def Runner.Covers (c : Runner) (g : Goal) : Prop :=
  (∃ x ∈ c.problems, x.node = g.node ∧ x.batch ∈ c.inFlight) ∨
  (∃ x ∈ c.problems, x.node = g.node ∧ x.result.isSome = true) ∨
  (c.cachedResult g.sequent).isSome = true

instance (c : Runner) (g : Goal) : Decidable (c.Covers g) :=
  inferInstanceAs (Decidable (_ ∨ _ ∨ _))

namespace Session

/-- The goal was handed out, every batch it was handed out in has been given up, and no equal sequent has a
    conclusive result. -/
structure Stranded (s : Session) (r : RunnerId) (g : Goal) : Prop where
  handedOut : ∃ x ∈ (s.runner r).core.problems, x.node = g.node
  givenUp : ∀ x ∈ (s.runner r).core.problems, x.node = g.node → .stopped r x.batch ∈ s.log
  uncached : (s.runner r).core.cachedResult g.sequent = none

variable {s : Session} {p : ProofId} {r : RunnerId}

theorem deed?_eq_stopped {e : Entry} {b : BatchId} :
    e.deed? r = some (.stopped b) ↔ e = .stopped r b := by
  cases e <;> simp [Entry.deed?]

/-- The launcher was told to give up a batch iff that is written down. -/
theorem stops_pos {b : BatchId} : 0 < stops (s.deeds r) b ↔ .stopped r b ∈ s.log := by
  unfold stops deeds
  rw [List.count_pos_iff, List.mem_filterMap]
  constructor
  · rintro ⟨e, he, hd⟩
    exact deed?_eq_stopped.mp hd ▸ he
  · exact fun h => ⟨_, h, deed?_eq_stopped.mpr rfl⟩

/-- **A problem is open and out of flight iff its batch was given up.** -/
theorem given_up_iff (h : (s.runner r).core.Accounted (s.deeds r)) {x : Problem}
    (hx : x ∈ (s.runner r).core.problems) :
    .stopped r x.batch ∈ s.log ↔ x.batch ∉ (s.runner r).core.inFlight ∧ x.result = none := by
  obtain ⟨hissued, hres⟩ := h.answered x hx
  rw [← stops_pos, hres]
  rcases h.fate _ hissued with ⟨hf, hc, hs⟩ | ⟨hf, hc, hs⟩ | ⟨hf, hc, hs⟩
  · rw [hs]
    exact ⟨fun h => absurd h (Nat.lt_irrefl 0), fun h => absurd hf h.1⟩
  · rw [hs, hc]
    exact ⟨fun h => absurd h (Nat.lt_irrefl 0), fun h => absurd h.2 Nat.one_ne_zero⟩
  · rw [hs]
    exact ⟨fun _ => ⟨hf, hc⟩, fun _ => Nat.one_pos⟩

/-- An open goal that the active runner does not cover has been handed out. -/
theorem Settled.handedOut (h : Settled s) (hact : s.registry.active = some p)
    (he : s.registry.runnerFor? p = some r) (ha : (s.runner r).core.accepting = true)
    (hs : (s.runner r).core.settings.hasSolvers = true) {g : Goal} (hg : g ∈ (s.proof p).tree.goals)
    (hc : (s.runner r).core.cachedResult g.sequent = none) :
    ∃ x ∈ (s.runner r).core.problems, x.node = g.node := by
  rcases h.attends p r hact he ha hs g hg with hd | hcached
  · exact (h.tended p r he).tends.entry g.node hd (Runner.contains_of_mem_goals hg)
  · rw [hc] at hcached
    cases hcached

/-- **The active runner covers exactly the open goals that are not stranded.** Take any proofs and any moves
    of users and of the launcher, with no event held back. While the runner of the active proof takes batches
    and has a solver, an open goal of the proof is in flight, has a result or shares a conclusive one, unless
    every batch it was handed out in was given up. -/
theorem covers_iff_not_stranded (depth : Nat) (proofs : List (String × Tree)) (settings : Settings)
    (moves : List Move) (hm : ∀ m ∈ moves, m.isPlain proofs.length = true) {s : Session}
    (hrun : s = run (perform depth) (start proofs settings) moves) {p : ProofId} {r : RunnerId}
    (hact : s.registry.active = some p) (he : s.registry.runnerFor? p = some r)
    (ha : (s.runner r).core.closed = false ∧ (s.runner r).core.suspended = false)
    (hs : (s.runner r).core.settings.hasSolvers = true) {g : Goal} (hg : g ∈ (s.proof p).tree.goals) :
    (s.runner r).core.Covers g ↔ ¬ Stranded s r g := by
  have hset : Settled s := hrun ▸ settled_run depth proofs settings moves hm
  have hacc := (hrun ▸ accounted_run depth proofs settings moves : Hosts Runner.Accounted s).hosted r
    (hset.tended p r he).runnerIn
  have hopen : (s.runner r).core.accepting = true := by
    rw [Runner.accepting, ha.1, ha.2]
    rfl
  constructor
  · rintro (⟨x, hx, hn, hf⟩ | ⟨x, hx, hn, hres⟩ | hcached) hstr
    · exact ((given_up_iff hacc hx).mp (hstr.givenUp x hx hn)).1 hf
    · rw [((given_up_iff hacc hx).mp (hstr.givenUp x hx hn)).2] at hres
      cases hres
    · rw [hstr.uncached] at hcached
      cases hcached
  · intro hnot
    by_contra hcov
    simp only [Runner.Covers, not_or, not_exists, not_and] at hcov
    obtain ⟨hflight, hres, hcached⟩ := hcov
    have hnone : (s.runner r).core.cachedResult g.sequent = none := by
      simpa using hcached
    refine hnot ⟨hset.handedOut hact he hopen hs hg hnone, fun x hx hn => ?_, hnone⟩
    exact (given_up_iff hacc hx).mpr ⟨hflight x hx hn, by simpa using hres x hx hn⟩

/-- A proof is left and selected again: its goal was given up and handed out once more. -/
theorem covers_iff_not_stranded_reselected :
    let chosen : Settings := { solvers := .ofList [.z3] }
    let a : Goal := ⟨1, { succedent := ["a"] }⟩
    let b : Goal := ⟨1, { succedent := ["b"] }⟩
    let proofs := [("p", Tree.ofGoals [a.sequent]), ("q", Tree.ofGoals [b.sequent])]
    let moves : List Move := [.select 0, .select 1, .select 0]
    let s := run (perform 1) (start proofs chosen) moves
    (∀ m ∈ moves, m.isPlain proofs.length = true) ∧ s.registry.active = some 0 ∧
      s.registry.runnerFor? 0 = some 0 ∧ (s.runner 0).core.closed = false ∧
      (s.runner 0).core.suspended = false ∧ (s.runner 0).core.settings.hasSolvers = true ∧
      a ∈ (s.proof 0).tree.goals ∧ .stopped 0 1 ∈ s.log ∧ (s.runner 0).core.Covers a ∧
      ¬ Stranded s 0 a := by
  intro chosen a b proofs moves s
  have hm : ∀ m ∈ moves, m.isPlain proofs.length = true := by decide +kernel
  have hact : s.registry.active = some 0 := by decide +kernel
  have he : s.registry.runnerFor? 0 = some 0 := by decide +kernel
  have ha : (s.runner 0).core.closed = false ∧ (s.runner 0).core.suspended = false := by decide +kernel
  have hs : (s.runner 0).core.settings.hasSolvers = true := by decide +kernel
  have hg : a ∈ (s.proof 0).tree.goals := by decide +kernel
  have hstop : .stopped 0 1 ∈ s.log := by decide +kernel
  have hcov : (s.runner 0).core.Covers a := by decide +kernel
  have hrun : s = run (perform 1) (start proofs chosen) moves := rfl
  have hiff := covers_iff_not_stranded 1 proofs chosen moves hm (s := s) hrun (p := 0) (r := 0) hact he ha hs
    (g := a) hg
  exact ⟨hm, hact, he, ha.1, ha.2, hs, hg, hstop, hcov, hiff.mp hcov⟩

/-- **A goal that is left behind.** A proof is left and selected again while it is in automatic mode. No
    dispatch happens then, and the one that happens at the end of the automatic mode passes over the goal. -/
theorem goal_left_behind :
    let chosen : Settings := { solvers := .ofList [.z3] }
    let a : Goal := ⟨1, { succedent := ["a"] }⟩
    let b : Goal := ⟨1, { succedent := ["b"] }⟩
    let proofs := [("p", Tree.ofGoals [a.sequent]), ("q", Tree.ofGoals [b.sequent])]
    let moves : List Move := [.select 0, .select 1, .proof 0 .startAuto, .select 0, .proof 0 .stopAuto]
    let s := run (perform 1) (start proofs chosen) moves
    (∀ m ∈ moves, m.isPlain proofs.length = true) ∧ s.registry.active = some 0 ∧
      s.registry.runnerFor? 0 = some 0 ∧ (s.runner 0).core.closed = false ∧
      (s.runner 0).core.suspended = false ∧ (s.runner 0).core.settings.hasSolvers = true ∧
      a ∈ (s.proof 0).tree.goals ∧ ¬ (s.runner 0).core.Covers a := by
  decide +kernel

end Session

end GoalWatch
