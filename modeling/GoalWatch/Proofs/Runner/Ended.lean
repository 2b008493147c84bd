import GoalWatch.Proofs.Runner.Act

/-!
# Runners that have ended

* `Runner.Ended` -- closed, not suspended, and with nothing in its memory;
* `ended_close` -- whoever is closed has ended;
* `ended_act` -- what a runner does that has ended leaves no mark;
* **`ended_acts`** -- and so does anything after it.
-/

namespace GoalWatch.Runner

variable {c c' : Runner} {ds : List Deed}

/-- **The runner has ended**: it is closed and has forgotten all. -/
structure Ended (c : Runner) : Prop where
  closed : c.closed = true
  suspended : c.suspended = false
  inFlight : c.inFlight = []
  dispatched : c.dispatched = []
  solved : c.solved = []
  problems : c.problems = []

theorem not_ended (h : c.closed = false) : ¬ c.Ended := fun hended => by
  cases h.symm.trans hended.closed

theorem ended_close (h : c.closed = false) : c.close.2.Ended := by
  unfold close
  rw [if_neg (by rw [h]; decide)]
  exact ⟨rfl, rfl, rfl, rfl, rfl, rfl⟩

/-- A runner that has ended cannot be closed again. -/
theorem close_of_closed (h : c.closed = true) : c.close = ([], c) := by
  unfold close
  rw [if_pos h]

theorem dispatch_of_closed (h : c.closed = true) (mode : Mode) (goals : List Goal) :
    c.dispatch mode goals = (none, { c with nextBatch := c.nextBatch + 1 }) := by
  rcases dispatch_cases c mode goals with ⟨e, _⟩ | ⟨hacc, _⟩
  · exact e
  · simp [accepting, h] at hacc

/-- **Whatever happens to a runner that has ended**, it leaves no mark and hands out nothing. -/
theorem ended_act (h : c.Ended) (ha : Act c ds c') : ds = [] ∧ c'.Ended ∧ c'.launches = c.launches := by
  cases ha with
  | dispatch mode goals =>
      rw [dispatch_of_closed h.closed]
      exact ⟨rfl, ⟨h.closed, h.suspended, h.inFlight, h.dispatched, h.solved, h.problems⟩, rfl⟩
  | suspend =>
      rw [suspend, if_pos h.closed]
      exact ⟨rfl, h, rfl⟩
  | unsuspend =>
      rw [unsuspend, if_pos h.closed]
      exact ⟨rfl, h, rfl⟩
  | setSolvers solvers =>
      exact ⟨rfl, ⟨h.closed, h.suspended, h.inFlight, h.dispatched, h.solved, h.problems⟩, rfl⟩
  | complete hc =>
      have hb := (complete_cases.mp hc).1
      rw [h.inFlight] at hb
      exact absurd hb List.not_mem_nil
  | stopAll =>
      refine ⟨?_, ⟨h.closed, h.suspended, rfl, h.dispatched, h.solved, h.problems⟩, rfl⟩
      rw [stopAll, h.inFlight]
      rfl
  | refresh settings =>
      refine ⟨?_, ⟨h.closed, h.suspended, rfl, rfl, h.solved, rfl⟩, rfl⟩
      rw [refresh, h.inFlight]
      rfl
  | close =>
      rw [close_of_closed h.closed]
      exact ⟨rfl, h, rfl⟩

/-- **A runner that has ended stays as it is**, whatever else happens to it. -/
theorem ended_acts (h : c.Ended) (ha : Acts c ds c') : ds = [] ∧ c'.Ended ∧ c'.launches = c.launches := by
  induction ha with
  | start => exact ⟨rfl, h, rfl⟩
  | more _ ha ih =>
      obtain ⟨hds, hended, hlaunches⟩ := ih
      obtain ⟨hes, hended', hlaunches'⟩ := ended_act hended ha
      exact ⟨by rw [hds, hes]; rfl, hended', hlaunches'.trans hlaunches⟩

/-- Who is closed has ended, and this stays so. -/
theorem act_closed (h : c.closed = true → c.Ended) (ha : Act c ds c') : c'.closed = true → c'.Ended := by
  intro hclosed
  cases hc : c.closed with
  | true => exact (ended_act (h hc) ha).2.1
  | false =>
      -- only closing makes a closed runner of one that is not
      cases ha with
      | close => exact ended_close hc
      | dispatch mode goals =>
          rcases dispatch_cases c mode goals with ⟨e, _⟩ | ⟨_, _, _, e⟩ <;>
            · rw [e] at hclosed
              cases hc.symm.trans hclosed
      | suspend =>
          unfold suspend at hclosed
          split at hclosed <;> cases hc.symm.trans hclosed
      | unsuspend =>
          unfold unsuspend at hclosed
          split at hclosed <;> cases hc.symm.trans hclosed
      | complete h' =>
          obtain ⟨_, rfl⟩ := complete_cases.mp h'
          cases hc.symm.trans hclosed
      | setSolvers | stopAll | refresh => cases hc.symm.trans hclosed

theorem acts_closed (h : c.closed = true → c.Ended) (ha : Acts c ds c') : c'.closed = true → c'.Ended := by
  induction ha with
  | start => exact h
  | more _ ha ih => exact act_closed ih ha

end GoalWatch.Runner
