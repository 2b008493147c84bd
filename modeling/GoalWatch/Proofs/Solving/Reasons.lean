import GoalWatch.Solving.Launcher

/-!
# Why a problem has no answer

An outcome without an answer says why. That no solver was selected is said of settings without a solver that
can answer in the background, and of no others: every other reason starts with a capital letter.

* `isCapitalised` -- a text starts with a capital letter;
* `capitalised_message`, `capitalised_reason` -- what a run leaves behind is such a text;
* `solve_reason_iff` -- when no solver was selected;
* `launch_reason` -- no outcome of a launch says so if its settings have a solver.
-/

namespace GoalWatch

/-- The text starts with a capital letter. -/
def isCapitalised (s : String) : Bool := s.toList.head?.any Char.isUpper

theorem capitalised_append {s : String} (h : isCapitalised s = true) (t : String) :
    isCapitalised (s ++ t) = true := by
  unfold isCapitalised at h ⊢
  rw [String.toList_append]
  cases hs : s.toList with
  | nil => simp [hs] at h
  | cons c rest => simpa [hs] using h

theorem capitalised_name (s : Solver) : isCapitalised s.name = true := by cases s <;> decide +kernel

theorem capitalised_message (e : LaunchError) : isCapitalised e.message = true := by
  cases e with
  | noScript reason => exact capitalised_append (by decide +kernel) reason
  | notInstalled s | timedOut s => exact capitalised_append (capitalised_name s) _
  | spawn s reason | io s reason =>
      exact capitalised_append (capitalised_append (capitalised_append (by decide +kernel) _) _) reason
  | limiterClosed => decide +kernel

theorem capitalised_reason (r : Run) : isCapitalised r.reason = true := by
  unfold Run.reason
  split
  · exact capitalised_append (capitalised_name _) _
  · exact capitalised_message _

/-- What several runs leave behind starts as what the first of them does. -/
theorem capitalised_reasons (r : Run) (rest : List Run) :
    isCapitalised (String.intercalate "; " ((r :: rest).map Run.reason)) = true := by
  cases rest with
  | nil =>
      rw [List.map_singleton, String.intercalate_singleton]
      exact capitalised_reason r
  | cons r' rest =>
      rw [List.map_cons, List.map_cons, String.intercalate_cons_cons]
      exact capitalised_append (capitalised_append (capitalised_reason r) _) _

theorem Settings.backgroundSolvers_eq_nil_iff (s : Settings) :
    s.backgroundSolvers = [] ↔ s.hasSolvers = false := by
  unfold backgroundSolvers hasSolvers SolverSet.any
  rw [List.filter_eq_nil_iff, List.any_eq_false]

namespace Portfolio

variable {declarations : List String} {settings : Settings}

/-- A text with a small first letter is no reason that runs leave behind. -/
theorem conclude_reason (node : NodeId) (runs : List Run) :
    (conclude node runs).reason ≠ some "no solver selected" := by
  have hsmall : isCapitalised "no solver selected" = false := by decide +kernel
  unfold conclude
  split
  · simp
  · intro h
    cases runs with
    | nil => exact absurd (Option.some.inj h) (by decide +kernel)
    | cons r rest =>
        have hcap := capitalised_reasons r rest
        rw [Option.some.inj h, hsmall] at hcap
        cases hcap

/-- **That no solver was selected** is said of a problem that can be written down, if no chosen solver can
    answer in the background. -/
theorem solve_reason_iff (runs : List Run) (g : Goal) :
    (solve declarations settings runs g).reason = some "no solver selected" ↔
      (Script.ofSequent declarations g.sequent).isOk = true ∧ settings.hasSolvers = false := by
  unfold solve
  cases Script.ofSequent declarations g.sequent with
  | error fault =>
      have hcap := capitalised_message (.noScript fault.message)
      simp only [unanswered, Option.some.injEq, Except.isOk, Except.toBool, Bool.false_eq_true, false_and,
        iff_false]
      intro h
      rw [h] at hcap
      exact absurd hcap (by decide +kernel)
  | ok script =>
      simp only [Except.isOk, Except.toBool, true_and]
      rw [← settings.backgroundSolvers_eq_nil_iff]
      split
      · rename_i hnil
        simp [unanswered, hnil]
      · rename_i hne
        exact ⟨fun h => absurd h (conclude_reason _ _), fun h => absurd h hne⟩

theorem solveAll_reason (h : settings.hasSolvers = true) {runs : Nat → List Run} {problems : List Goal}
    {o : Outcome} (ho : o ∈ solveAll declarations settings runs problems) :
    o.reason ≠ some "no solver selected" := by
  obtain ⟨i, hi, rfl⟩ := List.mem_mapIdx.mp ho
  intro hr
  rw [((solve_reason_iff _ _).mp hr).2] at h
  cases h

end Portfolio

/-- **No outcome of a launch says that no solver was selected**, if its settings have one. -/
theorem Launcher.launch_reason (launcher : Launcher) {l : Launch} (h : l.settings.hasSolvers = true)
    {o : Outcome} (ho : o ∈ launcher.launch l) : o.reason ≠ some "no solver selected" :=
  Portfolio.solveAll_reason h ho

end GoalWatch
