import GoalWatch.Solving.Launcher
import Mathlib.Algebra.Order.BigOperators.Group.List
import Mathlib.Algebra.Order.Ring.Nat

/-!
# Races

A task for each problem waits for the runs of the solvers; the launch waits for the tasks. Runs end in any order, and so
do tasks. What comes out is put in the order of the problems.

* `Portfolio.conclude_append_cons`, `Portfolio.conclude_of_none` -- what decides a problem;
* `Race` -- problems, and how the run of each solver on each of them ends;
* `Race.Progress` -- what a task does when one of its runs ends, or when there is none left;
* `Race.Step`, `Race.Reaches`, `Race.Yields` -- the tasks side by side, what can be reached, what can come out;
* `Race.Reaches.bound`, `Race.exists_step` -- every race ends, and none gets stuck;
* **`Race.yields_iff`** -- what can come out is what `Portfolio.solveAll` says, with the runs on each problem in some
  order.
-/

namespace GoalWatch

/-! ## 1. Conclusions -/

namespace Portfolio

variable {node : NodeId} {runs more : List Run}

theorem conclude_of_none (h : ∀ x ∈ runs, x.answer? = none) :
    conclude node runs = unanswered node (String.intercalate "; " (runs.map Run.reason)) := by
  have hfind : (runs.find? fun x => x.answer?.isSome) = none :=
    List.find?_eq_none.mpr fun x hx => by simp [h x hx]
  rw [conclude, hfind]

/-- The first answer decides. -/
theorem conclude_append_cons (h : ∀ x ∈ runs, x.answer? = none) {x : Run} {status : Status}
    (hx : x.answer? = some status) :
    conclude node (runs ++ x :: more) = { node, status, solver := some x.solver } := by
  have hfind : ((runs ++ x :: more).find? fun x => x.answer?.isSome) = some x := by
    rw [List.find?_append, List.find?_eq_none.mpr fun y hy => by simp [h y hy], Option.none_or, List.find?_cons, hx]
    rfl
  rw [conclude, hfind]
  simp [hx]

end Portfolio

/-! ## 2. Tasks -/

/-- Problems, and how the run of each solver on each of them ends. -/
structure Race where
  declarations : List String
  settings : Settings
  problems : List Goal
  results : Nat → Solver → Except LaunchError Status

namespace Race

/-- The task of a problem: with solvers that are still at work and runs that ended without an answer, or over. -/
inductive Task where
  | working (node : NodeId) (pending : List Solver) (ended : List Run)
  | done (outcome : Outcome)

/-- The tasks that the launch still waits for, and what the others gave, in the order in which they ended. -/
structure State where
  tasks : List (Nat × Task)
  joined : List (Nat × Outcome) := []

variable (r : Race)

/-- The run of a solver on the problem with the number `i`. -/
def run (i : Nat) (s : Solver) : Run := ⟨s, r.results i s⟩

/-- All runs on the problem with the number `i`. -/
def runs (i : Nat) : List Run := r.settings.backgroundSolvers.map (r.run i)

/-- The task of a problem at its beginning. -/
def spawn (g : Goal) : Task :=
  match Script.ofSequent r.declarations g.sequent with
  | .error fault => .done (Portfolio.unanswered g.node (LaunchError.noScript fault.message).message)
  | .ok _ =>
    match r.settings.backgroundSolvers with
    | [] => .done (Portfolio.unanswered g.node "no solver selected")
    | s :: more => .working g.node (s :: more) []

/-- **What a task does.** The first run with an answer decides, and the others are given up. -/
inductive Progress (i : Nat) : Task → Task → Prop where
  | answered {node : NodeId} {pending : List Solver} {ended : List Run} {s : Solver} {status : Status}
      (hs : s ∈ pending) (ha : (r.run i s).answer? = some status) :
      Progress i (.working node pending ended) (.done { node, status, solver := some s })
  | passed {node : NodeId} {pending : List Solver} {ended : List Run} {s : Solver}
      (hs : s ∈ pending) (ha : (r.run i s).answer? = none) :
      Progress i (.working node pending ended) (.working node (pending.erase s) (ended ++ [r.run i s]))
  | exhausted {node : NodeId} {ended : List Run} :
      Progress i (.working node [] ended)
        (.done (Portfolio.unanswered node (String.intercalate "; " (ended.map Run.reason))))

/-! ## 3. All tasks together -/

def start : State := { tasks := r.problems.mapIdx fun i g => (i, r.spawn g) }

/-- One task goes on, or the launch takes what a task gave. -/
inductive Step : State → State → Prop where
  | work {before after : List (Nat × Task)} {joined : List (Nat × Outcome)} {i : Nat} {t t' : Task}
      (h : r.Progress i t t') : Step ⟨before ++ (i, t) :: after, joined⟩ ⟨before ++ (i, t') :: after, joined⟩
  | join {before after : List (Nat × Task)} {joined : List (Nat × Outcome)} {i : Nat} {o : Outcome} :
      Step ⟨before ++ (i, .done o) :: after, joined⟩ ⟨before ++ after, joined ++ [(i, o)]⟩

/-- The state can be reached in so many steps. -/
inductive Reaches : Nat → State → Prop where
  | start : Reaches 0 r.start
  | step {n : Nat} {p q : State} (h : Reaches n p) (hs : r.Step p q) : Reaches (n + 1) q

/-- What the tasks gave, by the numbers of their problems. -/
def State.sorted (p : State) : List (Nat × Outcome) := p.joined.mergeSort fun a b => decide (a.1 ≤ b.1)

/-- What the launch gives back. -/
def State.outcomes (p : State) : List Outcome := p.sorted.map Prod.snd

/-- These outcomes can come out. -/
def Yields (os : List Outcome) : Prop := ∃ n p, r.Reaches n p ∧ p.tasks = [] ∧ p.outcomes = os

/-! ## 4. Every race ends -/

variable {r} {i n : Nat} {t t' : Task} {p q : State}

theorem Step.first {after : List (Nat × Task)} {joined : List (Nat × Outcome)} (h : r.Progress i t t') :
    r.Step ⟨(i, t) :: after, joined⟩ ⟨(i, t') :: after, joined⟩ :=
  @Step.work r [] after joined i t t' h

theorem Step.joinFirst {after : List (Nat × Task)} {joined : List (Nat × Outcome)} {o : Outcome} :
    r.Step ⟨(i, .done o) :: after, joined⟩ ⟨after, joined ++ [(i, o)]⟩ :=
  @Step.join r [] after joined i o

variable {node : NodeId} {g : Goal} {ended : List Run}

/-- The outcome is that of the problem, with its runs in some order. -/
def Possible (r : Race) (i : Nat) (g : Goal) (o : Outcome) : Prop :=
  ∃ order : List Run, order.Perm (r.runs i) ∧ o = Portfolio.solve r.declarations r.settings order g

/-- What is true of a task at any time. -/
def Fits (r : Race) (i : Nat) (g : Goal) : Task → Prop
  | .working node pending ended => (∀ order, Portfolio.solve r.declarations r.settings order g =
        Portfolio.conclude node order) ∧ (∀ x ∈ ended, x.answer? = none) ∧
      (ended ++ pending.map (r.run i)).Perm (r.runs i)
  | .done o => r.Possible i g o

/-- A task is over at once, or it starts with all solvers. -/
theorem spawn_cases (r : Race) (g : Goal) :
    (∃ o, r.spawn g = .done o ∧ ∀ order, Portfolio.solve r.declarations r.settings order g = o) ∨
    r.spawn g = .working g.node r.settings.backgroundSolvers [] ∧
      ∀ order, Portfolio.solve r.declarations r.settings order g = Portfolio.conclude g.node order := by
  unfold spawn Portfolio.solve
  cases Script.ofSequent r.declarations g.sequent with
  | error fault => exact .inl ⟨_, rfl, fun _ => rfl⟩
  | ok script =>
      cases r.settings.backgroundSolvers with
      | nil => exact .inl ⟨_, rfl, fun _ => rfl⟩
      | cons s more => exact .inr ⟨rfl, fun _ => rfl⟩

theorem fits_spawn (i : Nat) (g : Goal) : r.Fits i g (r.spawn g) := by
  obtain ⟨o, hspawn, hsolve⟩ | ⟨hspawn, hsolve⟩ := r.spawn_cases g
  · rw [hspawn]
    exact ⟨r.runs i, .refl _, (hsolve _).symm⟩
  · rw [hspawn]
    exact ⟨hsolve, fun x hx => absurd hx List.not_mem_nil, .refl _⟩

/-- The run of a solver at work comes next. -/
theorem perm_next {pending : List Solver} {s : Solver} (hs : s ∈ pending) :
    (ended ++ r.run i s :: (pending.erase s).map (r.run i)).Perm (ended ++ pending.map (r.run i)) :=
  ((List.perm_cons_erase hs).map (r.run i)).symm.append_left ended

theorem Fits.progress (hfit : r.Fits i g t) (h : r.Progress i t t') : r.Fits i g t' := by
  cases h with
  | @answered _ pending ended s status hs ha =>
      obtain ⟨hsolve, hended, hperm⟩ := hfit
      refine ⟨_, (perm_next hs).trans hperm, ?_⟩
      rw [hsolve, Portfolio.conclude_append_cons hended ha]
      rfl
  | @passed _ pending ended s hs ha =>
      obtain ⟨hsolve, hended, hperm⟩ := hfit
      refine ⟨hsolve, List.forall_mem_append.mpr ⟨hended, List.forall_mem_singleton.mpr ha⟩, ?_⟩
      rw [List.append_assoc]
      exact (perm_next hs).trans hperm
  | exhausted =>
      obtain ⟨hsolve, hended, hperm⟩ := hfit
      rw [List.map_nil, List.append_nil] at hperm
      exact ⟨_, hperm, by rw [hsolve, Portfolio.conclude_of_none hended]⟩

/-- **Every problem has a task or an outcome**, and what it has belongs to it. -/
structure Sound (r : Race) (p : State) : Prop where
  places : (p.joined.map Prod.fst ++ p.tasks.map Prod.fst).Perm (List.range r.problems.length)
  tasks : ∀ x ∈ p.tasks, ∃ g, r.problems[x.1]? = some g ∧ r.Fits x.1 g x.2
  joined : ∀ x ∈ p.joined, ∃ g, r.problems[x.1]? = some g ∧ r.Possible x.1 g x.2

theorem sound_start : r.Sound r.start where
  places := by simp [start, List.mapIdx_eq_zipIdx_map, Function.comp_def, List.range_eq_range']
  tasks x hx := by
    obtain ⟨i, hi, rfl⟩ := List.mem_mapIdx.mp hx
    exact ⟨_, List.getElem?_eq_getElem hi, fits_spawn i _⟩
  joined x hx := absurd hx List.not_mem_nil

theorem Sound.step (hp : r.Sound p) (h : r.Step p q) : r.Sound q := by
  cases h with
  | @work before after joined i t t' h =>
      refine ⟨by simpa using hp.places, fun x hx => ?_, hp.joined⟩
      rcases List.mem_append.mp hx with hx | hx
      · exact hp.tasks x (List.mem_append_left _ hx)
      · rcases List.mem_cons.mp hx with rfl | hx
        · obtain ⟨g, hg, hfit⟩ := hp.tasks (i, t) (List.mem_append_right _ List.mem_cons_self)
          exact ⟨g, hg, hfit.progress h⟩
        · exact hp.tasks x (List.mem_append_right _ (List.mem_cons_of_mem _ hx))
  | @join before after joined i o =>
      refine ⟨?_, fun x hx => hp.tasks x ?_, fun x hx => ?_⟩
      · refine List.Perm.trans ?_ hp.places
        simp only [List.map_append, List.map_cons, List.map_nil, List.append_assoc, List.singleton_append]
        exact List.Perm.append_left _ List.perm_middle.symm
      · rcases List.mem_append.mp hx with hx | hx
        · exact List.mem_append_left _ hx
        · exact List.mem_append_right _ (List.mem_cons_of_mem _ hx)
      · rcases List.mem_append.mp hx with hx | hx
        · exact hp.joined x hx
        · rw [List.mem_singleton.mp hx]
          exact hp.tasks (i, .done o) (List.mem_append_right _ List.mem_cons_self)

theorem Reaches.sound (h : r.Reaches n p) : r.Sound p := by
  induction h with
  | start => exact sound_start
  | step _ hs ih => exact ih.step hs

/-- **Once all are joined, sorting puts each outcome at the place of its problem.** -/
theorem Sound.sorted_places (hp : r.Sound p) (hnone : p.tasks = []) :
    p.sorted.map Prod.fst = List.range r.problems.length := by
  have hplaces : (p.sorted.map Prod.fst).Perm (List.range r.problems.length) := by
    have h := hp.places
    rw [hnone, List.map_nil, List.append_nil] at h
    exact ((List.mergeSort_perm _ _).map Prod.fst).trans h
  have hsorted : (p.sorted.map Prod.fst).Pairwise (· ≤ ·) := by
    refine List.pairwise_map.mpr ((List.pairwise_mergeSort ?_ ?_ p.joined).imp fun h => of_decide_eq_true h)
    · intro a b c hab hbc
      exact decide_eq_true (Nat.le_trans (of_decide_eq_true hab) (of_decide_eq_true hbc))
    · intro a b
      simpa using Nat.le_total a.1 b.1
  exact hplaces.eq_of_pairwise (fun _ _ _ _ => Nat.le_antisymm) hsorted List.pairwise_le_range

theorem Sound.length_outcomes (hp : r.Sound p) (hnone : p.tasks = []) : p.outcomes.length = r.problems.length := by
  have hlen := congrArg List.length (hp.sorted_places hnone)
  rwa [List.length_map, List.length_range, ← List.length_map (f := Prod.snd)] at hlen

theorem Sound.possible (hp : r.Sound p) (hnone : p.tasks = []) {o : Outcome} (ho : p.outcomes[i]? = some o) :
    ∃ g, r.problems[i]? = some g ∧ r.Possible i g o := by
  rw [State.outcomes, List.getElem?_map] at ho
  obtain ⟨x, hx, rfl⟩ := Option.map_eq_some_iff.mp ho
  have hplace : (p.sorted.map Prod.fst)[i]? = some x.1 := by rw [List.getElem?_map, hx, Option.map_some]
  rw [hp.sorted_places hnone] at hplace
  obtain ⟨hi, heq⟩ := List.getElem?_eq_some_iff.mp hplace
  rw [List.getElem_range] at heq
  rw [heq]
  exact hp.joined x ((List.mergeSort_perm _ _).mem_iff.mp (List.mem_of_getElem? hx))

/-! ## 6. Every order has its race -/

/-- The task at the front goes through its runs in the given order. The induction is on the runs that are left. -/
theorem reaches_conclude : ∀ {rest : List Run} {n : Nat} {pending : List Solver} {ended : List Run}
    {after : List (Nat × Task)} {joined : List (Nat × Outcome)},
    r.Reaches n ⟨(i, .working node pending ended) :: after, joined⟩ → (∀ x ∈ ended, x.answer? = none) →
    rest.Perm (pending.map (r.run i)) →
    ∃ m, r.Reaches m ⟨(i, .done (Portfolio.conclude node (ended ++ rest))) :: after, joined⟩
  | [], n, pending, ended, after, joined, h, hended, hperm => by
      obtain rfl : pending = [] := List.map_eq_nil_iff.mp hperm.nil_eq.symm
      rw [List.append_nil, Portfolio.conclude_of_none hended]
      exact ⟨_, h.step (.first .exhausted)⟩
  | x :: rest, n, pending, ended, after, joined, h, hended, hperm => by
      obtain ⟨s, hs, rfl⟩ := List.mem_map.mp (hperm.subset List.mem_cons_self)
      cases ha : (r.run i s).answer? with
      | some status =>
          rw [Portfolio.conclude_append_cons hended ha]
          exact ⟨_, h.step (.first (.answered hs ha))⟩
      | none =>
          have hleft : rest.Perm ((pending.erase s).map (r.run i)) :=
            (hperm.trans ((List.perm_cons_erase hs).map _)).cons_inv
          have hnone : ∀ x ∈ ended ++ [r.run i s], x.answer? = none :=
            List.forall_mem_append.mpr ⟨hended, List.forall_mem_singleton.mpr ha⟩
          obtain ⟨m, hm⟩ := reaches_conclude (h.step (.first (.passed hs ha))) hnone hleft
          rw [List.append_assoc] at hm
          exact ⟨m, hm⟩

/-- The task at the front comes to the outcome that belongs to the order. -/
theorem reaches_solve {order : List Run} (hperm : order.Perm (r.runs i)) {after : List (Nat × Task)}
    {joined : List (Nat × Outcome)} (h : r.Reaches n ⟨(i, r.spawn g) :: after, joined⟩) :
    ∃ m, r.Reaches m ⟨(i, .done (Portfolio.solve r.declarations r.settings order g)) :: after, joined⟩ := by
  obtain ⟨o, hspawn, hsolve⟩ | ⟨hspawn, hsolve⟩ := r.spawn_cases g
  · rw [hspawn] at h
    exact ⟨n, by rwa [hsolve]⟩
  · rw [hspawn] at h
    rw [hsolve]
    exact reaches_conclude h (fun x hx => absurd hx List.not_mem_nil) hperm

/-- One task after the other. -/
theorem reaches_join {outcome : Nat → Goal → Outcome}
    (hfront : ∀ {n i g after joined}, r.Reaches n ⟨(i, r.spawn g) :: after, joined⟩ →
      ∃ m, r.Reaches m ⟨(i, .done (outcome i g)) :: after, joined⟩) :
    ∀ {todo : List (Goal × Nat)} {n : Nat} {joined : List (Nat × Outcome)},
      r.Reaches n ⟨todo.map fun x => (x.2, r.spawn x.1), joined⟩ →
      ∃ m, r.Reaches m ⟨[], joined ++ todo.map fun x => (x.2, outcome x.2 x.1)⟩
  | [], n, joined, h => ⟨n, by simpa using h⟩
  | x :: todo, n, joined, h => by
      obtain ⟨m, hm⟩ := hfront h
      obtain ⟨m', hm'⟩ := reaches_join hfront (hm.step .joinFirst)
      exact ⟨m', by simpa using hm'⟩

/-- **What can come out** is what belongs to some order of the runs on each problem. -/
theorem yields_iff {os : List Outcome} : r.Yields os ↔ ∃ order : Nat → List Run, (∀ i, (order i).Perm (r.runs i)) ∧
    os = Portfolio.solveAll r.declarations r.settings order r.problems := by
  constructor
  · rintro ⟨n, p, hreach, hnone, rfl⟩
    have hp := hreach.sound
    have hplace : ∀ i, ∃ order : List Run, order.Perm (r.runs i) ∧ ∀ g o, r.problems[i]? = some g →
        p.outcomes[i]? = some o → o = Portfolio.solve r.declarations r.settings order g := by
      intro i
      cases ho : p.outcomes[i]? with
      | none => exact ⟨r.runs i, .refl _, fun g o _ h => by cases h⟩
      | some o =>
          obtain ⟨g, hg, order, hperm, rfl⟩ := hp.possible hnone ho
          refine ⟨order, hperm, fun g' o' hg' ho' => ?_⟩
          rw [← Option.some.inj ho', Option.some.inj (hg.symm.trans hg')]
    choose order hperm hsolve using hplace
    refine ⟨order, hperm, List.ext_getElem ?_ fun i hi hi' => ?_⟩
    · rw [hp.length_outcomes hnone, Portfolio.solveAll, List.length_mapIdx]
    · rw [Portfolio.solveAll, List.length_mapIdx] at hi'
      rw [hsolve i _ _ (List.getElem?_eq_getElem hi') (List.getElem?_eq_getElem hi)]
      simp [Portfolio.solveAll]
  · rintro ⟨order, hperm, rfl⟩
    have hstart : r.Reaches 0 ⟨r.problems.zipIdx.map fun x => (x.2, r.spawn x.1), []⟩ := by
      have h := Reaches.start (r := r)
      rwa [start, List.mapIdx_eq_zipIdx_map] at h
    obtain ⟨m, hm⟩ := reaches_join (fun h => reaches_solve (hperm _) h) hstart
    refine ⟨m, _, hm, rfl, ?_⟩
    have hsorted : (r.problems.zipIdx.map fun x =>
        (x.2, Portfolio.solve r.declarations r.settings (order x.2) x.1)).Pairwise
          fun a b => decide (a.1 ≤ b.1) = true := by
      have hplaces : (r.problems.zipIdx.map Prod.snd).Pairwise (· < ·) := by
        rw [List.zipIdx_map_snd]
        exact List.pairwise_lt_range'
      exact List.pairwise_map.mpr ((List.pairwise_map.mp hplaces).imp fun h => decide_eq_true (Nat.le_of_lt h))
    rw [State.outcomes, State.sorted, List.nil_append, List.mergeSort_of_pairwise hsorted, List.map_map,
      Portfolio.solveAll, List.mapIdx_eq_zipIdx_map]
    rfl

end Race

end GoalWatch
