import GoalWatch.Proofs.Runner.Consistent
import Mathlib.Data.List.Induction

/-!
# What a dispatch hands out

A runner is shown a list of goals, of any length, in which a node may stand any number of times. It hands out the
goals that are due, each at the first place of its node, as one batch; shown the same list again, it has nothing
left to hand out.

* `FirstAt` -- a goal at its place, before which its node does not occur;
* `places`, `filterMap_places` -- the places of the goals that count and pass a test, in ascending order;
* `Runner.Due` -- the goal is to be handed out;
* `skips_of_first` -- after a dispatch every goal that counts is left out, be it for an old reason or a new one;
* **`dispatch_exact`** -- what a dispatch hands out, what it brings about, and that doing it again does nothing.
-/

namespace GoalWatch

/-! ## 1. Places -/

/-- The goal stands at this place, and its node at none before. -/
def FirstAt (goals : List Goal) (i : Nat) (g : Goal) : Prop :=
  goals[i]? = some g ∧ ∀ h ∈ goals.take i, h.node ≠ g.node

/-- The places of the goals that are first of their node and pass the test. -/
def places (test : Goal → Bool) (goals : List Goal) : List Nat :=
  (List.range goals.length).filter fun i =>
    goals[i]?.any fun g => test g && (goals.take i).all fun h => h.node != g.node

variable {test : Goal → Bool} {goals : List Goal} {g : Goal} {i : Nat}

theorem FirstAt.lt (h : FirstAt goals i g) : i < goals.length := (List.getElem?_eq_some_iff.mp h.1).1

theorem mem_places : i ∈ places test goals ↔ ∃ g, FirstAt goals i g ∧ test g = true := by
  have htest : i ∈ places test goals ↔ i < goals.length ∧ ∃ g, FirstAt goals i g ∧ test g = true := by
    simp only [places, List.mem_filter, List.mem_range, Option.any_eq_true, Bool.and_eq_true, List.all_eq_true,
      bne_iff_ne, FirstAt]
    refine and_congr_right fun _ => exists_congr fun g => ?_
    tauto
  rw [htest]
  refine ⟨And.right, fun h => ⟨?_, h⟩⟩
  obtain ⟨g, hg, _⟩ := h
  exact hg.lt

theorem places_pairwise (test : Goal → Bool) (goals : List Goal) : (places test goals).Pairwise (· < ·) :=
  List.pairwise_lt_range.filter _

/-- A goal that comes last counts if its node did not occur before. -/
theorem places_concat (test : Goal → Bool) (goals : List Goal) (g : Goal) :
    places test (goals ++ [g]) =
      places test goals ++ if test g && goals.all fun h => h.node != g.node then [goals.length] else [] := by
  unfold places
  rw [List.length_append, List.length_singleton, List.range_succ, List.filter_append]
  congr 1
  · refine List.filter_congr fun i hi => ?_
    have hlt : i < goals.length := List.mem_range.mp hi
    rw [List.getElem?_append_left hlt, List.take_append_of_le_length (Nat.le_of_lt hlt)]
  · rw [List.filter_singleton, List.getElem?_concat_length, List.take_left, Bool.cond_eq_ite]
    rfl

/-- **The goals that count and pass the test, by their places.** -/
theorem filterMap_places (test : Goal → Bool) (goals : List Goal) :
    (places test goals).filterMap (goals[·]?) = (firstPerNode goals).filter test := by
  induction goals using List.reverseRecOn with
  | nil => rfl
  | append_singleton goals g ih =>
      have hold : (places test goals).filterMap ((goals ++ [g])[·]?) = (places test goals).filterMap (goals[·]?) := by
        refine List.filterMap_congr fun i hi => ?_
        obtain ⟨_, hfirst, _⟩ := mem_places.mp hi
        exact List.getElem?_append_left hfirst.lt
      have hnew : (!(goals.map Goal.node).contains g.node) = goals.all fun h => h.node != g.node := by
        rw [List.contains_eq_any_beq, List.any_map, List.not_any_eq_all_not]
        refine congrArg goals.all (funext fun h => ?_)
        exact congrArg not BEq.comm
      rw [places_concat, List.filterMap_append, hold, ih, firstPerNode_append, List.filter_append]
      congr 1
      rw [show firstPerNode [g] = [g] from rfl, List.filter_filter, List.filter_singleton, hnew,
        Bool.cond_eq_ite]
      by_cases hg : (test g && goals.all fun h => h.node != g.node) = true
      · rw [if_pos hg, if_pos hg, List.filterMap_cons, List.getElem?_concat_length]
        rfl
      · rw [if_neg hg, if_neg hg]
        rfl

namespace Runner

variable {c : Runner} {mode : Mode} {picked : List Goal} {n : NodeId}

/-! ## 2. Goals that are due -/

/-- The goal is to be handed out: its node was not handed out yet or, in a second attempt, does not run, and
    its sequent has no conclusive answer. -/
def Due (c : Runner) : Mode → Goal → Prop
  | .fresh, g => g.node ∉ c.dispatched
  | .retry, g => c.isRunning g.node = false ∧ c.cachedResult g.sequent = none

theorem due_iff : c.Due mode g ↔ (!c.skips mode g) = true := by
  cases mode with
  | fresh => simp [Due, skips]
  | retry => simp [Due, skips]

/-! ## 3. After a launch -/

/-- What runs goes on. -/
theorem isRunning_afterLaunch (picked : List Goal) (h : c.isRunning n = true) :
    (c.afterLaunch picked).isRunning n = true := by
  obtain ⟨p, hp, hn⟩ := List.any_eq_true.mp h
  refine List.any_eq_true.mpr ⟨p, List.mem_append_left _ hp, ?_⟩
  simp only [Bool.and_eq_true, List.contains_iff_mem] at hn ⊢
  exact ⟨hn.1, List.mem_append_left _ hn.2⟩

/-- What is handed out runs. -/
theorem isRunning_launched (c : Runner) (hg : g ∈ picked) : (c.afterLaunch picked).isRunning g.node = true := by
  refine List.any_eq_true.mpr
    ⟨{ node := g.node, sequent := g.sequent, batch := c.nextBatch }, ?_, ?_⟩
  · exact List.mem_append_right _ (List.mem_map_of_mem hg)
  · simp [afterLaunch]

/-- Answers are not there yet. -/
theorem cachedResult_afterLaunch (c : Runner) (picked : List Goal) (q : Sequent) :
    (c.afterLaunch picked).cachedResult q = c.cachedResult q := by
  have hnew : (((picked.map fun g => ({ node := g.node, sequent := g.sequent, batch := c.nextBatch } : Problem)).filter
      fun p => p.sequent = q).filterMap Problem.result) = [] := by
    refine List.filterMap_eq_nil_iff.mpr fun p hp => ?_
    obtain ⟨g, _, rfl⟩ := List.mem_map.mp (List.mem_filter.mp hp).1
    rfl
  unfold cachedResult
  rw [show (c.afterLaunch picked).problems = c.problems ++ picked.map fun g =>
    { node := g.node, sequent := g.sequent, batch := c.nextBatch } from rfl, List.filter_append,
    List.filterMap_append, hnew, List.append_nil]

/-- What was left out stays so. -/
theorem skips_afterLaunch (picked : List Goal) (h : c.skips mode g = true) :
    (c.afterLaunch picked).skips mode g = true := by
  cases mode with
  | fresh => exact List.contains_iff_mem.mpr (mem_addNodes.mpr (Or.inl (List.contains_iff_mem.mp h)))
  | retry =>
      refine (Bool.or_eq_true _ _).mpr (((Bool.or_eq_true _ _).mp h).imp (isRunning_afterLaunch picked) fun h => ?_)
      rw [cachedResult_afterLaunch]
      exact h

/-- What was handed out is left out. -/
theorem skips_launched (c : Runner) (mode : Mode) (hg : g ∈ picked) : (c.afterLaunch picked).skips mode g = true := by
  cases mode with
  | fresh => exact List.contains_iff_mem.mpr (mem_addNodes.mpr (Or.inr ⟨g, hg, rfl⟩))
  | retry => exact (Bool.or_eq_true _ _).mpr (Or.inl (isRunning_launched c hg))

/-- **After a dispatch every goal that counts is left out**, for the reason it had before or as one that was
    handed out. -/
theorem skips_of_first (hg : g ∈ firstPerNode goals) :
    (c.afterLaunch (c.pick mode goals)).skips mode g = true := by
  cases h : c.skips mode g with
  | true => exact skips_afterLaunch _ h
  | false => exact skips_launched c mode (List.mem_filter.mpr ⟨hg, by rw [h]; rfl⟩)

theorem skips_of_pick_eq_nil (h : c.pick mode goals = []) (hg : g ∈ firstPerNode goals) : c.skips mode g = true := by
  simpa using List.filter_eq_nil_iff.mp h g hg

/-! ## 4. Dispatching once and again -/

section Accepting

variable (hacc : c.accepting = true) (hs : c.settings.hasSolvers = true)

include hacc hs

/-- What a runner that takes batches does. -/
theorem dispatchOpen_pick (mode : Mode) (goals : List Goal) :
    c.dispatchOpen mode goals =
      if c.pick mode goals = [] then (none, { c with nextBatch := c.nextBatch + 1 })
      else (some (c.launchOf (c.pick mode goals)), c.afterLaunch (c.pick mode goals)) := by
  rw [dispatchOpen, if_pos hacc]
  rcases dispatch_cases c mode goals with ⟨e, hnil⟩ | ⟨_, _, hne, e⟩
  · rw [e, if_pos (hnil hacc hs)]
  · rw [e, if_neg hne]

/-- **A dispatch leaves no goal due** of those that count; it changes neither the settings nor whether batches
    are taken. -/
theorem skips_dispatchOpen (hg : g ∈ firstPerNode goals) :
    (c.dispatchOpen mode goals).2.skips mode g = true := by
  rw [dispatchOpen_pick hacc hs]
  split
  · rename_i hnil
    have h := skips_of_pick_eq_nil hnil hg
    cases mode with
    | fresh | retry => exact h
  · exact skips_of_first hg

theorem dispatchOpen_twice (mode : Mode) (goals : List Goal) :
    let d := (c.dispatchOpen mode goals).2
    d.dispatchOpen mode goals = (none, { d with nextBatch := d.nextBatch + 1 }) := by
  intro d
  have hd : d.accepting = true ∧ d.settings.hasSolvers = true := by
    show (c.dispatchOpen mode goals).2.accepting = true ∧ (c.dispatchOpen mode goals).2.settings.hasSolvers = true
    rw [dispatchOpen_pick hacc hs]
    split <;> exact ⟨hacc, hs⟩
  have hnil : d.pick mode goals = [] := by
    refine List.filter_eq_nil_iff.mpr fun g hg => ?_
    rw [skips_dispatchOpen hacc hs hg]
    decide
  rw [dispatchOpen_pick hd.1 hd.2, if_pos hnil]

end Accepting

/-- **What a dispatch hands out**, for every runner that takes batches and has a solver, and every list of goals.
    Only the goals that are first of their node count. Those of them that are due, at ascending places of the list,
    are handed out as one batch; if there are none, nothing changes but the number of the next batch. Afterwards
    every node of the list was handed out or, in a second attempt on goals of different nodes, runs or has a
    conclusive answer for its sequent. The same dispatch again hands out nothing and changes nothing but the number of the
    next batch. -/
theorem dispatch_exact (c : Runner) (hacc : c.accepting = true) (hs : c.settings.hasSolvers = true) (mode : Mode)
    (goals : List Goal) :
    let d := (c.dispatchOpen mode goals).2
    (∃ chosen : List Nat, chosen.Pairwise (· < ·) ∧ (∀ i, i ∈ chosen ↔ ∃ g, FirstAt goals i g ∧ c.Due mode g) ∧
      c.dispatchOpen mode goals =
        if chosen = [] then (none, { c with nextBatch := c.nextBatch + 1 })
        else (some (c.launchOf (chosen.filterMap (goals[·]?))), c.afterLaunch (chosen.filterMap (goals[·]?)))) ∧
    (mode = .fresh → ∀ g ∈ goals, g.node ∈ d.dispatched) ∧
    (mode = .retry → (goals.map Goal.node).Nodup → ∀ g ∈ goals,
      d.isRunning g.node = true ∨ (d.cachedResult g.sequent).isSome = true) ∧
    d.dispatchOpen mode goals = (none, { d with nextBatch := d.nextBatch + 1 }) := by
  intro d
  have hskips : ∀ g ∈ firstPerNode goals, d.skips mode g = true := fun g hg => skips_dispatchOpen hacc hs hg
  refine ⟨⟨places (fun g => !c.skips mode g) goals, places_pairwise _ goals, fun i => ?_, ?_⟩, ?_, ?_,
    dispatchOpen_twice hacc hs mode goals⟩
  · simp only [mem_places, due_iff]
  · have hpick : (places (fun g => !c.skips mode g) goals).filterMap (goals[·]?) = c.pick mode goals :=
      filterMap_places _ goals
    have hnil : places (fun g => !c.skips mode g) goals = [] ↔ c.pick mode goals = [] := by
      refine ⟨fun h => by rw [← hpick, h]; rfl, fun h => List.eq_nil_iff_forall_not_mem.mpr fun i hi => ?_⟩
      obtain ⟨g, hfirst, _⟩ := mem_places.mp hi
      exact absurd (List.mem_filterMap.mpr ⟨i, hi, hfirst.1⟩) (by rw [hpick, h]; exact List.not_mem_nil)
    rw [hpick, dispatchOpen_pick hacc hs]
    simp only [hnil]
  · rintro rfl g hg
    obtain ⟨x, hx, he⟩ := exists_mem_firstPerNode hg
    rw [← he]
    exact List.contains_iff_mem.mp (hskips x hx)
  · rintro rfl hnodup g hg
    have hfirst : g ∈ firstPerNode goals := by rwa [firstPerNode_eq_self hnodup]
    exact (Bool.or_eq_true _ _).mp (hskips g hfirst)

/-- A second attempt when node 1 was proved, 2 came back unknown, 3 was given up and 4 is in flight. The list has node 2
    twice, once with the sequent of 1; node 5 has that sequent too, and 6 is new. -/
theorem dispatch_exact_second_attempt :
    let a : Sequent := .goal "a"
    let b : Goal := ⟨2, .goal "b"⟩
    let operations : List Operation :=
      [.dispatchOpenGoals [⟨1, a⟩, b], .completed (fun _ => true) (fun _ => true) 1 [⟨1, .valid, none, none⟩],
        .ruleApplied [⟨3, .goal "c"⟩], .stopAll, .ruleApplied [⟨4, .goal "d"⟩]]
    let c := operations.foldl operate { settings := { solvers := .ofList [.z3] } }
    let goals : List Goal := [⟨5, a⟩, b, ⟨4, .goal "d"⟩, ⟨2, a⟩, ⟨3, .goal "c"⟩, ⟨6, .goal "e"⟩]
    let d := (c.dispatchOpen .retry goals).2
    let others : List Goal := [⟨5, a⟩, b, ⟨4, .goal "d"⟩]
    c.accepting = true ∧ c.settings.hasSolvers = true ∧
    (c.dispatchOpen .retry goals).1.map (·.problems) = some [b, ⟨3, .goal "c"⟩, ⟨6, .goal "e"⟩] ∧
    d.dispatchOpen .retry goals = (none, { d with nextBatch := d.nextBatch + 1 }) ∧
    (∀ g ∈ goals, g.node ∈ (c.dispatchOpen .fresh goals).2.dispatched) ∧
    ∀ g ∈ others, (c.dispatchOpen .retry others).2.isRunning g.node = true ∨
      ((c.dispatchOpen .retry others).2.cachedResult g.sequent).isSome = true := by
  intro a b operations c goals d others
  have hacc : c.accepting = true := by decide +kernel
  have hs : c.settings.hasSolvers = true := by decide +kernel
  obtain ⟨_, _, _, hagain⟩ := dispatch_exact c hacc hs .retry goals
  obtain ⟨_, hfresh, _, _⟩ := dispatch_exact c hacc hs .fresh goals
  obtain ⟨_, _, hretry, _⟩ := dispatch_exact c hacc hs .retry others
  exact ⟨hacc, hs, by decide +kernel, hagain, hfresh rfl, hretry rfl (by decide +kernel)⟩

end Runner

end GoalWatch
