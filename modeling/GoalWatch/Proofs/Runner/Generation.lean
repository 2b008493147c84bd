import GoalWatch.Proofs.Runner.Consistent
import GoalWatch.Proofs.Solving.Reasons

/-!
# What a runner hands out between two refreshes

A runner keeps in mind which nodes it handed out until its settings are refreshed or it ends. Unless it is told
to start over, it hands out none of them again.

* `Runner.launch?` -- what an operation hands out; `Runner.launched`, `Runner.handedOut` -- what operations do;
* `Runner.Operation.repeats` -- the operation starts over, and may hand out a node once more;
* `Runner.Handing`, `handing` -- all that an operation can do to the nodes that a runner keeps in mind;
* `nodup_handedOut` -- no node is handed out twice, nor one that was handed out before;
* `mem_dispatched_run` -- the nodes kept in mind are those that were handed out;
* **`handed_out_once`** -- both for every run, with every launch fit for its launcher.
-/

namespace GoalWatch

/-- The nodes of a launch. -/
def Launch.nodes (l : Launch) : List NodeId := l.problems.map Goal.node

namespace Runner

/-! ## 1. What operations hand out -/

/-- The operation gives the runner new settings to start over with. -/
def Operation.isRefresh : Operation → Bool
  | .refreshSettings _ => true
  | _ => false

/-- The operation may hand out once more what was handed out before. -/
def Operation.repeats : Operation → Bool
  | .resume _ | .refreshSettings _ | .setSolvers .. | .handOut .retry _ => true
  | _ => false

/-- What an operation hands out. -/
def launch? (c : Runner) : Operation → Option Launch
  | .dispatchOpenGoals goals | .ruleApplied goals => (c.dispatchOpen .fresh goals).1
  | .treeChanged goals => if c.closed then none else (c.dispatchOpen .fresh goals).1
  | .resume goals => (c.dispatchOpen .retry goals).1
  | .autoModeStopped goals => (c.unsuspend.dispatchOpen .fresh goals).1
  | .setSolvers solvers goals => ((c.setSolvers solvers).dispatchOpen .retry goals).1
  | .handOut mode goals => (c.dispatch mode goals).1
  | .autoModeStarted | .completed .. | .refreshSettings _ | .stopAll | .close => none

/-- What operations hand out, in order. -/
def launched : Runner → List Operation → List Launch
  | _, [] => []
  | c, o :: rest => (c.launch? o).toList ++ launched (c.operate o) rest

/-- The nodes that operations hand out, in order and as often as they do. -/
def handedOut (c : Runner) (operations : List Operation) : List NodeId :=
  (c.launched operations).flatMap Launch.nodes

variable {c : Runner} {o : Operation} {l : Launch} {n : NodeId} {operations : List Operation}

theorem handedOut_cons (c : Runner) (o : Operation) (rest : List Operation) :
    c.handedOut (o :: rest) = (c.launch? o).toList.flatMap Launch.nodes ++ (c.operate o).handedOut rest :=
  List.flatMap_append

/-! ## 2. One operation -/

/-- **What an operation does to the nodes that a runner keeps in mind.** -/
inductive Handing (c : Runner) (o : Operation) : Prop where
  /-- Nothing is handed out and nothing forgotten. -/
  | idle (hl : c.launch? o = none) (hd : (c.operate o).dispatched = c.dispatched)
      (hc : (c.operate o).closed = c.closed)
  /-- All are forgotten, by a refresh or at the end. -/
  | cleared (hl : c.launch? o = none) (hd : (c.operate o).dispatched = [])
      (h : o.isRefresh = true ∧ (c.operate o).closed = c.closed ∨ (c.operate o).closed = true)
  /-- Goals are handed out, with the settings and the automatic mode that the operation brings. -/
  | handsOut (d : Runner) (mode : Mode) (goals : List Goal) (hd : d.dispatched = c.dispatched)
      (hc : d.closed = c.closed) (hm : o.repeats = false → mode = .fresh)
      (ha : d.accepting = true) (hs : d.settings.hasSolvers = true) (hne : d.pick mode goals ≠ [])
      (hl : c.launch? o = some (d.launchOf (d.pick mode goals)))
      (ho : c.operate o = d.afterLaunch (d.pick mode goals))

section Handing

variable {d : Runner} {mode : Mode} {goals : List Goal} (hd : d.dispatched = c.dispatched)
  (hc : d.closed = c.closed) (hm : o.repeats = false → mode = .fresh)

include hd hc hm

theorem handing_dispatch (hl : c.launch? o = (d.dispatch mode goals).1)
    (ho : c.operate o = (d.dispatch mode goals).2) : Handing c o := by
  rcases dispatch_cases d mode goals with ⟨e, _⟩ | ⟨ha, hs, hne, e⟩
  · rw [e] at hl ho
    exact .idle hl (by rw [ho, ← hd]) (by rw [ho, ← hc])
  · rw [e] at hl ho
    exact .handsOut d mode goals hd hc hm ha hs hne hl ho

theorem handing_dispatchOpen (hl : c.launch? o = (d.dispatchOpen mode goals).1)
    (ho : c.operate o = (d.dispatchOpen mode goals).2) : Handing c o := by
  unfold dispatchOpen at hl ho
  split at hl
  · rename_i ha
    rw [if_pos ha] at ho
    exact handing_dispatch hd hc hm hl ho
  · rename_i ha
    rw [if_neg ha] at ho
    exact .idle hl (by rw [ho, hd]) (by rw [ho, hc])

end Handing

theorem handing (c : Runner) (o : Operation) : Handing c o := by
  cases o with
  | dispatchOpenGoals goals | ruleApplied goals | resume goals =>
      exact handing_dispatchOpen rfl rfl (by simp [Operation.repeats]) rfl rfl
  | treeChanged goals =>
      by_cases h : c.closed = true
      · exact .idle (if_pos h) (congrArg _ (if_pos h)) (congrArg _ (if_pos h))
      · exact handing_dispatchOpen rfl rfl (fun _ => rfl) (if_neg h) (if_neg h)
  | autoModeStarted =>
      refine .idle rfl ?_ ?_ <;> simp only [operate, suspend] <;> split <;> rfl
  | autoModeStopped goals =>
      refine handing_dispatchOpen (d := c.unsuspend) ?_ ?_ (fun _ => rfl) rfl rfl <;>
        unfold unsuspend <;> split <;> rfl
  | completed found kept batch outcomes =>
      cases h : c.complete found kept batch outcomes with
      | none => refine .idle rfl ?_ ?_ <;> simp [operate, h]
      | some c' =>
          obtain ⟨_, rfl⟩ := complete_cases.mp h
          refine .idle rfl ?_ ?_ <;> simp [operate, h, afterAnswers]
  | refreshSettings settings => exact .cleared rfl rfl (Or.inl ⟨rfl, rfl⟩)
  | setSolvers solvers goals =>
      exact handing_dispatchOpen (d := c.setSolvers solvers) rfl rfl (fun h => by cases h) rfl rfl
  | stopAll => exact .idle rfl rfl rfl
  | close =>
      by_cases h : c.closed = true
      · refine .idle rfl ?_ ?_ <;> simp [operate, close, h]
      · refine .cleared rfl ?_ (Or.inr ?_) <;> simp [operate, close, h]
  | handOut mode goals =>
      refine handing_dispatch rfl rfl (fun h => ?_) rfl rfl
      cases mode with
      | fresh => rfl
      | retry => cases h

theorem closed_of_accepting (h : c.accepting = true) : c.closed = false := by
  simp only [accepting, Bool.and_eq_true, Bool.not_eq_true'] at h
  exact h.1

/-- **What an operation hands out**: at least one goal, each node once, to a solver that can answer; no node
    that is kept in mind, unless it starts over. -/
theorem launch?_spec (h : c.launch? o = some l) :
    c.closed = false ∧ l.problems ≠ [] ∧ l.settings.hasSolvers = true ∧ l.nodes.Nodup ∧
    (o.repeats = false → ∀ n ∈ l.nodes, n ∉ c.dispatched) := by
  cases handing c o with
  | idle hl | cleared hl =>
      rw [hl] at h
      cases h
  | handsOut d mode goals hd hc hm ha hs hne hl ho =>
      rw [hl] at h
      cases h
      refine ⟨hc ▸ closed_of_accepting ha, hne, hs, pick_nodup d mode goals, fun hr n hn => ?_⟩
      obtain ⟨g, hg, rfl⟩ := List.mem_map.mp hn
      have hskip := (List.mem_filter.mp hg).2
      simpa [hm hr, skips, hd] using hskip

/-- **A node is kept in mind if it was or is handed out**, unless the operation makes the runner forget. -/
theorem mem_dispatched_operate (hr : o.isRefresh = false) (hopen : (c.operate o).closed = false) :
    n ∈ (c.operate o).dispatched ↔ n ∈ c.dispatched ∨ n ∈ (c.launch? o).toList.flatMap Launch.nodes := by
  cases handing c o with
  | idle hl hd => simp [hl, hd]
  | cleared _ _ h =>
      rcases h with ⟨h, _⟩ | h
      · rw [h] at hr
        cases hr
      · rw [h] at hopen
        cases hopen
  | handsOut d mode goals hd _ _ _ _ _ hl ho =>
      rw [hl, ho, ← hd]
      simp [afterLaunch, launchOf, mem_addNodes, Launch.nodes]

theorem closed_operate (h : c.closed = true) (o : Operation) : (c.operate o).closed = true := by
  cases handing c o with
  | idle _ _ hc => rw [hc, h]
  | cleared _ _ hc => exact hc.elim (fun hc => hc.2.trans h) id
  | handsOut d mode goals _ hc _ ha => exact absurd (hc.trans h) (by simp [closed_of_accepting ha])

/-- A runner that has ended keeps nothing in mind. -/
theorem dispatched_operate_closed (h : c.closed = true → c.dispatched = []) (o : Operation)
    (hend : (c.operate o).closed = true) : (c.operate o).dispatched = [] := by
  cases handing c o with
  | idle _ hd hc => rw [hd, h (hc ▸ hend)]
  | cleared _ hd _ => exact hd
  | handsOut d mode goals _ _ _ ha _ _ _ ho =>
      rw [ho] at hend
      exact absurd (closed_of_accepting ha) (by rw [show d.closed = true from hend]; decide)

/-! ## 3. Any operations -/

theorem closed_operations (h : c.closed = true) (operations : List Operation) :
    (operations.foldl operate c).closed = true := by
  induction operations generalizing c with
  | nil => exact h
  | cons o rest ih => exact ih (closed_operate h o)

theorem handedOut_closed (h : c.closed = true) (operations : List Operation) :
    c.handedOut operations = [] := by
  induction operations generalizing c with
  | nil => rfl
  | cons o rest ih =>
      have hl : c.launch? o = none := by
        refine Option.eq_none_iff_forall_not_mem.mpr fun l hl => ?_
        rw [(launch?_spec hl).1] at h
        cases h
      rw [handedOut_cons, hl, ih (closed_operate h o)]
      rfl

/-- **No node is handed out twice**, nor one that is kept in mind from before. -/
theorem nodup_handedOut (h : ∀ o ∈ operations, o.repeats = false) :
    (c.handedOut operations).Nodup ∧ ∀ n ∈ c.handedOut operations, n ∉ c.dispatched := by
  induction operations generalizing c with
  | nil => exact ⟨List.nodup_nil, fun _ hn => absurd hn List.not_mem_nil⟩
  | cons o rest ih =>
      have ho := h o List.mem_cons_self
      have hrefresh : o.isRefresh = false := by cases o <;> first | rfl | cases ho
      obtain ⟨hnodup, hnew⟩ := ih (c := c.operate o) fun o ho => h o (List.mem_cons_of_mem _ ho)
      -- what comes later is not among what is kept in mind by then, unless nothing comes later
      have hlater : ∀ n ∈ (c.operate o).handedOut rest,
          ¬ (n ∈ c.dispatched ∨ n ∈ (c.launch? o).toList.flatMap Launch.nodes) := by
        intro n hn
        cases hc : (c.operate o).closed with
        | true =>
            rw [handedOut_closed hc] at hn
            exact absurd hn List.not_mem_nil
        | false =>
            rw [← mem_dispatched_operate hrefresh hc]
            exact hnew n hn
      rw [handedOut_cons]
      cases hl : c.launch? o with
      | none =>
          rw [hl] at hlater
          exact ⟨hnodup, fun n hn => fun hd => hlater n hn (Or.inl hd)⟩
      | some l =>
          rw [hl] at hlater
          obtain ⟨_, _, _, hnodes, hfresh⟩ := launch?_spec hl
          simp only [Option.toList_some, List.flatMap_singleton] at hlater ⊢
          refine ⟨List.Nodup.append hnodes hnodup fun n hn hn' => hlater n hn' (Or.inr hn), fun n hn => ?_⟩
          rcases List.mem_append.mp hn with hn | hn
          · exact hfresh ho n hn
          · exact fun hd => hlater n hn (Or.inl hd)

/-- **The nodes kept in mind are those that were handed out**, as long as nothing is forgotten. -/
theorem mem_dispatched_run (h : ∀ o ∈ operations, o.isRefresh = false)
    (hopen : (operations.foldl operate c).closed = false) :
    n ∈ (operations.foldl operate c).dispatched ↔ n ∈ c.dispatched ∨ n ∈ c.handedOut operations := by
  induction operations generalizing c with
  | nil => simp [handedOut, launched]
  | cons o rest ih =>
      have hc : (c.operate o).closed = false := by
        refine Bool.eq_false_iff.mpr fun hc => ?_
        rw [List.foldl_cons, closed_operations hc] at hopen
        cases hopen
      rw [List.foldl_cons, ih (fun o ho => h o (List.mem_cons_of_mem _ ho)) hopen,
        mem_dispatched_operate (h o List.mem_cons_self) hc, handedOut_cons, List.mem_append, or_assoc]

theorem dispatched_run_closed (h : c.closed = true → c.dispatched = []) (operations : List Operation)
    (hc : (operations.foldl operate c).closed = true) : (operations.foldl operate c).dispatched = [] := by
  induction operations generalizing c with
  | nil => exact h hc
  | cons o rest ih => exact ih (dispatched_operate_closed h o) hc

theorem launch?_of_mem_launched (h : l ∈ c.launched operations) :
    ∃ d : Runner, ∃ o, d.launch? o = some l := by
  induction operations generalizing c with
  | nil => exact absurd h List.not_mem_nil
  | cons o rest ih =>
      rcases List.mem_append.mp h with h | h
      · exact ⟨c, o, Option.mem_toList.mp h⟩
      · exact ih h

/-! ## 4. Every run -/

/-- **Each node is handed out once.** Take a runner after any operations, `c`, and any further ones that lead
    to `d`, whatever the proof answers. If none of the latter starts over, no node is handed out twice by
    them, be it in one launch or in two. If the former are none or end with a refresh, and the latter have
    none, then a runner that is open keeps in mind exactly the nodes that the latter handed out; one that has
    ended keeps nothing in mind. And every launch has a goal and a solver that can answer in the
    background, so no launcher answers that no solver was selected. -/
theorem handed_out_once (settings : Settings) (earlier later : List Operation) :
    let c := earlier.foldl operate { settings }
    let d := later.foldl operate c
    ((∀ o ∈ later, o.repeats = false) → (c.handedOut later).Nodup) ∧
    ((earlier = [] ∨ ∃ before chosen, earlier = before ++ [.refreshSettings chosen]) →
      (∀ o ∈ later, o.isRefresh = false) → d.closed = false →
      ∀ n, n ∈ d.dispatched ↔ n ∈ c.handedOut later) ∧
    (d.closed = true → d.dispatched = []) ∧
    ∀ l ∈ c.launched later, l.problems ≠ [] ∧ l.settings.hasSolvers = true ∧
      ∀ launcher : Launcher, ∀ x ∈ launcher.launch l, x.reason ≠ some "no solver selected" := by
  intro c d
  refine ⟨fun h => (nodup_handedOut h).1, fun hstart h hopen n => ?_, fun hc => ?_, fun l hl => ?_⟩
  · have hnone : c.dispatched = [] := by
      rcases hstart with rfl | ⟨before, chosen, rfl⟩
      · rfl
      · show ((before ++ [Operation.refreshSettings chosen]).foldl operate { settings }).dispatched = []
        rw [List.foldl_append]
        rfl
    rw [mem_dispatched_run h hopen, hnone]
    simp
  · refine dispatched_run_closed (fun h => ?_) later hc
    exact dispatched_run_closed (fun _ => rfl) earlier h
  · obtain ⟨b, o, ho⟩ := launch?_of_mem_launched hl
    obtain ⟨_, hne, hs, _⟩ := launch?_spec ho
    exact ⟨hne, hs, fun launcher x hx => launcher.launch_reason hs hx⟩

/-- A proof lists a goal twice, is asked again after a batch was given up, and grows by a goal; before, the
    settings were refreshed while the same goal was in flight. -/
theorem handed_out_once_grown :
    let chosen : Settings := { solvers := .ofList [.z3] }
    let a : Goal := ⟨1, { succedent := ["a"] }⟩
    let b : Goal := ⟨2, { succedent := ["b"] }⟩
    let earlier : List Operation := [.dispatchOpenGoals [a], .refreshSettings chosen]
    let later : List Operation := [.dispatchOpenGoals [a, a], .stopAll, .treeChanged [a], .autoModeStarted,
      .ruleApplied [b, a], .autoModeStopped [a, b, b]]
    let c := earlier.foldl operate { settings := chosen }
    let d := later.foldl operate c
    c.handedOut later = [1, 2] ∧ d.dispatched = [1, 2] ∧ (c.handedOut later).Nodup ∧
    (∀ n, n ∈ d.dispatched ↔ n ∈ c.handedOut later) ∧
    ∀ l ∈ c.launched later, l.problems ≠ [] ∧ l.settings.hasSolvers = true ∧
      ∀ launcher : Launcher, ∀ x ∈ launcher.launch l, x.reason ≠ some "no solver selected" := by
  intro chosen a b earlier later c d
  have h := handed_out_once chosen earlier later
  refine ⟨by decide, by decide, h.1 (by decide), h.2.1 (Or.inr ⟨[.dispatchOpenGoals [a]], chosen, rfl⟩)
    (by decide) (by decide), h.2.2.2⟩

end Runner

end GoalWatch
