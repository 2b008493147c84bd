import GoalWatch.Proofs.Session.Flow
import GoalWatch.Proofs.Session.Outdated
import GoalWatch.Session.Report

/-!
# What applying a report changes

A report lists proved nodes of one proof, but only by their numbers, and what is selected in it is applied to
whatever proof is active then. So it reaches another proof exactly if that one is active and has an open goal with
a number that is selected and proved there too.

* `Report.Edit`, `nodes_edits` -- a selection is made in a report, which lists the same nodes then;
* `Session.Candid` -- clients only look on, and proofs answer for themselves;
* `unedited_applyResult` -- only the active proof may change when a result is applied;
* `tree_applyResult`, `goals_applyResults` -- goals are closed, and none is opened;
* `tree_applyResults_iff` -- the active proof stays as it is iff nothing can be applied;
* **`report_spares_others_iff`** -- when a report leaves all other proofs alone;
* `report_closes_other_proof` -- it does not always.
-/

namespace GoalWatch

/-! ## 1. Selections -/

namespace Report

/-- What a user does to the selection of a report. -/
inductive Edit where
  | selectAll (value : Bool)
  | toggle (n : NodeId)

def edit (t : Report) : Edit → Report
  | .selectAll value => t.selectAll value
  | .toggle n => t.toggle n

theorem nodes_toggleRows (n : NodeId) (rows : List ReportRow) :
    (toggleRows n rows).map ReportRow.node = rows.map ReportRow.node := by
  fun_induction toggleRows n rows with
  | case1 => rfl
  | case2 => rfl
  | case3 x rest _ ih => rw [List.map_cons, List.map_cons, ih]

theorem nodes_edits (edits : List Edit) (t : Report) :
    (edits.foldl edit t).rows.map ReportRow.node = t.rows.map ReportRow.node := by
  induction edits generalizing t with
  | nil => rfl
  | cons e rest ih =>
      refine (ih (t.edit e)).trans ?_
      cases e with
      | selectAll value =>
          show (t.rows.map fun x => { x with selected := value }).map ReportRow.node = _
          rw [List.map_map]
          rfl
      | toggle n => exact nodes_toggleRows n t.rows

end Report

namespace Session

variable {again : Again} {A : Intervention → Prop} {b s s' : Session} {p q : ProofId} {r : RunnerId} {n : NodeId}

/-- Whatever is selected in a report was proved when the report was made. -/
theorem solved_of_selected {edits : List Report.Edit}
    (h : n ∈ (edits.foldl Report.edit (s.report r).1).selected) : n ∈ (s.runner r).core.solved := by
  obtain ⟨row, hrow, rfl⟩ := List.mem_map.mp h
  have hn : row.node ∈ (s.report r).1.rows.map ReportRow.node := by
    rw [← Report.nodes_edits edits]
    exact List.mem_map_of_mem (List.mem_filter.mp hrow).1
  obtain ⟨x, hx, e⟩ := List.mem_map.mp hn
  obtain ⟨m, hm, rfl⟩ := List.mem_map.mp hx
  rw [← e]
  exact (List.mem_filter.mp hm).1

/-! ## 2. Sessions without interference -/

/-- **Clients only look on, and proofs answer for themselves.** -/
structure Candid (s : Session) : Prop extends Passive s where
  plain : ∀ p, (s.proof p).facade = {}

theorem plain_beat (hA : ∀ p tree facade, ¬ A (.present p tree facade)) (h : (s.proof p).facade = {})
    (hs : Beat A b s s') : (s'.proof p).facade = {} := by
  cases hs with
  | note | desk | enrol | clients | tasks | host | act => exact h
  | shown _ e =>
      rw [proof_heed]
      exact h
  | watch q f hf =>
      rcases proof_modifyProof_cases (s := s) (p := q) (q := p) f with e | ⟨_, _, e⟩
      · rw [e]
        exact h
      · rw [e]
        rcases (hf (s.proof p)).facade with e | e
        · rw [e, h]
        · rw [e, h]
  | subscribe q k =>
      rcases proof_modifyProof_cases (s := s) (p := q) (q := p) (Watched.addSubscriber (.client k)) with
        e | ⟨_, _, e⟩ <;> rw [e] <;> exact h
  | enlist q settings =>
      rcases proof_enlist_cases (s := s) (p := q) (q := p) settings with e | ⟨_, e⟩ <;> rw [e] <;> exact h
  | @byHand i hi =>
      cases i with
      | present q tree facade => exact absurd hi (hA q tree facade)
      | settings | refresh | setSolvers | unsuspend | activate => exact h

theorem Flow.plain (hA : ∀ p tree facade, ¬ A (.present p tree facade)) (h : Flow A b s)
    (hb : (b.proof p).facade = {}) : (s.proof p).facade = {} :=
  flow_keep (I := fun s => (s.proof p).facade = {}) (fun _ => plain_beat hA) hb h

theorem candid_start (proofs : List (String × Tree)) (settings : Settings) : Candid (start proofs settings) where
  toWired := wired_start proofs settings
  sink _ h := absurd h List.not_mem_nil
  listener _ h := absurd h List.not_mem_nil
  plain p := by
    unfold start proof
    simp only [List.getD_eq_getElem?_getD, List.getElem?_map]
    cases proofs[p]? <;> rfl

/-- A proof goes on answering for itself, unless it is replaced. -/
theorem plain_move (ha : Steady again) {m : Move} (hr : m.replaces = false) (h : (s.proof p).facade = {}) :
    ((move again s m).proof p).facade = {} := by
  have hflow : Flow (fun i => ∀ p tree facade, i ≠ .present p tree facade) s (move again s m) := by
    refine flow_move ha (fun i hi p tree facade e => ?_) .start
    subst e
    cases m with
    | present => cases hr
    | refreshAll => rcases hi with hi | ⟨_, _, hi⟩ <;> cases hi
    | runner k call => cases call <;> cases hi
    | select | newRunner => cases hi
    | applyResult | shutdownAll | proof | finish | listen | subscribe | dispose => exact hi
  exact hflow.plain (fun p tree facade h => h p tree facade rfl) h

/-- A move of those who only look on, by which no proof is replaced. -/
theorem candid_move (ha : Steady again) (hs : Candid s) {m : Move} (hm : m.IsPassive) (hr : m.replaces = false) :
    Candid (move again s m) where
  toPassive := passive_passes (P := (m.license s).tacit (fun _ => True) fun _ => True) (fun _ h => h) hs.toPassive
    (passes_tacit again hs.toPassive hr hm (fun _ _ => ⟨trivial, fun _ => Or.inl trivial⟩) fun _ _ => trivial)
  plain p := plain_move ha hr (hs.plain p)

theorem candid_run (ha : Steady again) (moves : List Move) (hs : Candid s)
    (hm : ∀ m ∈ moves, m.IsPassive ∧ m.replaces = false) : Candid (run again s moves) := by
  induction moves generalizing s with
  | nil => exact hs
  | cons m rest ih =>
      obtain ⟨hpas, hrep⟩ := hm m List.mem_cons_self
      exact ih (candid_move ha hs hpas hrep) fun k hk => hm k (List.mem_cons_of_mem _ hk)

/-- Making a report is not noticed. -/
theorem report_snd (hs : Candid s) (r : RunnerId) : (s.report r).2 = s := by
  show (if (s.runner r).core.solved.isEmpty then s else s.probe (s.runner r).proof r .none) = s
  unfold probe
  simp [hs.plain]

/-! ## 3. One result -/

/-- The active runner watches the active proof. -/
theorem proof_of_activeRunner? (hs : Wired s) (hr : s.registry.activeRunner? = some r) :
    s.registry.active = some (s.runner r).proof := by
  obtain ⟨p, hp, he⟩ := Option.bind_eq_some_iff.mp hr
  rw [hp, (hs.entry (p, r) (mem_of_runnerFor? he)).2]

/-- **Only the active proof may change.** -/
theorem unedited_applyResult (again : Again) (hs : Passive s) (hq : s.registry.active ≠ some q) (n : NodeId) :
    Unedited s (applyResult again s n).2 q := by
  have hother : ∀ r, s.registry.activeRunner? = some r → (s.runner r).proof ≠ q := by
    intro r hr e
    refine hq ?_
    rw [← e]
    exact proof_of_activeRunner? hs.toWired hr
  exact unedited_passes (P := License.shut.tacit (· ≠ q) fun _ => True) (fun h => h rfl)
    (passes_applyResult (obedient_tacit _ _ _ again) hs.tame n fun r hr => ⟨hother r hr, fun _ => Or.inl trivial⟩)

theorem canApply_same (h : Same s s') (n : NodeId) : s'.canApply n = s.canApply n := by
  unfold canApply
  rw [h.registry]
  simp only [h.runner, h.proof]

/-- A node that can be closed with its answer is an open goal of the active proof. -/
theorem isGoal_of_canApply (hs : Wired s) (hact : s.registry.active = some p) (h : s.canApply n = true) :
    (∃ r, s.registry.activeRunner? = some r ∧ (s.runner r).proof = p) ∧ (s.proof p).tree.isGoal n = true := by
  obtain ⟨r, hr, hgoal⟩ := isGoal_of_active h
  have hp : (s.runner r).proof = p := by
    have h := proof_of_activeRunner? hs hr
    rw [hact] at h
    exact (Option.some.inj h).symm
  exact ⟨⟨r, hr, hp⟩, hp ▸ hgoal⟩

/-- **What applying a result comes to**: a rule at an open goal, while the proof is paused. -/
theorem applyResult_of_can (again : Again) (hs : Wired s) (hact : s.registry.active = some p)
    (hplain : (s.proof p).facade = {}) (hp : p < s.proofs.length) (hcan : s.canApply n = true) :
    applyResult again s n = (.applied, resumeEvents again (applyRule again (s.pauseEvents p) p n
      (Tree.smtRule ((s.proof p).tree.nodeName n)) []).2 p) := by
  obtain ⟨⟨r, hr, hrp⟩, hgoal⟩ := isGoal_of_canApply hs hact hcan
  exact applyResult_of_active again hcan hr hrp hplain hp hgoal

/-- **A result is applied by closing its goal**, and that is all that becomes of the tree. -/
theorem tree_applyResult (again : Again) (hs : Candid s) (hact : s.registry.active = some p)
    (hp : p < s.proofs.length) (hcan : s.canApply n = true) :
    ∃ rule tree, (s.proof p).tree.applyRule n rule [] = .ok ([], tree) ∧
      ((applyResult again s n).2.proof p).tree = tree := by
  have hgoal := (isGoal_of_canApply hs.toWired hact hcan).2
  have htree : ((s.pauseEvents p).proof p).tree = (s.proof p).tree := by
    rw [pauseEvents, proof_modifyProof_self _ hp]
  obtain ⟨tree, hrule⟩ := applyRule_of_isGoal hgoal (Tree.smtRule ((s.proof p).tree.nodeName n))
  have hrule' : ((s.pauseEvents p).proof p).tree.applyRule n (Tree.smtRule ((s.proof p).tree.nodeName n)) [] =
      .ok ([], tree) := by
    rw [htree]
    exact hrule
  -- while events wait, the goal is closed
  have hwait : Passes (.onlyEdits p) s (s.pauseEvents p) := passes_pauseEvents rfl
  have hpassive : Passive (s.pauseEvents p) := passive_passes (fun _ h => h) hs.toPassive hwait
  have htells := tells_applyRule again hpassive (by rw [pauseEvents, length_modifyProof]; exact hp) hrule'
  have hclosed : Passes (.onlyEdits p) (s.pauseEvents p)
      (applyRule again (s.pauseEvents p) p n (Tree.smtRule ((s.proof p).tree.nodeName n)) []).2 :=
    passes_applyRule (obedient_tacit _ _ _ again) hpassive.tame rfl fun _ _ _ _ _ => Or.inl trivial
  refine ⟨_, tree, hrule, ?_⟩
  rw [applyResult_of_can again hs.toWired hact (hs.plain p) hp hcan,
    tree_resumeEvents (passive_passes (fun _ h => h) hpassive hclosed), htells.tree]

/-- Applying a result opens no goal. -/
theorem goals_applyResult (again : Again) (hs : Candid s) (hp : p < s.proofs.length) {g : Goal}
    (hg : g ∈ ((applyResult again s n).2.proof p).tree.goals) : g ∈ (s.proof p).tree.goals := by
  by_cases hact : s.registry.active = some p
  · cases hcan : s.canApply n with
    | false =>
        rw [applyResult_of_not again hcan, (same_lookUp n).proof] at hg
        exact hg
    | true =>
        obtain ⟨rule, tree, hrule, e⟩ := tree_applyResult again hs hact hp hcan
        rw [e, Tree.goals_applyRule hrule] at hg
        exact (hg.resolve_right List.not_mem_nil).1
  · rw [(unedited_applyResult again hs.toPassive hact n).tree] at hg
    exact hg

theorem passes_applyResult_tacit (again : Again) (hs : Passive s) (n : NodeId) :
    Passes (License.shut.tacit (fun _ => True) fun _ => True) s (applyResult again s n).2 :=
  passes_applyResult (obedient_tacit _ _ _ again) hs.tame n fun _ _ => ⟨trivial, fun _ => Or.inl trivial⟩

theorem candid_applyResult (ha : Steady again) (hs : Candid s) (n : NodeId) :
    Candid (applyResult again s n).2 where
  toPassive := passive_passes (fun _ h => h) hs.toPassive (passes_applyResult_tacit again hs.toPassive n)
  plain p := (flow_applyResult (A := fun _ => False) ha .start n).plain (fun _ _ _ => id) (hs.plain p)

theorem length_applyResult (again : Again) (hs : Passive s) (n : NodeId) :
    (applyResult again s n).2.proofs.length = s.proofs.length :=
  (grows_passes (passes_applyResult_tacit again hs n)).proofs

/-! ## 4. Any number of results -/

section Results

variable (ha : Steady again)

include ha

/-- **Proofs that are not active stay as they are.** -/
theorem tree_applyResults_of_ne (nodes : List NodeId) (hs : Candid s) (hq : s.registry.active ≠ some q) :
    ((applyResults again s nodes).2.proof q).tree = (s.proof q).tree := by
  induction nodes generalizing s with
  | nil => rfl
  | cons n rest ih =>
      -- no other proof becomes the active one
      have hnext : (applyResult again s n).2.registry.active ≠ some q := by
        rcases (flow_applyResult (A := fun _ => False) ha .start n).active fun _ => id with e | e
        · rw [e]
          exact hq
        · rw [e]
          exact fun e => by cases e
      exact (ih (candid_applyResult ha hs n) hnext).trans (unedited_applyResult again hs.toPassive hq n).tree

theorem length_applyResults (nodes : List NodeId) (hs : Candid s) :
    (applyResults again s nodes).2.proofs.length = s.proofs.length := by
  induction nodes generalizing s with
  | nil => rfl
  | cons n rest ih => exact (ih (candid_applyResult ha hs n)).trans (length_applyResult again hs.toPassive n)

theorem goals_applyResults (nodes : List NodeId) (hs : Candid s) (hp : p < s.proofs.length) {g : Goal}
    (hg : g ∈ ((applyResults again s nodes).2.proof p).tree.goals) : g ∈ (s.proof p).tree.goals := by
  induction nodes generalizing s with
  | nil => exact hg
  | cons n rest ih =>
      have hlen := length_applyResult again hs.toPassive n
      exact goals_applyResult again hs hp (ih (candid_applyResult ha hs n) (hlen ▸ hp) hg)

/-- **The active proof stays as it is iff none of the results can be applied.** -/
theorem tree_applyResults_iff (nodes : List NodeId) (hs : Candid s) (hact : s.registry.active = some p)
    (hp : p < s.proofs.length) :
    ((applyResults again s nodes).2.proof p).tree = (s.proof p).tree ↔ ∀ n ∈ nodes, s.canApply n = false := by
  induction nodes generalizing s with
  | nil => exact ⟨fun _ _ h => absurd h List.not_mem_nil, fun _ => rfl⟩
  | cons n rest ih =>
      have hnext := candid_applyResult ha hs n
      rw [List.forall_mem_cons]
      cases hcan : s.canApply n with
      | false =>
          have hlook : Same s (s.lookUp n) := same_lookUp n
          have e : (applyResults again s (n :: rest)).2 = (applyResults again (s.lookUp n) rest).2 := by
            show (applyResults again (applyResult again s n).2 rest).2 = _
            rw [applyResult_of_not again hcan]
          rw [applyResult_of_not again hcan] at hnext
          rw [e, ← hlook.proof p, ih hnext (hlook.registry ▸ hact) (hlook.proofs ▸ hp)]
          simp only [canApply_same hlook, true_and]
      | true =>
          -- the goal is closed first, and is not opened again
          obtain ⟨rule, tree, hrule, e⟩ := tree_applyResult again hs hact hp hcan
          obtain ⟨g, hg, rfl⟩ := Tree.isGoal_iff_mem_goals.mp (isGoal_of_canApply hs.toWired hact hcan).2
          refine ⟨fun hsame => ?_, fun h => by cases h.1⟩
          have hlen := length_applyResult again hs.toPassive g.node
          have hafter : g ∈ ((applyResult again s g.node).2.proof p).tree.goals :=
            goals_applyResults ha rest hnext (hlen ▸ hp) (hsame.symm ▸ hg)
          rw [e, Tree.goals_applyRule hrule] at hafter
          exact absurd rfl (hafter.resolve_right List.not_mem_nil).2

end Results

/-! ## 5. Reports -/

/-- **When a report leaves the proofs alone that it is not about.** Take any moves of a session in which clients
    only look on and no proof is replaced, a report on a runner `r` that is made then, any selection in it and
    any further moves of that kind. What is selected are nodes that `r` had proved; when it is applied, no tree
    changes but that of the active proof. So all proofs but the one that `r` watches stay as they are exactly
    if no other is active, or none of the selected nodes, which are just numbers, is an open goal of the active
    proof that is proved there. -/
theorem report_spares_others_iff (depth : Nat) (proofs : List (String × Tree)) (settings : Settings)
    (moves later : List Move) (hm : ∀ m ∈ moves ++ later, m.IsPassive ∧ m.replaces = false) (r : RunnerId)
    (edits : List Report.Edit) :
    let u := run (perform depth) (start proofs settings) moves
    let t := edits.foldl Report.edit (u.report r).1
    let s := run (perform depth) (u.report r).2 later
    let s' := (applyReport (perform depth) s t).2
    (∀ n ∈ t.selected, n ∈ (u.runner r).core.solved) ∧
    (∀ q, s.registry.active ≠ some q → (s'.proof q).tree = (s.proof q).tree) ∧
    ((∀ q ≠ (u.runner r).proof, (s'.proof q).tree = (s.proof q).tree) ↔
      ∀ q < s.proofs.length, q ≠ (u.runner r).proof → s.registry.active = some q →
        ∀ n ∈ t.selected, s.canApply n = false) := by
  intro u t s s'
  have ha : Steady (perform depth) := steady_perform depth
  have hu : Candid u := candid_run ha moves (candid_start proofs settings) fun m h =>
    hm m (List.mem_append_left _ h)
  have hs : Candid s := by
    refine candid_run ha later ?_ fun m h => hm m (List.mem_append_right _ h)
    rw [report_snd hu r]
    exact hu
  have hframe : ∀ q, s.registry.active ≠ some q → (s'.proof q).tree = (s.proof q).tree := fun q hq =>
    tree_applyResults_of_ne ha t.selected hs hq
  refine ⟨fun n hn => solved_of_selected hn, hframe, fun hspared q hq hne hact => ?_, fun hnone q hne => ?_⟩
  · exact (tree_applyResults_iff ha t.selected hs hact hq).mp (hspared q hne)
  · by_cases hact : s.registry.active = some q
    · rcases Nat.lt_or_ge q s.proofs.length with hq | hq
      · exact (tree_applyResults_iff ha t.selected hs hact hq).mpr (hnone q hq hne hact)
      · -- there is no such proof
        have hq' : s'.proofs.length ≤ q := (length_applyResults ha t.selected hs).symm ▸ hq
        rw [proof_of_le hq, proof_of_le hq']
    · exact hframe q hact

/-- Another proof is selected after the report was made, and then the first one again: the report is applied to
    its own proof only, although the other has a proved goal with the same number. -/
theorem report_spares_others_reselected :
    let chosen : Settings := { solvers := .ofList [.z3] }
    let proofs := [("p", Tree.ofGoals [{ succedent := ["a"] }]), ("q", Tree.ofGoals [{ succedent := ["b"] }])]
    let moves : List Move := [.select 0, .runner 0 (.completed 1 [{ node := 1, status := .valid }])]
    let later : List Move := [.select 1, .runner 1 (.completed 1 [{ node := 1, status := .valid }]), .select 0]
    let u := run (perform 1) (start proofs chosen) moves
    let t := [Report.Edit.selectAll false, .toggle 1].foldl Report.edit (u.report 0).1
    let s := run (perform 1) (u.report 0).2 later
    let s' := (applyReport (perform 1) s t).2
    (∀ m ∈ moves ++ later, m.IsPassive ∧ m.replaces = false) ∧ t.selected = [1] ∧
    (s.runner 1).core.solved = [1] ∧ s.registry.active = some 0 ∧ (u.runner 0).proof = 0 ∧
    (s.proof 0).tree.isClosed = false ∧ (s'.proof 0).tree.isClosed = true ∧
    ∀ q ≠ (u.runner 0).proof, (s'.proof q).tree = (s.proof q).tree := by
  intro chosen proofs moves later u t s s'
  have hm : ∀ m ∈ moves ++ later, m.IsPassive ∧ m.replaces = false := by
    intro m hm
    simp only [moves, later, List.cons_append, List.nil_append, List.mem_cons, List.not_mem_nil, or_false] at hm
    rcases hm with rfl | rfl | rfl | rfl | rfl <;> exact ⟨trivial, rfl⟩
  have hspared := (report_spares_others_iff 1 proofs chosen moves later hm 0
    [.selectAll false, .toggle 1]).2.2.mpr (by decide +kernel)
  exact ⟨hm, by decide +kernel, by decide +kernel, by decide +kernel, by decide +kernel, by decide +kernel,
    by decide +kernel, hspared⟩

/-- **A report closes a goal of a proof that it is not about**: a goal is proved in each of two proofs, the report
    on the first is made, and it is applied when the second is selected. -/
theorem report_closes_other_proof :
    let chosen : Settings := { solvers := .ofList [.z3] }
    let proofs := [("p", Tree.ofGoals [{ succedent := ["a"] }]), ("q", Tree.ofGoals [{ succedent := ["b"] }])]
    let moves : List Move := [.select 0, .runner 0 (.completed 1 [{ node := 1, status := .valid }])]
    let later : List Move := [.select 1, .runner 1 (.completed 1 [{ node := 1, status := .valid }])]
    let u := run (perform 1) (start proofs chosen) moves
    let s := run (perform 1) (u.report 0).2 later
    let applied := applyReport (perform 1) s (u.report 0).1
    (u.runner 0).proof = 0 ∧ applied.1 = [(1, .applied)] ∧ (s.proof 1).tree.isClosed = false ∧
      (applied.2.proof 1).tree.isClosed = true ∧ (applied.2.proof 0).tree.isClosed = false := by
  decide +kernel

end Session

end GoalWatch
