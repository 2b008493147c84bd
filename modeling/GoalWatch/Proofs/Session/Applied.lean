import GoalWatch.Proofs.Session.Closedness
import GoalWatch.Proofs.Session.ReportScope

/-!
# A result is applied or nothing happens

When the answer for a goal is applied, the goal becomes a closed leaf, and nothing else becomes of the tree. An
answer that cannot be applied changes nothing at all. There is no third way, as long as proofs answer for
themselves and nobody who is called changes the active one.

* `Tree.answered` -- the tree in which some nodes are closed with their answers;
* `Session.Ready` -- a proof that answers for itself, with clients that ask for no change of it;
* `ready_move`, `ready_run` -- it stays so after any moves;
* `canApply_iff` -- what can be applied are the proved open goals;
* `says_applyResult` -- the tree after a result was applied, and what is told of it;
* `paused_applyResult` -- the pause meanwhile leaves no trace;
* **`applyResult_exact`** -- all that is said about it.
-/

namespace GoalWatch

/-! ## 1. Trees -/

namespace Tree

variable {t : Tree} {n i : NodeId} {l : List NodeId}

/-- A node that the answer of a solver has closed, with the name it had before. -/
def answer (t : Tree) (n : NodeId) (x : TreeNode) : TreeNode :=
  { x with rule := some (smtRule (t.nodeName n)), closedLeaf := true }

/-- **The tree in which the given nodes are closed with their answers**, and all others are as they were. -/
def answered (t : Tree) (l : List NodeId) : Tree :=
  ⟨t.nodes.mapIdx fun i x => if i ∈ l then t.answer i x else x⟩

theorem get?_answered (t : Tree) (l : List NodeId) (i : NodeId) :
    (t.answered l).get? i = if i ∈ l then (t.get? i).map (t.answer i) else t.get? i := by
  unfold get? answered
  rw [Array.getElem?_mapIdx]
  cases t.nodes[i]? with
  | none => simp
  | some x =>
      by_cases hi : i ∈ l
      · simp only [hi, if_true, Option.map_some]
        cases hx : x.live <;> simp [Option.filter, answer, hx]
      · simp only [hi, if_false, Option.map_some]

theorem isGoal_answered (t : Tree) (l : List NodeId) (i : NodeId) :
    (t.answered l).isGoal i = true ↔ t.isGoal i = true ∧ i ∉ l := by
  unfold isGoal
  rw [get?_answered]
  by_cases hi : i ∈ l
  · simp only [hi, if_true]
    cases t.get? i <;> simp [answer]
  · simp only [hi, if_false]
    cases t.get? i <;> simp

/-- **The rule that applies an answer closes one node.** -/
theorem applyRule_answered (h : t.isGoal n = true) :
    t.applyRule n (smtRule (t.nodeName n)) [] = .ok ([], t.answered [n]) := by
  unfold applyRule
  simp only [contains_of_isGoal h, h, Bool.not_true, Bool.false_eq_true, if_false, List.mapIdx_nil,
    List.foldl_nil, List.isEmpty_nil]
  congr 3
  refine Array.ext_getElem? fun i => ?_
  rw [Array.getElem?_modify, Array.getElem?_mapIdx]
  by_cases hi : n = i
  · subst hi
    simp [answer]
  · have hne : i ≠ n := fun e => hi e.symm
    simp [hi, hne]

end Tree

namespace Session

/-! ## 2. Sessions in which results are applied -/

/-- **A proof that answers for itself**, with clients that ask for no change of it. -/
structure Ready (p : ProofId) (s : Session) : Prop extends Truthful p s where
  wired : Wired s
  plain : (s.proof p).facade = {}

variable {s : Session} {p : ProofId} {n : NodeId}

theorem ready_move (depth : Nat) (h : Ready p s) {m : Move} (hr : m.replaces = false)
    (hm : Heeds (.unedited p) m) : Ready p (move (perform depth) s m) where
  toTruthful := truthful_move (obliging_perform (Leave.coherent_unedited p) depth) h.toTruthful hr hm
  wired := wired_reaches h.wired (reaches_move depth m h.wired)
  plain := plain_move (steady_perform depth) hr h.plain

theorem ready_run (depth : Nat) (moves : List Move)
    (hm : ∀ m ∈ moves, m.replaces = false ∧ Heeds (.unedited p) m) (h : Ready p s) :
    Ready p (run (perform depth) s moves) := by
  induction moves generalizing s with
  | nil => exact h
  | cons m rest ih =>
      obtain ⟨hr, hh⟩ := hm m List.mem_cons_self
      exact ih (fun m hr => hm m (List.mem_cons_of_mem _ hr)) (ready_move depth h hr hh)

theorem ready_start {proofs : List (String × Tree)} (hnew : ∀ x ∈ proofs, x.2.IsNew) (settings : Settings)
    (hp : p < proofs.length) : Ready p (start proofs settings) where
  toTruthful := truthful_start hnew settings hp
  wired := wired_start proofs settings
  plain := (candid_start proofs settings).plain p

theorem ready_applyResult (depth : Nat) (h : Ready p s) (n : NodeId) :
    Ready p (applyResult (perform depth) s n).2 := ready_move depth h (m := .applyResult n) rfl trivial

/-- **What can be applied are the proved open goals** of the active proof. -/
theorem canApply_iff (h : Ready p s) (hact : s.registry.active = some p) : s.canApply n = true ↔
    (s.proof p).tree.isGoal n = true ∧ ∃ r, s.registry.activeRunner? = some r ∧ n ∈ (s.runner r).core.solved := by
  have hsolved : ∀ r, s.registry.activeRunner? = some r → (s.proof p).tree.isGoal n = true →
      (s.canApply n = true ↔ n ∈ (s.runner r).core.solved) := by
    intro r hr hgoal
    have hrp : (s.runner r).proof = p := by
      have hactive := proof_of_activeRunner? h.wired hr
      rw [hact] at hactive
      exact (Option.some.inj hactive).symm
    obtain ⟨g, hg, rfl⟩ := Tree.isGoal_iff_mem_goals.mp hgoal
    exact canApply_iff_solved hr (hrp ▸ h.shape) (hrp ▸ hg)
  constructor
  · intro hcan
    obtain ⟨⟨r, hr, _⟩, hgoal⟩ := isGoal_of_canApply h.wired hact hcan
    exact ⟨hgoal, r, hr, (hsolved r hr hgoal).mp hcan⟩
  · rintro ⟨hgoal, r, hr, hn⟩
    exact (hsolved r hr hgoal).mpr hn

/-- **A result that cannot be applied changes nothing.** -/
theorem applyResult_of_cannot (again : Again) (h : Ready p s)
    (hact : s.registry.active = none ∨ s.registry.active = some p) (hcan : s.canApply n = false) :
    applyResult again s n = (.notApplicable, s) := by
  rw [applyResult_of_not again hcan, lookUp_of_plain (fun r hr => ?_) n]
  have hq := proof_of_activeRunner? h.wired hr
  cases (hact.resolve_left fun e => by cases e.symm.trans hq).symm.trans hq
  exact h.plain

/-- Where something can be applied, the proof is the active one. -/
theorem active_of_canApply (hact : s.registry.active = none ∨ s.registry.active = some p)
    (hcan : s.canApply n = true) : s.registry.active = some p := by
  refine hact.resolve_left fun hnone => ?_
  unfold canApply Registry.activeRunner? at hcan
  rw [hnone] at hcan
  cases hcan

/-- No other proof becomes the active one when a result is applied. -/
theorem active_applyResult (depth : Nat) (hact : s.registry.active = none ∨ s.registry.active = some p) (n : NodeId) :
    (applyResult (perform depth) s n).2.registry.active = none ∨
      (applyResult (perform depth) s n).2.registry.active = some p := by
  rcases (flow_applyResult (A := fun _ => False) (steady_perform depth) .start n).active fun _ => id with e | e
  · rw [e]
    exact hact
  · exact Or.inl e

/-! ## 3. What becomes of the tree -/

/-- **A result that is applied closes its goal**, and the proof is told to be closed if that was the last one. -/
theorem says_applyResult (depth : Nat) (h : Ready p s) (hact : s.registry.active = some p)
    (hcan : s.canApply n = true) :
    Says p s (applyResult (perform depth) s n).2 ((s.proof p).tree.answered [n])
      (if ((s.proof p).tree.answered [n]).isClosed then [true] else []) := by
  have ha : Obliging (.unedited p) (perform depth) := obliging_perform (Leave.coherent_unedited p) depth
  have hgoal := (isGoal_of_canApply h.wired hact hcan).2
  have hpause : Says p s (s.pauseEvents p) (s.proof p).tree [] := says_course h.mannered (course_pauseEvents trivial)
  have hrule : ((s.pauseEvents p).proof p).tree.applyRule n (Tree.smtRule ((s.proof p).tree.nodeName n)) [] =
      .ok ([], (s.proof p).tree.answered [n]) := by
    rw [hpause.tree]
    exact Tree.applyRule_answered hgoal
  have hclose := hpause.trans (says_applyRule ha hpause.mannered (by rw [hpause.proofs]; exact h.lt) hrule)
  have hresume := hclose.trans
    (says_course hclose.mannered (course_resumeEvents (p := p) ha trivial hclose.mannered))
  rw [hclose.tree, List.append_nil, List.nil_append] at hresume
  rw [applyResult_of_can (perform depth) h.wired hact h.plain h.lt hcan]
  exact hresume

/-- A result that was applied cannot be applied once more. -/
theorem canApply_applied (depth : Nat) (h : Ready p s) (hact : s.registry.active = some p)
    (hcan : s.canApply n = true) : (applyResult (perform depth) s n).2.canApply n = false := by
  refine Bool.eq_false_iff.mpr fun hagain => ?_
  have hact' := active_of_canApply (active_applyResult depth (Or.inr hact) n) hagain
  have hgoal := (isGoal_of_canApply (ready_applyResult depth h n).wired hact' hagain).2
  rw [(says_applyResult depth h hact hcan).tree, Tree.isGoal_answered] at hgoal
  exact hgoal.2 List.mem_cons_self

/-! ## 4. The pause meanwhile -/

section Pauses

variable {again : Again} (ha : Obliging (.aside p) again)

include ha

/-- Events are told without a pause of the proof. -/
theorem paused_flush : ∀ (held : List Event) {s : Session}, Mannered (.aside p) s →
    ((held.foldl (deliver again p) s).proof p).paused = (s.proof p).paused
  | [], _, _ => rfl
  | e :: rest, s, hm => by
      obtain ⟨hm', _, ht⟩ := deliver_spec ha hm e
      have hround := (Telling.round_eq (p := p) (e := e) (s.telling p)
        ((s.proof p).subscribers.map Subscriber.id)).1
      rw [← ht] at hround
      exact (paused_flush rest hm').trans hround

theorem paused_resumeEvents (hm : Mannered (.aside p) s) (hp : p < s.proofs.length) :
    ((resumeEvents again s p).proof p).paused = (s.proof p).paused - 1 := by
  unfold resumeEvents
  simp only
  split
  · rw [proof_modifyProof_self _ hp]
  · have hcleared : Mannered (.aside p) (s.modifyProof p fun w => { w with paused := 0, held := [] }) :=
      mannered_modifyProof hm p fun _ _ hx => hx
    rw [paused_flush ha _ hcleared, proof_modifyProof_self _ hp]
    show 0 = (s.proof p).paused - 1
    omega

/-- **The pause during which a result is applied ends with it**, if no client asks for one of its own. -/
theorem paused_applyResult (h : Faithful p [] s) (hw : Wired s) (hplain : (s.proof p).facade = {})
    (hp : p < s.proofs.length) (hact : s.registry.active = some p) (hcan : s.canApply n = true) :
    ((applyResult again s n).2.proof p).paused = (s.proof p).paused := by
  have hsame := applyRule_pauseEvents again hp (Tree.applyRule_answered (isGoal_of_canApply hw hact hcan).2)
  have hclosed : Faithful p [] (applyRule again (s.pauseEvents p) p n
      (Tree.smtRule ((s.proof p).tree.nodeName n)) []).2 :=
    faithful_applyRule ha (faithful_pauseEvents h) n _ []
  have hlt : p < (applyRule again (s.pauseEvents p) p n (Tree.smtRule ((s.proof p).tree.nodeName n))
      []).2.proofs.length := by
    rw [hsame.proofs, length_modifyProof, pauseEvents, length_modifyProof]
    exact hp
  rw [applyResult_of_can again hw hact hplain hp hcan, paused_resumeEvents ha hclosed.mannered hlt, hsame.proof,
    pauseEvents, modifyProof_modifyProof, proof_modifyProof_self _ hp]
  exact Nat.add_sub_cancel _ 1

end Pauses

/-! ## 5. Exactness -/

/-- **A result is applied or nothing happens.** After any moves by which no proof is replaced, let `p` be the active
    proof, if there is one, and let no client ask for a change of it when it is called. A result is then applied if
    it can be, and is not applicable otherwise; nothing fails. If it is not applicable, the session stays as it is,
    and nothing is told. If it is applied, its node was an open goal, and the tree changes in nothing but that this
    node becomes a closed leaf with the rule named after it; of the events that come up, none is about a cut. The
    result cannot be applied afterwards. If clients do not pause the proof, it is paused as often as before. -/
theorem applyResult_exact (depth : Nat) {proofs : List (String × Tree)} (hnew : ∀ x ∈ proofs, x.2.IsNew)
    (settings : Settings) (moves : List Move) {p : ProofId} (hp : p < proofs.length)
    (hm : ∀ m ∈ moves, m.replaces = false ∧ Heeds (.unedited p) m)
    (hact : (run (perform depth) (start proofs settings) moves).registry.active = none ∨
      (run (perform depth) (start proofs settings) moves).registry.active = some p) (n : NodeId) :
    let s := run (perform depth) (start proofs settings) moves
    let result := applyResult (perform depth) s n
    result.1 = (if s.canApply n then .applied else .notApplicable) ∧
    (s.canApply n = false → result.2 = s) ∧
    (s.canApply n = true → (s.proof p).tree.isGoal n = true ∧
      (result.2.proof p).tree = (s.proof p).tree.answered [n] ∧
      ∃ news, emissions (result.2.told p) = emissions (s.told p) ++ news ∧ .treeStructureChanged ∉ news) ∧
    result.2.canApply n = false ∧
    ((∀ m ∈ moves, Heeds (.aside p) m) → (result.2.proof p).paused = (s.proof p).paused) := by
  intro s result
  have h : Ready p s := ready_run depth moves hm (ready_start hnew settings hp)
  cases hcan : s.canApply n with
  | false =>
      have hresult : result = (.notApplicable, s) := applyResult_of_cannot (perform depth) h hact hcan
      rw [hresult]
      exact ⟨rfl, fun _ => rfl, (fun e => by cases e), hcan, fun _ => rfl⟩
  | true =>
      have hactive : s.registry.active = some p := active_of_canApply hact hcan
      have hsays := says_applyResult depth h hactive hcan
      have hresult := applyResult_of_can (perform depth) h.wired hactive h.plain h.lt hcan
      refine ⟨congrArg Prod.fst hresult, (fun e => by cases e), fun _ => ⟨?_, hsays.tree, ?_⟩,
        canApply_applied depth h hactive hcan, fun haside => ?_⟩
      · exact (isGoal_of_canApply h.wired hactive hcan).2
      · obtain ⟨news, hnews, hv⟩ := hsays.news
        refine ⟨news, hnews, fun hcut => ?_⟩
        -- a cut would say that the proof is open
        have hopen : false ∈ news.filterMap Event.verdict? := List.mem_filterMap.mpr ⟨_, hcut, rfl⟩
        rw [hv] at hopen
        split at hopen <;> simp at hopen
      · have ha : Obliging (.aside p) (perform depth) := obliging_perform (Leave.coherent_aside p) depth
        exact paused_applyResult ha (faithful_run ha moves haside (faithful_start proofs settings)) h.wired h.plain
          h.lt hactive hcan

/-- Of two goals one is proved, and its answer is applied while a sink takes itself off; the other cannot be
    applied. -/
theorem applyResult_exact_one_of_two :
    let proofs : List (String × Tree) := [("p", .ofGoals [{ succedent := ["a"] }, { succedent := ["b"] }])]
    let chosen : Settings := { solvers := .ofList [.z3] }
    let moves : List Move := [.select 0, .subscribe 0 (fun _ _ => [.unsubscribe 1]),
      .runner 0 (.completed 1 [{ node := 1, status := .valid }])]
    let s := run (perform 2) (start proofs chosen) moves
    let result := applyResult (perform 2) s 1
    (∀ x ∈ proofs, x.2.IsNew) ∧ 0 < proofs.length ∧
    (∀ m ∈ moves, m.replaces = false ∧ Heeds (.unedited 0) m) ∧ s.registry.active = some 0 ∧
    s.canApply 1 = true ∧ result.1 = .applied ∧ (result.2.proof 0).tree = (s.proof 0).tree.answered [1] ∧
    (result.2.proof 0).tree.rule? 1 = some "SMT (1:OPEN GOAL)" ∧ (result.2.proof 0).tree.goals.length = 1 ∧
    (s.proof 0).subscribers.length = 2 ∧ (result.2.proof 0).subscribers.length = 1 ∧
    result.2.canApply 1 = false ∧ (result.2.proof 0).paused = (s.proof 0).paused ∧
    s.canApply 2 = false ∧ (applyResult (perform 2) s 2).2 = s := by
  intro proofs chosen moves s result
  have hnew : ∀ x ∈ proofs, x.2.IsNew := by
    intro x hx
    cases List.mem_singleton.mp hx
    exact .ofGoals _
  have hm : ∀ m ∈ moves, m.replaces = false ∧ Heeds (.unedited 0) m := by
    intro m hm
    simp only [moves, List.mem_cons, List.not_mem_nil, or_false] at hm
    rcases hm with rfl | rfl | rfl <;> simp [Move.replaces, Heeds, Leave.unedited, ProofCall.isChange]
  have haside : ∀ m ∈ moves, Heeds (.aside 0) m := by
    intro m hm
    simp only [moves, List.mem_cons, List.not_mem_nil, or_false] at hm
    rcases hm with rfl | rfl | rfl <;> simp [Heeds, Leave.aside]
  have hcan : s.canApply 1 = true := by decide +kernel
  have hnot : s.canApply 2 = false := by decide +kernel
  have h := applyResult_exact 2 hnew chosen moves (by decide) hm (Or.inr (by decide +kernel)) 1
  have h' := applyResult_exact 2 hnew chosen moves (by decide) hm (Or.inr (by decide +kernel)) 2
  exact ⟨hnew, by decide, hm, by decide +kernel, hcan, by decide +kernel, (h.2.2.1 hcan).2.1, by decide +kernel,
    by decide +kernel, by decide +kernel, by decide +kernel, h.2.2.2.1, h.2.2.2.2 haside, hnot, h'.2.1 hnot⟩

end Session

end GoalWatch
