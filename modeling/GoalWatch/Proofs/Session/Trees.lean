import GoalWatch.Proofs.Session.Backing
import GoalWatch.Proofs.Tree.Undoing

/-!
# The trees of a session

* `tree_step` -- a step leaves a tree alone, applies a rule to it or prunes it;
* `shape_reaches`, `continues_reaches` -- what holds of a tree at any moment, and between two moments;
* `built_run` -- a session changes trees in no other way;
* `canApply_iff_solved` -- which open goals can be closed with their answers;
* **`tree_keeps_shape`** -- links, numbers and closedness of every tree, at every moment of every run.
-/

namespace GoalWatch

/-- The move puts another tree in the place of one. -/
def Move.replaces : Move → Bool
  | .present .. => true
  | _ => false

namespace Session

variable {L : License} {s s' : Session} {p : ProofId}

/-! ## 1. One step -/

/-- **What a step does to a tree**, unless proofs are replaced. -/
theorem tree_step (hL : ¬ L.anyProof) (hs : Step L s s') (p : ProofId) :
    (s'.proof p).tree = (s.proof p).tree ∨
    (∃ n name new goals, (s.proof p).tree.applyRule n name new = .ok (goals, (s'.proof p).tree)) ∨
    ∃ n, (s.proof p).tree.prune n = .ok (s'.proof p).tree := by
  cases hs with
  | @rule k n name new goals tree hr =>
      rcases tree_setTree (s := s) k p tree with e | ⟨rfl, e⟩
      · exact Or.inl e
      · exact Or.inr (Or.inl ⟨n, name, new, goals, hr.trans (congrArg (fun t => Except.ok (goals, t)) e.symm)⟩)
  | @prune k n tree hp =>
      rcases tree_setTree (s := s) k p tree with e | ⟨rfl, e⟩
      · exact Or.inl e
      · exact Or.inr (Or.inr ⟨n, hp.trans (congrArg Except.ok e.symm)⟩)
  | watch k f ht _ _ =>
      rcases proof_modifyProof_cases (s := s) (p := k) (q := p) f with e | ⟨_, _, e⟩
      · exact Or.inl (by rw [e])
      · exact Or.inl (by rw [e, ht])
  | present ha => exact absurd ha hL
  | enlist k settings =>
      rcases proof_enlist_cases (s := s) (p := k) (q := p) settings with e | ⟨_, e⟩
      · exact Or.inl (by rw [e])
      · exact Or.inl (by rw [e]; rfl)
  | handOut r mode goals _ => exact Or.inl (by rw [proof_takeLaunch])
  | remark | announce | host | tune | giveUp | answer | desk | clients | tasks => exact Or.inl rfl

/-! ## 2. Any number of steps -/

theorem shape_reaches (hL : ¬ L.anyProof) (h : (s.proof p).tree.Shape) (hr : Reaches L s s') :
    (s'.proof p).tree.Shape := by
  induction hr with
  | start => exact h
  | more _ hs ih =>
      rcases tree_step hL hs p with e | ⟨n, name, new, goals, hrule⟩ | ⟨n, hprune⟩
      · rw [e]
        exact ih
      · exact Tree.shape_applyRule ih hrule
      · exact Tree.shape_prune ih hprune

theorem continues_reaches (hL : ¬ L.anyProof) (hr : Reaches L s s') :
    (s.proof p).tree.Continues (s'.proof p).tree := by
  induction hr with
  | start => exact .refl _
  | more _ hs ih =>
      rcases tree_step hL hs p with e | ⟨n, name, new, goals, hrule⟩ | ⟨n, hprune⟩
      · rw [e]
        exact ih
      · exact ih.trans (Tree.continues_applyRule hrule)
      · exact ih.trans (Tree.continues_prune hprune)

theorem anyProof_of_replaces {m : Move} (h : m.replaces = false) (s : Session) :
    ¬ (m.license s).anyProof := by
  rintro ⟨p, tree, facade, rfl⟩
  cases h

/-- The proofs of a new session; a proof that it does not have reads as a root alone. -/
theorem isNew_start {proofs : List (String × Tree)} (hnew : ∀ x ∈ proofs, x.2.IsNew)
    (settings : Settings) (p : ProofId) : ((start proofs settings).proof p).tree.IsNew := by
  unfold start proof
  simp only [List.getD_eq_getElem?_getD, List.getElem?_map]
  cases hx : proofs[p]? with
  | none => exact .ofRoot {}
  | some x => exact hnew x (List.mem_of_getElem? hx)

theorem shape_run (depth : Nat) {proofs : List (String × Tree)} (hnew : ∀ x ∈ proofs, x.2.IsNew)
    (settings : Settings) (moves : List Move) (hm : ∀ m ∈ moves, m.replaces = false) (p : ProofId) :
    ((run (perform depth) (start proofs settings) moves).proof p).tree.Shape :=
  (run_keep depth (I := fun s => (s.proof p).tree.Shape) (P := fun m => m.replaces = false)
    (fun {_ s _} hP _ h hr => shape_reaches (anyProof_of_replaces hP s) h hr)
    (wired_start proofs settings) (isNew_start hnew settings p).shape moves hm).2

theorem continues_run (depth : Nat) (hw : Wired s) (moves : List Move)
    (hm : ∀ m ∈ moves, m.replaces = false) (p : ProofId) :
    (s.proof p).tree.Continues ((run (perform depth) s moves).proof p).tree :=
  (run_keep depth (I := fun t => (s.proof p).tree.Continues (t.proof p).tree)
    (P := fun m => m.replaces = false)
    (fun {_ t _} hP _ h hr => h.trans (continues_reaches (anyProof_of_replaces hP t) hr))
    hw (.refl _) moves hm).2

theorem built_reaches (hL : ¬ L.anyProof) (h : (s.proof p).tree.Built) (hr : Reaches L s s') :
    (s'.proof p).tree.Built := by
  induction hr with
  | start => exact h
  | more _ hs ih =>
      rcases tree_step hL hs p with e | ⟨n, name, new, goals, hrule⟩ | ⟨n, hprune⟩
      · rw [e]
        exact ih
      · exact ih.change (c := .rule n name new) (congrArg (Except.map Prod.snd) hrule)
      · exact ih.change (c := .prune n) hprune

/-- **The trees of a session stay trees that were built**, whoever changes them and when. -/
theorem built_run (depth : Nat) (hw : Wired s) (hb : (s.proof p).tree.Built) (moves : List Move)
    (hm : ∀ m ∈ moves, m.replaces = false) : ((run (perform depth) s moves).proof p).tree.Built :=
  (run_keep depth (I := fun s => (s.proof p).tree.Built) (P := fun m => m.replaces = false)
    (fun {_ s _} hP _ h hr => built_reaches (anyProof_of_replaces hP s) h hr) hw hb moves hm).2

/-- **An open goal of the active proof can be closed with its answer iff it is proved.** -/
theorem canApply_iff_solved {r : RunnerId} (hact : s.registry.activeRunner? = some r)
    (hshape : (s.proof (s.runner r).proof).tree.Shape) {g : Goal}
    (hg : g ∈ (s.proof (s.runner r).proof).tree.goals) :
    s.canApply g.node = true ↔ g.node ∈ (s.runner r).core.solved := by
  have hgoal : (s.proof (s.runner r).proof).tree.isGoal g.node = true := (Tree.mem_goals.mp hg).1
  have hcont := Tree.contains_of_isGoal hgoal
  have hopen := hshape.isClosed_of_isGoal hgoal
  have hleaf : (s.proof (s.runner r).proof).tree.isLeaf g.node = true := by
    unfold Tree.isGoal at hgoal
    unfold Tree.isLeaf
    split at hgoal
    · simp only [Bool.and_eq_true] at hgoal
      exact hgoal.1
    · cases hgoal
  have hnode : (s.proof (s.runner r).proof).tree.isNodeClosed g.node = false := by
    refine Bool.eq_false_iff.mpr fun hc => ?_
    exact ((hshape.isNodeClosed_iff hcont).mp hc g.node hgoal).1 rfl
  unfold canApply
  rw [hact]
  simp [hopen, hcont, hleaf, hnode, Runner.isSolved]

/-! ## 3. Every moment of every run -/

/-- **The trees of a session keep their shape.** Take any proofs as they are built and any moves that leave
    proofs in their places; let `t` be the session after them or any one on the way of a further move `m`,
    such as one in which a client that is told of an event applies a rule or prunes. Every tree then has its
    shape, it continues the one that was there after any first part of the moves, a node of it is closed
    iff no open goal is at it or below it, and the tree is closed iff it has no open goals. -/
theorem tree_keeps_shape (depth : Nat) (proofs : List (String × Tree)) (settings : Settings)
    (earlier later : List Move) (m : Move) (hnew : ∀ x ∈ proofs, x.2.IsNew)
    (hm : ∀ k ∈ m :: (earlier ++ later), k.replaces = false) {t : Session}
    (ht : Reaches (m.license (run (perform depth) (start proofs settings) (earlier ++ later)))
      (run (perform depth) (start proofs settings) (earlier ++ later)) t) (p : ProofId) :
    (t.proof p).tree.Shape ∧
    (((run (perform depth) (start proofs settings) earlier).proof p).tree.Continues (t.proof p).tree) ∧
    (∀ n, (t.proof p).tree.contains n = true → ((t.proof p).tree.isNodeClosed n = true ↔
      ∀ g ∈ (t.proof p).tree.goals, g.node ≠ n ∧ ¬ (t.proof p).tree.Below n g.node)) ∧
    ((t.proof p).tree.isClosed = true ↔ (t.proof p).tree.goals = []) := by
  have hlast := anyProof_of_replaces (hm m List.mem_cons_self)
    (run (perform depth) (start proofs settings) (earlier ++ later))
  have hall : ∀ k ∈ earlier ++ later, k.replaces = false := fun k hk => hm k (List.mem_cons_of_mem _ hk)
  have hshape : (t.proof p).tree.Shape :=
    shape_reaches hlast (shape_run depth hnew settings (earlier ++ later) hall p) ht
  have hsplit : run (perform depth) (start proofs settings) (earlier ++ later) =
      run (perform depth) (run (perform depth) (start proofs settings) earlier) later :=
    List.foldl_append
  have hw : Wired (run (perform depth) (start proofs settings) earlier) :=
    wired_run depth (wired_start proofs settings) earlier
  have hcont : ((run (perform depth) (start proofs settings) earlier).proof p).tree.Continues
      (t.proof p).tree := by
    have hrest := continues_run depth hw later (fun k hk => hall k (List.mem_append_right _ hk)) p
    rw [← hsplit] at hrest
    exact hrest.trans (continues_reaches hlast ht)
  refine ⟨hshape, hcont, fun n hn => (hshape.isNodeClosed_iff hn).trans ?_, hshape.isClosed_iff⟩
  constructor
  · intro h g hg
    exact h g.node (Tree.mem_goals.mp hg).1
  · intro h k hk
    obtain ⟨g, hg, rfl⟩ := Tree.isGoal_iff_mem_goals.mp hk
    exact h g hg

/-- A client prunes a rule away as soon as it is told of it; the goal is then closed by another rule. -/
theorem tree_keeps_shape_pruned_inside :
    let proofs : List (String × Tree) := [("p", .ofGoals [{ succedent := ["a"] }])]
    let earlier : List Move := [.subscribe 0 fun k _ => if k = 0 then [.prune 1] else []]
    let later : List Move := [.proof 0 (.applyRule 1 "split" [{ succedent := ["b"] }])]
    let m : Move := .proof 0 (.applyRule 1 "close" [])
    let s := run (perform 1) (start proofs {}) (earlier ++ later)
    let t := move (perform 1) s m
    (∀ x ∈ proofs, x.2.IsNew) ∧ (∀ k ∈ m :: (earlier ++ later), k.replaces = false) ∧
    Reaches (m.license s) s t ∧ (t.proof 0).tree.nodes.size = 3 ∧ (t.proof 0).tree.contains 2 = false ∧
    (t.proof 0).tree.Shape ∧
    ((run (perform 1) (start proofs {}) earlier).proof 0).tree.Continues (t.proof 0).tree ∧
    (∀ n, (t.proof 0).tree.contains n = true → ((t.proof 0).tree.isNodeClosed n = true ↔
      ∀ g ∈ (t.proof 0).tree.goals, g.node ≠ n ∧ ¬ (t.proof 0).tree.Below n g.node)) ∧
    ((t.proof 0).tree.isClosed = true ↔ (t.proof 0).tree.goals = []) := by
  intro proofs earlier later m s t
  have hnew : ∀ x ∈ proofs, x.2.IsNew := by
    intro x hx
    rw [List.mem_singleton.mp hx]
    exact .ofGoals _
  have hm : ∀ k ∈ m :: (earlier ++ later), k.replaces = false := by
    intro k hk
    rcases List.mem_cons.mp hk with rfl | hk
    · rfl
    · rcases List.mem_append.mp hk with hk | hk <;> rw [List.mem_singleton.mp hk] <;> rfl
  have hw : Wired s := wired_run 1 (wired_start proofs {}) (earlier ++ later)
  have ht : Reaches (m.license s) s t := reaches_move 1 m hw
  have hsize : (t.proof 0).tree.nodes.size = 3 := by decide +kernel
  have hgone : (t.proof 0).tree.contains 2 = false := by decide +kernel
  exact ⟨hnew, hm, ht, hsize, hgone, tree_keeps_shape 1 proofs {} earlier later m hnew hm ht 0⟩

end Session

end GoalWatch
