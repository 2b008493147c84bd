import GoalWatch.Proofs.Tree.Undoing

/-!
# What pruning does

Pruning takes away what is below a node by a recursion that reads children and marks rows in the same table, in turns.
A row that is marked does not show its children any more, so that the recursion comes to its end, and has then met all
that is below, needs the shape of the tree: no two children have anything below them in common.

* `Tree.attempt`, `Tree.Reachable` -- a change that may be refused, and the trees that changes lead to;
* `Tree.removeBelow?` -- the recursion, one child after the other;
* `Shape.siblings_apart` -- what is at or below two children of a node is different;
* `Shape.removeBelow?_eq` -- the recursion ends, and marks what is below;
* `goals_prune` -- the open goals of a pruned tree, as a list;
* **`prune_exact`** -- every row, and the open goals, of a tree that was pruned.
-/

namespace GoalWatch.Tree

/-- The tree after a change; one that is refused changes nothing. -/
def attempt (t : Tree) (c : Change) : Tree := (t.change c).toOption.getD t

/-- **A tree that can be reached**: it was new, and any changes were attempted since. -/
def Reachable (t : Tree) : Prop := ∃ start, IsNew start ∧ ∃ changes : List Change, t = changes.foldl attempt start

/-- **Takes away what is below a node, child by child**: first what is below the child, then the child. Children are
    looked up in the table as it is by then. There is no answer if calls nest more than `depth` deep. -/
def removeBelow? : (depth : Nat) → Tree → NodeId → Option Tree
  | 0, _, _ => none
  | depth + 1, t, n => (t.children n).foldlM (fun u c => (removeBelow? depth u c).map fun v => v.remove c) t

variable {t t' : Tree} {n m c d i : Nat} {g : Goal} {q : Sequent} {gone : List NodeId}

theorem shape_attempt (h : Shape t) (c : Change) : Shape (t.attempt c) := by
  unfold attempt
  cases hc : t.change c with
  | error e => exact h
  | ok u => exact shape_change h hc

theorem shape_attempts : ∀ (changes : List Change) {t : Tree}, Shape t → Shape (changes.foldl attempt t)
  | [], _, h => h
  | c :: changes, _, h => shape_attempts changes (shape_attempt h c)

theorem Reachable.shape (h : Reachable t) : Shape t := by
  obtain ⟨start, hnew, changes, rfl⟩ := h
  exact shape_attempts changes hnew.shape

/-! ## 1. Tables with marks -/

theorem get?_removeAll (t : Tree) (hi : i ∉ gone) : (gone.foldl remove t).get? i = t.get? i := by
  unfold get?
  rw [getElem?_removeAll]
  simp [hi]

/-- It does not matter in which order rows are marked, nor how often. -/
theorem removeAll_congr {l l' : List NodeId} (h : ∀ i, i ∈ l ↔ i ∈ l') : l.foldl remove t = l'.foldl remove t := by
  refine congrArg Tree.mk (Array.ext_getElem? fun i => ?_)
  rw [getElem?_removeAll, getElem?_removeAll]
  simp only [h]

/-! ## 2. Branches -/

/-- At a node or below it. -/
def AtOrBelow (t : Tree) (n m : NodeId) : Prop := m = n ∨ Below t n m

/-- Of two nodes above a third, one is above the other: the chain of parents is one. -/
theorem Below.linear (h : Below t c m) (h' : Below t d m) : AtOrBelow t c d ∨ AtOrBelow t d c := by
  induction h with
  | @child m hp =>
      cases h' with
      | child hp' => exact Or.inl (Or.inl (Option.some.inj (hp'.symm.trans hp)))
      | deeper hp' hk => exact Or.inr (Or.inr (Option.some.inj (hp'.symm.trans hp) ▸ hk))
  | @deeper m k hp hk ih =>
      cases h' with
      | child hp' => exact Or.inl (Or.inr (Option.some.inj (hp.symm.trans hp') ▸ hk))
      | deeper hp' hk' => exact ih (Option.some.inj (hp'.symm.trans hp) ▸ hk')

/-- **Branches of two children do not meet.** -/
theorem Shape.siblings_apart (h : Shape t) (hc : t.parent? c = some n) (hd : t.parent? d = some n)
    (hm : AtOrBelow t c m) (hm' : AtOrBelow t d m) : c = d := by
  -- a child is not below another one, for then it would be at or below its own parent
  have hapart : ∀ {c d : Nat}, t.parent? c = some n → t.parent? d = some n → ¬ Below t c d := by
    intro c d hc hd hb
    have hlt := (h.parent hc).1
    cases hb with
    | child hp =>
        cases hd.symm.trans hp
        exact Nat.lt_irrefl _ hlt
    | deeper hp hk =>
        cases hd.symm.trans hp
        exact Nat.lt_asymm hlt (h.below_lt hk)
  have hline : AtOrBelow t c d ∨ AtOrBelow t d c := by
    rcases hm with rfl | hm
    · exact Or.inr hm'
    · rcases hm' with rfl | hm'
      · exact Or.inl (Or.inr hm)
      · exact hm.linear hm'
  rcases hline with (rfl | hb) | (rfl | hb)
  · rfl
  · exact absurd hb (hapart hc hd)
  · rfl
  · exact absurd hb (hapart hd hc)

/-! ## 3. The recursion -/

/-- **One child after the other.** If `step` marks what is at and below any one child whose branch is not touched yet,
    going through children marks all of their branches. -/
theorem Shape.foldlM_children (h : Shape t) (step : Tree → NodeId → Option Tree)
    (hstep : ∀ {c : Nat} {gone : List NodeId}, t.parent? c = some n → (∀ m ∈ gone, ¬ AtOrBelow t c m) →
      step (gone.foldl remove t) c = some ((gone ++ (t.descendants c ++ [c])).foldl remove t)) :
    ∀ {cs : List Nat} {gone : List NodeId}, cs.Nodup → (∀ c ∈ cs, t.parent? c = some n) →
      (∀ c ∈ cs, ∀ m ∈ gone, ¬ AtOrBelow t c m) →
      cs.foldlM step (gone.foldl remove t) =
        some ((gone ++ cs.flatMap fun c => t.descendants c ++ [c]).foldl remove t)
  | [], gone, _, _, _ => by simp
  | c :: cs, gone, hnodup, hcs, hfree => by
      obtain ⟨hc, hcs⟩ := List.forall_mem_cons.mp hcs
      obtain ⟨hfirst, hfree⟩ := List.forall_mem_cons.mp hfree
      obtain ⟨hnew, hnodup⟩ := List.nodup_cons.mp hnodup
      -- the branch of the first child is none of the others'
      have hrest : ∀ d ∈ cs, ∀ m ∈ gone ++ (t.descendants c ++ [c]), ¬ AtOrBelow t d m := by
        intro d hd m hm hat
        rcases List.mem_append.mp hm with hm | hm
        · exact hfree d hd m hm hat
        · have hmc : AtOrBelow t c m := by
            rcases List.mem_append.mp hm with hm | hm
            · exact Or.inr (h.mem_descendants.mp hm)
            · exact Or.inl (List.mem_singleton.mp hm)
          exact hnew (h.siblings_apart hc (hcs d hd) hmc hat ▸ hd)
      have ih := h.foldlM_children step hstep hnodup hcs hrest
      rw [List.append_assoc] at ih
      rw [List.foldlM_cons, hstep hc hfirst, List.flatMap_cons]
      exact ih

/-- The recursion on a node whose branch is not touched yet. Numbers grow downwards, so calls nest no deeper than there
    are numbers left. -/
theorem Shape.removeBelow?_removeAll (h : Shape t) : ∀ {depth n : Nat} {gone : List NodeId}, t.contains n = true →
    t.nodes.size ≤ n + depth → (∀ m ∈ gone, ¬ AtOrBelow t n m) →
    removeBelow? depth (gone.foldl remove t) n = some ((gone ++ t.descendants n).foldl remove t)
  | 0, n, gone, hn, hd, _ => by
      have hlt := lt_size_of_contains hn
      omega
  | depth + 1, n, gone, hn, hd, hfree => by
      obtain ⟨x, hx⟩ := Option.isSome_iff_exists.mp hn
      have hself : n ∉ gone := fun hm => hfree n hm (Or.inl rfl)
      have hchildren : (gone.foldl remove t).children n = t.children n := by
        unfold children
        rw [get?_removeAll t hself]
      have hnodup : (t.children n).Nodup := by
        rw [children_of_get? hx]
        exact (h.down hx).1
      have hstep : ∀ {c : Nat} {gone : List NodeId}, t.parent? c = some n → (∀ m ∈ gone, ¬ AtOrBelow t c m) →
          ((removeBelow? depth (gone.foldl remove t) c).map fun v => v.remove c) =
            some ((gone ++ (t.descendants c ++ [c])).foldl remove t) := by
        intro c gone hc hfree
        have hlt := (h.parent hc).1
        rw [h.removeBelow?_removeAll (Below.child hc).contains (by omega) hfree]
        simp [List.foldl_append]
      have hbranches := h.foldlM_children (fun u c => (removeBelow? depth u c).map fun v => v.remove c) hstep hnodup
        (fun c hc => h.mem_children.mp hc)
        fun c hc m hm hat => hfree m hm (Or.inr (below_iff.mpr ⟨c, h.mem_children.mp hc, hat⟩))
      rw [removeBelow?, hchildren, hbranches]
      refine congrArg some (removeAll_congr fun i => ?_)
      simp only [List.mem_append, List.mem_flatMap, List.mem_singleton, h.mem_children, h.mem_descendants]
      rw [below_iff (n := n)]
      simp only [or_comm]

/-- **The recursion ends, and marks what is below the node.** -/
theorem Shape.removeBelow?_eq (h : Shape t) (hn : t.contains n = true) {depth : Nat} (hd : t.nodes.size ≤ depth) :
    t.removeBelow? depth n = some ((t.descendants n).foldl remove t) :=
  h.removeBelow?_removeAll hn (Nat.le_trans hd (Nat.le_add_left _ _)) fun _ hm => absurd hm List.not_mem_nil

/-! ## 4. Rows and open goals -/

/-- **The rows after pruning**: that of the node, those of what is below it, and all others. -/
theorem Shape.getElem?_prune (hs : Shape t) (h : t.prune n = .ok t') (i : Nat) :
    t'.nodes[i]? = t.nodes[i]?.map fun x =>
      if i = n then { x with children := [], closedLeaf := false, rule := none }
      else if i ∈ t.descendants n then { x with live := false } else x := by
  rw [Tree.getElem?_prune h]
  refine congrArg (Option.map · _) (funext fun x => ?_)
  by_cases he : i = n
  · subst he
    simp [hs.not_mem_descendants_self]
  · have he' : n ≠ i := fun e => he e.symm
    simp [he, he']

/-- An open goal, with the sequent of its live node. -/
theorem mem_goals_iff : g ∈ t.goals ↔ t.isGoal g.node = true ∧ t.sequent? g.node = some g.sequent := by
  rw [mem_goals]
  exact and_congr_right fun hg => ⟨fun h => h.sequent? (contains_of_isGoal hg), carries_of_sequent?⟩

/-- **Which goals are open after pruning**: the node itself, and those that were open and are not below it. -/
theorem mem_goals_prune (hs : Shape t) (h : t.prune n = .ok t') (hq : t.sequent? n = some q) :
    g ∈ t'.goals ↔ g = ⟨n, q⟩ ∨ g ∈ t.goals ∧ g.node ≠ n ∧ ¬ Below t n g.node := by
  obtain ⟨k, p⟩ := g
  have hget := get?_prune h k
  rw [mem_goals_iff, mem_goals_iff, Goal.mk.injEq]
  by_cases hk : k = n
  · subst hk
    have hgoal := hs.isGoal_prune h
    have hq' := (carries_prune h (carries_of_sequent? hq)).sequent? (contains_of_isGoal hgoal)
    simpa [hgoal, hq'] using eq_comm
  · by_cases hb : Below t n k
    · rw [if_pos (hs.mem_descendants.mpr hb)] at hget
      simp [isGoal, hget, hk, hb]
    · have hne : n ≠ k := fun e => hk e.symm
      have hsame : t'.get? k = t.get? k := by
        rw [hget, if_neg (mt hs.mem_descendants.mp hb)]
        simp [hne]
      simp [isGoal, sequent?, hsame, hk, hb]

/-- **The open goals after pruning, in order**: without those below the node, and with the node in its place. -/
theorem goals_prune (hs : Shape t) (h : t.prune n = .ok t') (hq : t.sequent? n = some q) :
    t'.goals = (t.goals.filter fun g => g.node < n) ++ ⟨n, q⟩ ::
      t.goals.filter fun g => n < g.node ∧ g.node ∉ t.descendants n := by
  have hearly : ∀ g ∈ t.goals.filter fun g => g.node < n, g.node < n := fun g hg => by
    simpa using (List.mem_filter.mp hg).2
  have hlate : ∀ g ∈ t.goals.filter fun g => n < g.node ∧ g.node ∉ t.descendants n, n < g.node := fun g hg =>
    (of_decide_eq_true (List.mem_filter.mp hg).2).1
  refine ascending_ext (goals_pairwise t') (List.pairwise_append.mpr ⟨(goals_pairwise t).filter _,
    List.pairwise_cons.mpr ⟨hlate, (goals_pairwise t).filter _⟩, fun g hg => ?_⟩) fun g => ?_
  · refine List.forall_mem_cons.mpr ⟨hearly g hg, fun g' hg' => ?_⟩
    exact Nat.lt_trans (hearly g hg) (hlate g' hg')
  · rw [mem_goals_prune hs h hq]
    simp only [List.mem_append, List.mem_cons, List.mem_filter, decide_eq_true_eq, hs.mem_descendants]
    constructor
    · rintro (rfl | ⟨hg, hne, hb⟩)
      · exact Or.inr (Or.inl rfl)
      · rcases Nat.lt_or_gt_of_ne hne with hlt | hgt
        · exact Or.inl ⟨hg, hlt⟩
        · exact Or.inr (Or.inr ⟨hg, hgt, hb⟩)
    · rintro (⟨hg, hlt⟩ | rfl | ⟨hg, hgt, hb⟩)
      · exact Or.inr ⟨hg, Nat.ne_of_lt hlt, fun hb => Nat.lt_asymm hlt (hs.below_lt hb)⟩
      · exact Or.inl rfl
      · exact Or.inr ⟨hg, Nat.ne_of_gt hgt, hb⟩

/-! ## 5. Every tree that can be reached -/

/-- **What pruning does, row by row.** Take any tree that can be reached and any live node of it. The recursion that
    takes away what is below the node comes to its end, however deep the tree is and whatever was pruned away before,
    and pruning is that recursion with the node reopened after it. Of all rows, those of the nodes below are marked as
    no longer live and keep the rest, the node has lost its children and its rule, and the others are as they were. The
    node is an open goal, and stands in its place among the goals that were open and were not below it. -/
theorem prune_exact (ht : Reachable t) (hn : t.contains n = true) :
    ∃ (u v : Tree) (lost : List NodeId) (q : Sequent), (∀ i, i ∈ lost ↔ Below t n i) ∧ t.sequent? n = some q ∧
      (∀ depth, t.nodes.size ≤ depth → t.removeBelow? depth n = some u) ∧
      t.prune n = .ok v ∧ v = u.reopen n ∧
      (∀ i : Nat, v.nodes[i]? = t.nodes[i]?.map fun x =>
        if i = n then { x with children := [], closedLeaf := false, rule := none }
        else if i ∈ lost then { x with live := false } else x) ∧
      v.isGoal n = true ∧ v.children n = [] ∧ v.rule? n = none ∧
      v.goals = (t.goals.filter fun g => g.node < n) ++ ⟨n, q⟩ ::
        t.goals.filter fun g => n < g.node ∧ g.node ∉ lost := by
  have hs := ht.shape
  have hp : t.prune n = .ok (((t.descendants n).foldl remove t).reopen n) := by simp [prune, hn]
  obtain ⟨x, hx⟩ := Option.isSome_iff_exists.mp hn
  have hq : t.sequent? n = some x.sequent := by
    unfold sequent?
    rw [hx]
    rfl
  have hopen := get?_prune hp n
  rw [if_neg hs.not_mem_descendants_self, hx] at hopen
  refine ⟨_, _, t.descendants n, x.sequent, fun i => hs.mem_descendants, hq, fun depth hd => hs.removeBelow?_eq hn hd,
    hp, rfl, hs.getElem?_prune hp, hs.isGoal_prune hp, ?_, ?_, goals_prune hs hp hq⟩
  · rw [children_of_get? hopen]
    simp
  · unfold rule?
    rw [hopen]
    simp

/-- The second of three goals is split, and one of its parts is derived from twice: what came first was pruned away. -/
theorem prune_exact_pruned_before :
    let a : Sequent := { succedent := ["a"] }
    let changes : List Change :=
      [.rule 2 "split" [a, a], .rule 4 "step" [a], .prune 4, .rule 2 "again" [], .rule 4 "step" [a, a],
        .answer 7 "7:OPEN GOAL"]
    let t := changes.foldl attempt (.ofGoals [a, a, a])
    Reachable t ∧ t.contains 2 = true ∧ t.contains 6 = false ∧ t.goals.map Goal.node = [1, 3, 5, 8] ∧
    ∃ (u v : Tree) (lost : List NodeId) (q : Sequent), (∀ i, i ∈ lost ↔ Below t 2 i) ∧ t.sequent? 2 = some q ∧
      (∀ depth, t.nodes.size ≤ depth → t.removeBelow? depth 2 = some u) ∧
      t.prune 2 = .ok v ∧ v = u.reopen 2 ∧
      (∀ i : Nat, v.nodes[i]? = t.nodes[i]?.map fun x =>
        if i = 2 then { x with children := [], closedLeaf := false, rule := none }
        else if i ∈ lost then { x with live := false } else x) ∧
      v.isGoal 2 = true ∧ v.children 2 = [] ∧ v.rule? 2 = none ∧
      v.goals = (t.goals.filter fun g => g.node < 2) ++ ⟨2, q⟩ ::
        t.goals.filter fun g => 2 < g.node ∧ g.node ∉ lost := by
  intro a changes t
  have ht : Reachable t := ⟨_, .ofGoals [a, a, a], changes, rfl⟩
  have hn : t.contains 2 = true := by decide +kernel
  exact ⟨ht, hn, by decide +kernel, by decide +kernel, prune_exact ht hn⟩

end GoalWatch.Tree
