import GoalWatch.Proof.Tree
import Mathlib.Data.List.Nodup

/-!
# The table of a proof tree

What the two changes of a tree do to each row of its table, and what follows for goals and sequents.

* `getElem?_pushAll`, `getElem?_removeAll`, `getElem?_reopen` -- the rows after each part of a change;
* `Tree.Carries` -- a number stands for a sequent, whether its node is live or not;
* `carries_applyRule`, `carries_prune` -- no change of a tree takes that away;
* `goals_pairwise`, `ascending_ext`, `goals_applyRule` -- the order of the open goals, and those of a changed tree.
-/

namespace GoalWatch.Tree

variable {t t' : Tree} {n i : Nat} {g : Goal} {q : Sequent}

/-! ## 1. Rows after a change -/

/-- The row of a node that got children. -/
def withChildren (x : TreeNode) (ids : List NodeId) : TreeNode :=
  { x with children := x.children ++ ids }

theorem getElem?_push (t : Tree) (p : Nat) (s : Sequent) (i : Nat) :
    (t.push p s).nodes[i]? =
      if i < t.nodes.size then
        t.nodes[i]?.map fun x => if p = i then withChildren x [t.nodes.size] else x
      else if i = t.nodes.size then some { parent := some p, sequent := s } else none := by
  unfold push
  simp only [Array.getElem?_push, Array.size_modify, Array.getElem?_modify]
  rcases Nat.lt_trichotomy i t.nodes.size with h | h | h
  · rw [if_neg (Nat.ne_of_lt h), if_pos h]
    by_cases hp : p = i
    · simp [hp, withChildren]
    · simp [hp]
  · simp [h]
  · rw [if_neg (Nat.ne_of_gt h), if_neg (Nat.lt_asymm h), if_neg (Nat.ne_of_gt h)]
    have hn : t.nodes[i]? = none := Array.getElem?_eq_none (Nat.le_of_lt h)
    split <;> simp [hn]

@[simp] theorem size_push (t : Tree) (p : NodeId) (s : Sequent) :
    (t.push p s).nodes.size = t.nodes.size + 1 := by
  simp [push]

@[simp] theorem size_pushAll (p : NodeId) : ∀ (new : List Sequent) (t : Tree),
    (new.foldl (fun t s => t.push p s) t).nodes.size = t.nodes.size + new.length
  | [], _ => rfl
  | s :: rest, t => by
      rw [List.foldl_cons, size_pushAll p rest, size_push, List.length_cons]
      omega

/-- **The rows after new goals below a node**: the node has them as its last children, all other rows are
    as before, and the new rows stand at the end in order. -/
theorem getElem?_pushAll (p : Nat) : ∀ (new : List Sequent) (t : Tree) (i : Nat),
    p < t.nodes.size →
    (new.foldl (fun t s => t.push p s) t).nodes[i]? =
      if i < t.nodes.size then
        t.nodes[i]?.map fun x =>
          if p = i then withChildren x (List.range' t.nodes.size new.length) else x
      else new[i - t.nodes.size]?.map fun s => { parent := some p, sequent := s }
  | [], t, i, _ => by
      by_cases hi : i < t.nodes.size
      · simp [hi, withChildren]
      · simp [hi]
  | s :: rest, t, i, hp => by
      have hp' : p < (t.push p s).nodes.size := by rw [size_push]; omega
      rw [List.foldl_cons, getElem?_pushAll p rest _ i hp', getElem?_push, size_push]
      rcases Nat.lt_trichotomy i t.nodes.size with h | h | h
      · rw [if_pos h, if_pos (Nat.lt_succ_of_lt h), if_pos h, Option.map_map]
        congr 1
        funext x
        by_cases he : p = i
        · simp [he, withChildren, List.range'_succ]
        · simp [he]
      · -- the first of the new rows; it is not the node itself, which was there before
        have hne : p ≠ t.nodes.size := Nat.ne_of_lt hp
        simp [h, hne]
      · rw [if_neg (by omega), if_neg (by omega)]
        rw [show i - t.nodes.size = i - (t.nodes.size + 1) + 1 by omega, List.getElem?_cons_succ]

theorem getElem?_remove (t : Tree) (m i : Nat) :
    (t.remove m).nodes[i]? =
      t.nodes[i]?.map fun x => if m = i then { x with live := false } else x := by
  unfold remove
  rw [Array.getElem?_modify]
  by_cases h : m = i
  · simp [h]
  · simp [h]

theorem getElem?_removeAll : ∀ (l : List NodeId) (t : Tree) (i : Nat),
    (l.foldl remove t).nodes[i]? =
      t.nodes[i]?.map fun x => if i ∈ l then { x with live := false } else x
  | [], t, i => by simp
  | m :: rest, t, i => by
      rw [List.foldl_cons, getElem?_removeAll rest, getElem?_remove, Option.map_map]
      congr 1
      funext x
      by_cases h : m = i
      · subst h
        by_cases hr : m ∈ rest <;> simp [hr]
      · have h' : i ≠ m := fun e => h e.symm
        simp [h, h']

theorem getElem?_reopen (t : Tree) (n i : Nat) :
    (t.reopen n).nodes[i]? = t.nodes[i]?.map fun x =>
      if n = i then { x with children := [], closedLeaf := false, rule := none } else x := by
  unfold reopen
  rw [Array.getElem?_modify]
  by_cases h : n = i
  · simp [h]
  · simp [h]

/-- What a rule did when it was not refused. -/
theorem applyRule_cases {rule : String} {new : List Sequent} {goals : List Goal}
    (h : t.applyRule n rule new = .ok (goals, t')) :
    t.isGoal n = true ∧ goals = new.mapIdx (fun i s => ⟨t.nodes.size + i, s⟩) ∧
      t' = new.foldl (fun t s => t.push n s)
        ⟨t.nodes.modify n fun x => { x with rule := some rule, closedLeaf := new.isEmpty }⟩ := by
  unfold applyRule at h
  split at h
  · cases h
  · split at h
    · cases h
    · rename_i hg
      cases h
      exact ⟨by simpa using hg, rfl, rfl⟩

/-- What pruning did when it was not refused. -/
theorem prune_cases (h : t.prune n = .ok t') :
    t.contains n = true ∧ t' = ((t.descendants n).foldl remove t).reopen n := by
  unfold prune at h
  split at h
  · cases h
  · rename_i hc
    cases h
    exact ⟨by simpa using hc, rfl⟩

/-- The row of a live node. -/
theorem get?_eq_some {x : TreeNode} :
    t.get? n = some x ↔ t.nodes[n]? = some x ∧ x.live = true := by
  simp [get?, Option.filter_eq_some_iff]

theorem contains_iff : t.contains n = true ↔ ∃ x, t.nodes[n]? = some x ∧ x.live = true := by
  unfold contains
  rw [Option.isSome_iff_exists]
  exact exists_congr fun x => get?_eq_some

theorem lt_size_of_contains (h : t.contains n = true) : n < t.nodes.size := by
  obtain ⟨x, hx, _⟩ := contains_iff.mp h
  exact (Array.getElem?_eq_some_iff.mp hx).1

theorem isGoal_iff : t.isGoal n = true ↔
    ∃ x, t.nodes[n]? = some x ∧ x.live = true ∧ x.children = [] ∧ x.closedLeaf = false := by
  unfold isGoal
  split
  · rename_i x hx
    obtain ⟨hn, hl⟩ := get?_eq_some.mp hx
    simp [hn, hl]
  · rename_i hx
    simp only [Bool.false_eq_true, false_iff]
    rintro ⟨x, hn, hl, _⟩
    rw [get?_eq_some.mpr ⟨hn, hl⟩] at hx
    cases hx

theorem contains_of_isGoal (h : t.isGoal n = true) : t.contains n = true := by
  obtain ⟨x, hx, hl, _⟩ := isGoal_iff.mp h
  exact contains_iff.mpr ⟨x, hx, hl⟩

theorem getElem?_applyRule {rule : String} {new : List Sequent} {goals : List Goal}
    (h : t.applyRule n rule new = .ok (goals, t')) (i : Nat) :
    t'.nodes[i]? =
      if i < t.nodes.size then
        t.nodes[i]?.map fun x =>
          if n = i then
            withChildren { x with rule := some rule, closedLeaf := new.isEmpty }
              (List.range' t.nodes.size new.length)
          else x
      else new[i - t.nodes.size]?.map fun s => { parent := some n, sequent := s } := by
  obtain ⟨hg, _, rfl⟩ := applyRule_cases h
  have hn : n < t.nodes.size := lt_size_of_contains (contains_of_isGoal hg)
  rw [getElem?_pushAll n new _ i (by simpa using hn)]
  simp only [Array.size_modify, Array.getElem?_modify]
  by_cases he : n = i
  · simp [he, Function.comp_def]
  · simp [he]

theorem getElem?_prune (h : t.prune n = .ok t') (i : Nat) :
    t'.nodes[i]? = t.nodes[i]?.map fun x =>
      let y := if i ∈ t.descendants n then { x with live := false } else x
      if n = i then { y with children := [], closedLeaf := false, rule := none } else y := by
  obtain ⟨_, rfl⟩ := prune_cases h
  rw [getElem?_reopen, getElem?_removeAll, Option.map_map]
  rfl

theorem size_applyRule {rule : String} {new : List Sequent} {goals : List Goal}
    (h : t.applyRule n rule new = .ok (goals, t')) : t'.nodes.size = t.nodes.size + new.length := by
  obtain ⟨_, _, rfl⟩ := applyRule_cases h
  rw [size_pushAll, Array.size_modify]

/-! ## 2. Sequents -/

/-- **The number stands for the sequent**, whether its node is still live or not. -/
def Carries (t : Tree) (n : NodeId) (q : Sequent) : Prop :=
  t.nodes[n]?.map TreeNode.sequent = some q

theorem carries_of_sequent? (h : t.sequent? n = some q) : t.Carries n q := by
  obtain ⟨x, hx, rfl⟩ := Option.map_eq_some_iff.mp h
  unfold Carries
  rw [(get?_eq_some.mp hx).1]
  rfl

theorem Carries.sequent? (h : t.Carries n q) (hc : t.contains n = true) : t.sequent? n = some q := by
  obtain ⟨x, hx, hl⟩ := contains_iff.mp hc
  unfold Carries at h
  rw [hx] at h
  unfold Tree.sequent?
  rw [get?_eq_some.mpr ⟨hx, hl⟩]
  exact h

theorem Carries.unique {q' : Sequent} (h : t.Carries n q) (h' : t.Carries n q') : q = q' :=
  Option.some.inj (h.symm.trans h')

theorem Carries.lt_size (h : t.Carries n q) : n < t.nodes.size := by
  obtain ⟨x, hx, _⟩ := Option.map_eq_some_iff.mp h
  exact (Array.getElem?_eq_some_iff.mp hx).1

/-- **A rule gives no number another sequent.** -/
theorem carries_applyRule {rule : String} {new : List Sequent} {goals : List Goal} {m : Nat}
    (h : t.applyRule n rule new = .ok (goals, t')) (hq : t.Carries m q) : t'.Carries m q := by
  unfold Carries at hq ⊢
  obtain ⟨x, hx, rfl⟩ := Option.map_eq_some_iff.mp hq
  have hm : m < t.nodes.size := (Array.getElem?_eq_some_iff.mp hx).1
  rw [getElem?_applyRule h, if_pos hm, hx]
  by_cases he : n = m
  · simp [he, withChildren]
  · simp [he]

/-- The new goals of a rule are in the table with their sequents. -/
theorem carries_newGoal {rule : String} {new : List Sequent} {goals : List Goal}
    (h : t.applyRule n rule new = .ok (goals, t')) (hg : g ∈ goals) : t'.Carries g.node g.sequent := by
  obtain ⟨_, rfl, _⟩ := applyRule_cases h
  obtain ⟨j, hj, rfl⟩ := List.mem_mapIdx.mp hg
  unfold Carries
  rw [getElem?_applyRule h]
  simp

/-- **Pruning gives no number another sequent.** -/
theorem carries_prune {m : Nat} (h : t.prune n = .ok t') (hq : t.Carries m q) : t'.Carries m q := by
  unfold Carries at hq ⊢
  obtain ⟨x, hx, rfl⟩ := Option.map_eq_some_iff.mp hq
  rw [getElem?_prune h, hx]
  simp only [Option.map_some, Option.some.injEq]
  split <;> split <;> rfl

/-! ## 3. Open goals -/

theorem mem_goals : g ∈ t.goals ↔ t.isGoal g.node = true ∧ t.Carries g.node g.sequent := by
  unfold goals
  simp only [List.mem_filterMap, List.mem_range]
  constructor
  · rintro ⟨i, _, hi⟩
    unfold goal? at hi
    split at hi
    · rename_i hg
      obtain ⟨x, hx, rfl⟩ := Option.map_eq_some_iff.mp hi
      refine ⟨hg, carries_of_sequent? (n := i) ?_⟩
      unfold Tree.sequent?
      rw [hx]
      rfl
    · cases hi
  · rintro ⟨hg, hc⟩
    have hl := contains_of_isGoal hg
    refine ⟨g.node, lt_size_of_contains hl, ?_⟩
    obtain ⟨x, hx, hq⟩ := Option.map_eq_some_iff.mp (hc.sequent? hl)
    unfold goal?
    rw [if_pos hg, hx, Option.map_some, hq]

theorem carries_of_mem_goals (h : g ∈ t.goals) : t.Carries g.node g.sequent := (mem_goals.mp h).2

/-- A node is the node of one goal at most. -/
theorem goal_unique {g' : Goal} (hg : g ∈ t.goals) (hg' : g' ∈ t.goals) (h : g.node = g'.node) :
    g = g' := by
  have hc := carries_of_mem_goals hg
  rw [h] at hc
  have hq := hc.unique (carries_of_mem_goals hg')
  cases g
  cases g'
  simp_all

/-- Open goals are listed in ascending order of their nodes. -/
theorem goals_pairwise (t : Tree) : t.goals.Pairwise fun g h => g.node < h.node := by
  have hnode : ∀ {i : NodeId} {g : Goal}, t.goal? i = some g → g.node = i := by
    intro i g hg
    unfold goal? at hg
    split at hg
    · obtain ⟨x, _, rfl⟩ := Option.map_eq_some_iff.mp hg
      rfl
    · cases hg
  refine List.pairwise_lt_range.filterMap _ fun i j hij g hg h hh => ?_
  rw [hnode hg, hnode hh]
  exact hij

/-- Goals in ascending order of their nodes are told by which ones there are. -/
theorem ascending_ext {l l' : List Goal} (hl : l.Pairwise fun g h => g.node < h.node)
    (hl' : l'.Pairwise fun g h => g.node < h.node) (hmem : ∀ g, g ∈ l ↔ g ∈ l') : l = l' := by
  have hnodup : ∀ {l : List Goal}, (l.Pairwise fun g h => g.node < h.node) → l.Nodup :=
    fun hl => hl.imp fun hlt e => absurd hlt (by rw [e]; exact Nat.lt_irrefl _)
  refine List.Perm.eq_of_pairwise (fun a b _ _ hab hba => absurd hab (Nat.lt_asymm hba)) hl hl' ?_
  exact (List.perm_ext_iff_of_nodup (hnodup hl) (hnodup hl')).mpr hmem

/-- **The open goals after a rule**: the old ones but the one it was applied to, and the new ones. -/
theorem goals_applyRule {rule : String} {new : List Sequent} {goals : List Goal}
    (h : t.applyRule n rule new = .ok (goals, t')) :
    g ∈ t'.goals ↔ (g ∈ t.goals ∧ g.node ≠ n) ∨ g ∈ goals := by
  rw [mem_goals, mem_goals]
  constructor
  · rintro ⟨hg, hc⟩
    obtain ⟨x, hx, hl, hch, hcl⟩ := isGoal_iff.mp hg
    rw [getElem?_applyRule h] at hx
    split at hx
    · obtain ⟨y, hy, rfl⟩ := Option.map_eq_some_iff.mp hx
      split at hl
      · -- the node of the rule got children or was closed, so it is not open any more
        rename_i he
        rw [if_pos he] at hch hcl
        cases new with
        | nil => simp [withChildren] at hcl
        | cons s rest => simp [withChildren] at hch
      · rename_i he
        rw [if_neg he] at hch hcl hx
        have hq : t.Carries g.node y.sequent := by
          unfold Carries
          rw [hy]
          rfl
        have he' : g.sequent = y.sequent := hc.unique (carries_applyRule h hq)
        exact Or.inl ⟨⟨isGoal_iff.mpr ⟨y, hy, hl, hch, hcl⟩, he' ▸ hq⟩, fun e => he e.symm⟩
    · rename_i hi
      obtain ⟨s, hs, rfl⟩ := Option.map_eq_some_iff.mp hx
      obtain ⟨hj, hs'⟩ := List.getElem?_eq_some_iff.mp hs
      have hn : t.nodes.size + (g.node - t.nodes.size) = g.node :=
        Nat.add_sub_cancel' (Nat.le_of_not_lt hi)
      obtain ⟨_, rfl, _⟩ := applyRule_cases h
      have hm : (⟨t.nodes.size + (g.node - t.nodes.size), s⟩ : Goal) ∈
          new.mapIdx fun i s => (⟨t.nodes.size + i, s⟩ : Goal) :=
        List.mem_mapIdx.mpr ⟨_, hj, by rw [hs']⟩
      rw [hn] at hm
      have he : g.sequent = s := hc.unique (carries_newGoal h hm)
      exact Or.inr (by rw [← he] at hm; exact hm)
  · rintro (⟨⟨hg, hc⟩, hne⟩ | hg)
    · obtain ⟨x, hx, hl, hch, hcl⟩ := isGoal_iff.mp hg
      refine ⟨isGoal_iff.mpr ⟨x, ?_, hl, hch, hcl⟩, carries_applyRule h hc⟩
      have hm : g.node < t.nodes.size := (Array.getElem?_eq_some_iff.mp hx).1
      rw [getElem?_applyRule h, if_pos hm, hx]
      simp [show n ≠ g.node from fun e => hne e.symm]
    · refine ⟨isGoal_iff.mpr ?_, carries_newGoal h hg⟩
      obtain ⟨_, rfl, _⟩ := applyRule_cases h
      obtain ⟨j, hj, rfl⟩ := List.mem_mapIdx.mp hg
      refine ⟨{ parent := some n, sequent := new[j] }, ?_, rfl, rfl, rfl⟩
      rw [getElem?_applyRule h]
      simp

theorem contains_applyRule {rule : String} {new : List Sequent} {goals : List Goal} {m : Nat}
    (h : t.applyRule n rule new = .ok (goals, t')) (hm : m < t.nodes.size) :
    t'.contains m = t.contains m := by
  rw [Bool.eq_iff_iff, contains_iff, contains_iff, getElem?_applyRule h, if_pos hm]
  constructor
  · rintro ⟨x, hx, hl⟩
    obtain ⟨y, hy, rfl⟩ := Option.map_eq_some_iff.mp hx
    refine ⟨y, hy, ?_⟩
    split at hl <;> exact hl
  · rintro ⟨x, hx, hl⟩
    rw [hx]
    refine ⟨_, rfl, ?_⟩
    split <;> exact hl

@[simp] theorem size_remove (t : Tree) (m : NodeId) : (t.remove m).nodes.size = t.nodes.size :=
  Array.size_modify

theorem size_removeAll : ∀ (l : List NodeId) (t : Tree), (l.foldl remove t).nodes.size = t.nodes.size
  | [], _ => rfl
  | m :: rest, t => by rw [List.foldl_cons, size_removeAll rest, size_remove]

theorem size_prune (h : t.prune n = .ok t') : t'.nodes.size = t.nodes.size := by
  obtain ⟨_, rfl⟩ := prune_cases h
  exact Array.size_modify.trans (size_removeAll _ _)

/-- Pruning brings no node back. -/
theorem contains_of_prune {m : Nat} (h : t.prune n = .ok t') (hm : t'.contains m = true) :
    t.contains m = true := by
  obtain ⟨x, hx, hl⟩ := contains_iff.mp hm
  rw [getElem?_prune h] at hx
  obtain ⟨y, hy, rfl⟩ := Option.map_eq_some_iff.mp hx
  refine contains_iff.mpr ⟨y, hy, ?_⟩
  by_cases hd : m ∈ t.descendants n
  · simp only [if_pos hd] at hl
    split at hl <;> cases hl
  · simp only [if_neg hd] at hl
    split at hl <;> exact hl

end GoalWatch.Tree
