import GoalWatch.Proofs.Tree.Shape

/-!
# Pruning undoes what was derived

Pruning to a node leaves the numbers of what it takes away used up, so the table does not go back to what it was.
What can be asked of the tree does: from an open goal on, all that rules and pruning do at the goal and below it is
undone by one pruning to the goal.

* `Change`, `Tree.change` -- a rule, the answer of a solver, or pruning, each at a node;
* `Tree.Built` -- a tree that is new, with a goal, and was changed any number of times;
* `Tree.Derivation` -- changes at a node and below it;
* `Bare` -- no rule stands at an open goal;
* `Grown` -- what is new is below the node, and what is old is as it was;
* `grown_derivation`, `Grown.get?_prune` -- a derivation only grows the tree below its node, so pruning there leaves
  what was live before;
* **`prune_undoes_derivation`** -- everything that can be asked of the tree is answered as before.
-/

namespace GoalWatch

/-- What changes a tree. -/
inductive Change where
  | rule (node : NodeId) (rule : String) (new : List Sequent)
  /-- The answer of a solver closes a goal. -/
  | answer (node : NodeId) (title : String)
  | prune (node : NodeId)
  deriving DecidableEq, Repr

/-- The node at which a change is made. -/
def Change.node : Change → NodeId
  | .rule n .. => n
  | .answer n _ => n
  | .prune n => n

namespace Tree

/-- The tree after a change. -/
def change (t : Tree) : Change → Except ProofError Tree
  | .rule n rule new => (t.applyRule n rule new).map Prod.snd
  | .answer n title => (t.applyRule n (smtRule title) []).map Prod.snd
  | .prune n => t.prune n

/-- **A tree that was built**: it was new, with an open goal that no rule stands at, and changed since. -/
inductive Built : Tree → Prop where
  | ofRoot (q : Sequent) : Built (.ofRoot q)
  | ofGoals {goals : List Sequent} (h : goals ≠ []) : Built (.ofGoals goals)
  | change {t u : Tree} {c : Change} (h : Built t) (hc : t.change c = .ok u) : Built u

/-- **A derivation at a node**: changes of the node and of what is below it at the time, none of them refused. -/
inductive Derivation (t : Tree) (n : NodeId) : Tree → Prop where
  | start : Derivation t n t
  | more {u v : Tree} {c : Change} (h : Derivation t n u) (hat : c.node = n ∨ Below u n c.node)
      (hc : u.change c = .ok v) : Derivation t n v

variable {t u v : Tree} {n i : Nat} {c : Change}

/-! ## 1. One change -/

/-- **What a change does**: a rule at its node, or pruning there. -/
theorem change_cases (h : t.change c = .ok u) :
    (∃ rule new goals, t.applyRule c.node rule new = .ok (goals, u)) ∨ t.prune c.node = .ok u := by
  have hrule : ∀ {rule : String} {new : List Sequent}, (t.applyRule c.node rule new).map Prod.snd = .ok u →
      ∃ goals, t.applyRule c.node rule new = .ok (goals, u) := by
    intro rule new hmap
    cases hr : t.applyRule c.node rule new with
    | error e =>
        rw [hr] at hmap
        cases hmap
    | ok result =>
        rw [hr] at hmap
        cases hmap
        exact ⟨result.1, rfl⟩
  cases c with
  | rule m rule new => exact Or.inl ⟨rule, new, hrule h⟩
  | answer m title => exact Or.inl ⟨smtRule title, [], hrule h⟩
  | prune m => exact Or.inr h

theorem shape_change (hs : Shape t) (h : t.change c = .ok u) : Shape u := by
  rcases change_cases h with ⟨_, _, _, hr⟩ | hp
  · exact shape_applyRule hs hr
  · exact shape_prune hs hp

theorem continues_change (h : t.change c = .ok u) : Continues t u := by
  rcases change_cases h with ⟨_, _, _, hr⟩ | hp
  · exact continues_applyRule hr
  · exact continues_prune hp

theorem Built.shape (h : Built t) : Shape t := by
  induction h with
  | ofRoot q => exact shape_ofRoot q
  | ofGoals _ => exact shape_ofGoals _
  | change _ hc ih => exact shape_change ih hc

/-! ## 2. Open goals have no rule -/

/-- No rule stands at an open goal. -/
def Bare (t : Tree) : Prop :=
  ∀ {n : Nat} {x : TreeNode}, t.get? n = some x → x.children = [] → x.closedLeaf = false → x.rule = none

theorem bare_applyRule {rule : String} {new : List Sequent} {goals : List Goal} (h : Bare t)
    (hr : t.applyRule n rule new = .ok (goals, u)) : Bare u := by
  intro i x hx hch hcl
  rw [get?_applyRule hr] at hx
  split at hx
  · obtain ⟨y, hy, rfl⟩ := Option.map_eq_some_iff.mp hx
    by_cases he : n = i
    · -- the node of the rule has children now, or it is closed
      rw [if_pos he] at hch hcl
      cases new with
      | nil => cases hcl
      | cons q rest => simp [withChildren] at hch
    · rw [if_neg he] at hch hcl ⊢
      exact h hy hch hcl
  · obtain ⟨q, _, rfl⟩ := Option.map_eq_some_iff.mp hx
    rfl

theorem bare_prune (h : Bare t) (hp : t.prune n = .ok u) : Bare u := by
  intro i x hx hch hcl
  rw [get?_prune hp] at hx
  split at hx
  · cases hx
  · obtain ⟨y, hy, rfl⟩ := Option.map_eq_some_iff.mp hx
    by_cases he : n = i
    · rw [if_pos he]
    · rw [if_neg he] at hch hcl ⊢
      exact h hy hch hcl

theorem bare_ofRoot (q : Sequent) : Bare (ofRoot q) := by
  intro i x hx _ _
  have hrow := (get?_eq_some.mp hx).1
  cases i with
  | zero =>
      cases hrow
      rfl
  | succ i => simp [ofRoot] at hrow

theorem Built.bare (h : Built t) : Bare t := by
  induction h with
  | ofRoot q => exact bare_ofRoot q
  | @ofGoals goals hne =>
      obtain ⟨q, rest, rfl⟩ := List.exists_cons_of_ne_nil hne
      exact bare_applyRule (bare_ofRoot {}) (applyRule_split q rest)
  | change _ hc ih =>
      rcases change_cases hc with ⟨_, _, _, hr⟩ | hp
      · exact bare_applyRule ih hr
      · exact bare_prune ih hp

/-! ## 3. A tree grows below a node -/

/-- **A tree grown below one of its nodes**: numbers of the old tree stand for what they stood for, the node itself
    keeps its place and its sequent, and what is new hangs below the node. -/
structure Grown (t : Tree) (n : NodeId) (u : Tree) : Prop where
  shape : Shape u
  size : t.nodes.size ≤ u.nodes.size
  old : ∀ i : Nat, i < t.nodes.size → i ≠ n → u.get? i = t.get? i
  self : ∃ x y, t.get? n = some x ∧ u.get? n = some y ∧ y.parent = x.parent ∧ y.sequent = x.sequent
  new : ∀ {i k : Nat}, t.nodes.size ≤ i → u.parent? i = some k → k = n ∨ t.nodes.size ≤ k

/-- Nothing old is below an open goal of the old tree: it would have been below it then. -/
theorem Grown.new_of_below (h : Grown t n u) (hs : Shape t) (hgoal : t.isGoal n = true) (hb : Below u n i) :
    t.nodes.size ≤ i := by
  induction hb with
  | @child m hp =>
      by_contra hlt
      have hm : m < t.nodes.size := Nat.lt_of_not_le hlt
      have hne : m ≠ n := Nat.ne_of_gt (h.shape.parent hp).1
      have hpt : t.parent? m = some n := by
        unfold parent? at hp ⊢
        rwa [← h.old m hm hne]
      obtain ⟨x, hx, hlive, hch, _⟩ := isGoal_iff.mp hgoal
      have hmem := hs.mem_children.mpr hpt
      rw [children_of_get? (get?_eq_some.mpr ⟨hx, hlive⟩), hch] at hmem
      exact absurd hmem List.not_mem_nil
  | deeper hp _ ih => exact Nat.le_of_lt (Nat.lt_of_le_of_lt ih (h.shape.parent hp).1)

/-- All that is new is below the node: the chain of parents leads on to new nodes until it comes to it. -/
theorem Grown.below_of_new (h : Grown t n u) : ∀ i : Nat, u.contains i = true → t.nodes.size ≤ i → Below u n i := by
  intro i
  induction i using Nat.strongRecOn with
  | _ i ih =>
      intro hi hnew
      obtain ⟨x, hx⟩ := Option.isSome_iff_exists.mp hi
      have hn : n < t.nodes.size := by
        obtain ⟨x₀, _, hx₀, _⟩ := h.self
        exact get?_lt hx₀
      have hpos : i ≠ root := Nat.ne_of_gt (Nat.lt_of_le_of_lt (Nat.zero_le n) (Nat.lt_of_lt_of_le hn hnew))
      obtain ⟨k, z, hk, hlt, hz, _⟩ := h.shape.up hx hpos
      have hp : u.parent? i = some k := parent?_eq_some.mpr ⟨x, hx, hk⟩
      rcases h.new hnew hp with rfl | hge
      · exact .child hp
      · exact .deeper hp (ih k hlt (by simp [Tree.contains, hz]) hge)

theorem grown_self (hs : Shape t) (hn : t.contains n = true) : Grown t n t := by
  obtain ⟨x, hx⟩ := Option.isSome_iff_exists.mp hn
  refine ⟨hs, Nat.le_refl _, fun _ _ _ => rfl, ⟨x, x, hx, hx, rfl, rfl⟩, fun hi hp => ?_⟩
  obtain ⟨y, hy, _⟩ := parent?_eq_some.mp hp
  exact absurd (get?_lt hy) (Nat.not_lt.mpr hi)

/-- A node that was there before a change has the parent it had. -/
theorem parent?_of_change {k : Nat} (h : t.change c = .ok u) (hi : i < t.nodes.size) (hp : u.parent? i = some k) :
    t.parent? i = some k := by
  obtain ⟨y, hy, hk⟩ := parent?_eq_some.mp hp
  obtain ⟨x, hx⟩ : ∃ x, t.nodes[i]? = some x := ⟨_, Array.getElem?_eq_getElem hi⟩
  obtain ⟨hrow, hlive⟩ := get?_eq_some.mp hy
  obtain ⟨y', hy', hpar, _, hback⟩ := (continues_change h).row hx
  cases hrow.symm.trans hy'
  exact parent?_eq_some.mpr ⟨x, get?_eq_some.mpr ⟨hx, hback hlive⟩, hpar.symm.trans hk⟩

/-- The parent of a node that a change brings is the node of the change. -/
theorem parent?_new_change {k : Nat} (h : t.change c = .ok u) (hi : t.nodes.size ≤ i) (hp : u.parent? i = some k) :
    k = c.node := by
  obtain ⟨y, hy, hk⟩ := parent?_eq_some.mp hp
  rcases change_cases h with ⟨rule, new, goals, hr⟩ | hprune
  · rw [get?_applyRule hr, if_neg (Nat.not_lt.mpr hi)] at hy
    obtain ⟨q, _, rfl⟩ := Option.map_eq_some_iff.mp hy
    exact (Option.some.inj hk).symm
  · have hlt := get?_lt hy
    rw [size_prune hprune] at hlt
    exact absurd hlt (Nat.not_lt.mpr hi)

/-- **A change at the node or below it grows the tree there.** -/
theorem Grown.change (h : Grown t n u) (hs : Shape t) (hgoal : t.isGoal n = true)
    (hat : c.node = n ∨ Below u n c.node) (hc : u.change c = .ok v) : Grown t n v := by
  have hcont := continues_change hc
  have hat' : c.node = n ∨ t.nodes.size ≤ c.node := hat.imp_right (h.new_of_below hs hgoal)
  -- the change is not made at an old node, and takes away no old one
  have hkeep : ∀ i : Nat, i < t.nodes.size → ¬ Below u c.node i := fun i hi hb => by
    have hbn : Below u n i := hat.elim (fun e => e ▸ hb) fun hbelow => hbelow.trans hb
    exact absurd hi (Nat.not_lt.mpr (h.new_of_below hs hgoal hbn))
  obtain ⟨x, y, hx, hy, hpar, hseq⟩ := h.self
  refine ⟨shape_change h.shape hc, Nat.le_trans h.size hcont.size, fun i hi hne => ?_, ?_, fun hi hp => ?_⟩
  · have hci : c.node ≠ i := fun e => hat'.elim (fun e' => hne (e.symm.trans e')) fun hge =>
      absurd hi (Nat.not_lt.mpr (e ▸ hge))
    rw [← h.old i hi hne]
    rcases change_cases hc with ⟨rule, new, goals, hr⟩ | hprune
    · rw [get?_applyRule hr, if_pos (Nat.lt_of_lt_of_le hi h.size)]
      simp [hci]
    · rw [get?_prune hprune, if_neg fun hd => hkeep i hi (h.shape.mem_descendants.mp hd)]
      simp [hci]
  · have hlive : ∃ z, v.get? n = some z := by
      rcases change_cases hc with ⟨rule, new, goals, hr⟩ | hprune
      · exact ⟨_, get?_old_applyRule hr hy⟩
      · rw [get?_prune hprune, if_neg fun hd => hkeep n (get?_lt hx) (h.shape.mem_descendants.mp hd), hy]
        exact ⟨_, rfl⟩
    obtain ⟨z, hz⟩ := hlive
    obtain ⟨z', hz', hpar', hseq', _⟩ := hcont.row (get?_eq_some.mp hy).1
    cases (get?_eq_some.mp hz).1.symm.trans hz'
    exact ⟨x, z, hx, hz, hpar'.trans hpar, hseq'.trans hseq⟩
  · rename_i i k
    by_cases hold : i < u.nodes.size
    · exact h.new hi (parent?_of_change hc hold hp)
    · rw [parent?_new_change hc (Nat.le_of_not_lt hold) hp]
      exact hat'

theorem grown_derivation (hs : Shape t) (hgoal : t.isGoal n = true) (h : Derivation t n u) : Grown t n u := by
  induction h with
  | start => exact grown_self hs (contains_of_isGoal hgoal)
  | more _ hat hc ih => exact ih.change hs hgoal hat hc

/-! ## 4. Pruning the growth away -/

/-- **Pruning to the node leaves what was live before**, and nothing else. -/
theorem Grown.get?_prune (h : Grown t n u) (hs : Shape t) (hbare : Bare t) (hgoal : t.isGoal n = true)
    (hp : u.prune n = .ok v) (i : Nat) : v.get? i = t.get? i := by
  rw [Tree.get?_prune hp]
  by_cases hi : i < t.nodes.size
  · rw [if_neg fun hd => absurd hi (Nat.not_lt.mpr (h.new_of_below hs hgoal (h.shape.mem_descendants.mp hd)))]
    by_cases he : n = i
    · subst he
      obtain ⟨x, y, hx, hy, hpar, hseq⟩ := h.self
      obtain ⟨x', hx', hlive, hch, hcl⟩ := isGoal_iff.mp hgoal
      cases (get?_eq_some.mp hx).1.symm.trans hx'
      have hrule := hbare hx hch hcl
      have hlive' := (get?_eq_some.mp hy).2
      rw [hx, hy, Option.map_some, if_pos rfl]
      cases x
      cases y
      simp_all
    · rw [h.old i hi fun e => he e.symm]
      simp [he]
  · have hnone : t.get? i = none := Option.eq_none_iff_forall_ne_some.mpr fun x hx => hi (get?_lt hx)
    rw [hnone]
    split
    · rfl
    · rename_i hd
      -- a new node that is not below would not be live
      have hgone : u.get? i = none := Option.not_isSome_iff_eq_none.mp fun hsome =>
        hd (h.shape.mem_descendants.mpr (h.below_of_new i hsome (Nat.le_of_not_lt hi)))
      rw [hgone]
      rfl

section Views

variable (h : ∀ i : Nat, u.get? i = t.get? i)

include h

theorem isGoal_congr (n : Nat) : u.isGoal n = t.isGoal n := by
  unfold isGoal
  rw [h]

theorem parent?_congr (n : Nat) : u.parent? n = t.parent? n := by
  unfold parent?
  rw [h]

theorem Below.congr (hb : Below u n i) : Below t n i := by
  induction hb with
  | child hp => exact .child (parent?_congr h _ ▸ hp)
  | deeper hp _ ih => exact .deeper (parent?_congr h _ ▸ hp) ih

/-- Whether a node is closed does not hang on how many numbers are used up. -/
theorem isNodeClosed_congr (hu : Shape u) (ht : Shape t) (n : Nat) : u.isNodeClosed n = t.isNodeClosed n := by
  have hcont : u.contains n = t.contains n := by
    unfold Tree.contains
    rw [h]
  by_cases hn : t.contains n = true
  · rw [Bool.eq_iff_iff, hu.isNodeClosed_iff (hcont.trans hn), ht.isNodeClosed_iff hn]
    refine forall_congr' fun m => ?_
    rw [isGoal_congr h]
    exact imp_congr_right fun _ => and_congr_right fun _ =>
      not_congr ⟨Below.congr h, Below.congr fun i => (h i).symm⟩
  · have hnone : ∀ {w : Tree}, w.get? n = none → w.isNodeClosed n = false := by
      intro w hw
      unfold isNodeClosed
      cases w.nodes.size with
      | zero => rfl
      | succ d => simp [closedWithin, hw]
    have ht' : t.get? n = none := Option.not_isSome_iff_eq_none.mp hn
    rw [hnone ht', hnone ((h n).trans ht')]

/-- The same goals are open, in the same order. -/
theorem goals_congr (hsize : t.nodes.size ≤ u.nodes.size) : u.goals = t.goals := by
  have hgoal : u.goal? = t.goal? := by
    funext n
    unfold goal?
    rw [isGoal_congr h, h]
  obtain ⟨d, hd⟩ := Nat.exists_eq_add_of_le hsize
  unfold goals
  rw [hgoal, hd, List.range_add, List.filterMap_append]
  have hrest : ((List.range d).map (t.nodes.size + ·)).filterMap t.goal? = [] := by
    refine List.filterMap_eq_nil_iff.mpr fun i hi => ?_
    obtain ⟨j, _, rfl⟩ := List.mem_map.mp hi
    unfold goal?
    rw [if_neg fun hg => absurd (lt_size_of_contains (contains_of_isGoal hg)) (by omega)]
  rw [hrest, List.append_nil]

end Views

/-- **Pruning undoes a derivation.** Take any tree that was built from a root or from a root split into some goals,
    any open goal of it, and any rules, answers and prunings at the goal and below it. The tree can then be pruned to
    the goal; of every node the tree says what it said before the derivation, the same goals are open, it is closed
    if it was, and of the nodes that came with the derivation none is left. -/
theorem prune_undoes_derivation (hbuilt : Built t) (hgoal : t.isGoal n = true) (hder : Derivation t n u) :
    ∃ v, u.prune n = .ok v ∧
    (∀ i, v.contains i = t.contains i ∧ v.isGoal i = t.isGoal i ∧ v.isLeaf i = t.isLeaf i ∧
      v.isNodeClosed i = t.isNodeClosed i ∧ v.parent? i = t.parent? i ∧ v.children i = t.children i ∧
      v.sequent? i = t.sequent? i ∧ v.rule? i = t.rule? i) ∧
    v.goals = t.goals ∧ v.isClosed = t.isClosed ∧
    ∀ i : Nat, t.nodes.size ≤ i → v.contains i = false := by
  have hs := hbuilt.shape
  have hgrown := grown_derivation hs hgoal hder
  obtain ⟨_, y, _, hy, _⟩ := hgrown.self
  have hlive : u.contains n = true := by simp [Tree.contains, hy]
  have hp : u.prune n = .ok (((u.descendants n).foldl remove u).reopen n) := by simp [prune, hlive]
  refine ⟨_, hp, ?_⟩
  have hget := hgrown.get?_prune hs hbuilt.bare hgoal hp
  have hshape := shape_prune hgrown.shape hp
  have hclosed := isNodeClosed_congr hget hshape hs
  refine ⟨fun i => ⟨?_, isGoal_congr hget i, ?_, hclosed i, parent?_congr hget i, ?_, ?_, ?_⟩,
    goals_congr hget (Nat.le_trans hgrown.size (Nat.le_of_eq (size_prune hp).symm)), hclosed root, fun i hi => ?_⟩
  · unfold Tree.contains
    rw [hget]
  · unfold isLeaf
    rw [hget]
  · unfold children
    rw [hget]
  · unfold sequent?
    rw [hget]
  · unfold rule?
    rw [hget]
  · refine Bool.eq_false_iff.mpr fun hc => ?_
    unfold Tree.contains at hc
    rw [hget] at hc
    exact absurd (lt_size_of_contains hc) (Nat.not_lt.mpr hi)

/-- One of two goals is split in two, and the first of these once more; that is pruned away and done again with an
    answer below it. The second goal of the proof was closed before. -/
theorem prune_undoes_derivation_split_twice :
    let q : Sequent := { succedent := ["a"] }
    let after := fun (t : Tree) (c : Change) => (t.change c).toOption.getD t
    let t := after (.ofGoals [q, q]) (.rule 2 "close" [])
    let changes : List Change :=
      [.rule 1 "split" [q, q], .rule 3 "step" [q], .prune 3, .rule 3 "step" [q], .answer 6 "6:OPEN GOAL"]
    let u := changes.foldl after t
    Built t ∧ t.isGoal 1 = true ∧ Derivation t 1 u ∧ t.nodes.size = 3 ∧ u.nodes.size = 7 ∧ u.rule? 1 = some "split" ∧
    ∃ v, u.prune 1 = .ok v ∧
    (∀ i, v.contains i = t.contains i ∧ v.isGoal i = t.isGoal i ∧ v.isLeaf i = t.isLeaf i ∧
      v.isNodeClosed i = t.isNodeClosed i ∧ v.parent? i = t.parent? i ∧ v.children i = t.children i ∧
      v.sequent? i = t.sequent? i ∧ v.rule? i = t.rule? i) ∧
    v.goals = t.goals ∧ v.isClosed = t.isClosed ∧
    ∀ i : Nat, t.nodes.size ≤ i → v.contains i = false := by
  intro q after t changes u
  have hbuilt : Built t := .change (c := .rule 2 "close" []) (.ofGoals (List.cons_ne_nil q [q])) (by decide +kernel)
  have hgoal : t.isGoal 1 = true := by decide +kernel
  have hder : Derivation t 1 u := by
    have h₁ : Derivation t 1 ((changes.take 1).foldl after t) :=
      .more (c := .rule 1 "split" [q, q]) .start (.inl rfl) (by decide +kernel)
    have h₂ : Derivation t 1 ((changes.take 2).foldl after t) :=
      h₁.more (c := .rule 3 "step" [q]) (.inr (.child (by decide +kernel))) (by decide +kernel)
    have h₃ : Derivation t 1 ((changes.take 3).foldl after t) :=
      h₂.more (c := .prune 3) (.inr (.child (by decide +kernel))) (by decide +kernel)
    have h₄ : Derivation t 1 ((changes.take 4).foldl after t) :=
      h₃.more (c := .rule 3 "step" [q]) (.inr (.child (by decide +kernel))) (by decide +kernel)
    have hlast : Below ((changes.take 4).foldl after t) 1 6 :=
      .deeper (k := 3) (by decide +kernel) (.child (by decide +kernel))
    exact h₄.more (c := .answer 6 "6:OPEN GOAL") (.inr hlast) (by decide +kernel)
  exact ⟨hbuilt, hgoal, hder, by decide +kernel, by decide +kernel, by decide +kernel,
    prune_undoes_derivation hbuilt hgoal hder⟩

end Tree

end GoalWatch
