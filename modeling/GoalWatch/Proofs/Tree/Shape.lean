import GoalWatch.Proofs.Tree.Table

/-!
# The shape of a proof tree

The table of a tree holds links in both directions, a flag for closed leaves and rows of nodes that are gone.
What ties them together is kept by both changes of a tree, and it is what makes the recursion over links
agree with the flat list of open goals.

* `Tree.Shape` -- parents and children point at each other, and numbers grow downwards;
* `Tree.Below` -- a node further down, along the chain of parents;
* `mem_descendants` -- what pruning takes away is all that is below;
* `Tree.IsNew` -- a tree as it is built: a root alone, or a root split into goals;
* `shape_ofRoot`, `shape_ofGoals`, `shape_applyRule`, `shape_prune` -- every tree that can be built has a shape;
* `goals_ofGoals` -- the goals of a new proof are the given ones;
* `isNodeClosed_iff`, `isClosed_iff` -- a node is closed iff no open goal is at it or below it;
* `Tree.Continues` -- numbers keep their parent and sequent, and none comes back to life.
-/

namespace GoalWatch.Tree

variable {t t' : Tree} {n m k i : Nat}

/-! ## 1. Live nodes after a change -/

theorem get?_applyRule {rule : String} {new : List Sequent} {goals : List Goal}
    (h : t.applyRule n rule new = .ok (goals, t')) (i : Nat) :
    t'.get? i =
      if i < t.nodes.size then
        (t.get? i).map fun x =>
          if n = i then
            withChildren { x with rule := some rule, closedLeaf := new.isEmpty }
              (List.range' t.nodes.size new.length)
          else x
      else new[i - t.nodes.size]?.map fun s => { parent := some n, sequent := s } := by
  unfold get?
  rw [getElem?_applyRule h]
  split
  · rw [Option.filter_map]
    congr 2
    funext x
    by_cases he : n = i
    · simp [he, withChildren]
    · simp [he]
  · cases new[i - t.nodes.size]? <;> rfl

theorem get?_prune (h : t.prune n = .ok t') (i : Nat) :
    t'.get? i = if i ∈ t.descendants n then none else
      (t.get? i).map fun x =>
        if n = i then { x with children := [], closedLeaf := false, rule := none } else x := by
  unfold get?
  rw [getElem?_prune h, Option.filter_map]
  by_cases hd : i ∈ t.descendants n
  · have hno : (TreeNode.live ∘ fun x : TreeNode =>
        if n = i then { x with live := false, children := [], closedLeaf := false, rule := none }
        else { x with live := false }) = fun _ => false := by
      funext x
      by_cases he : n = i <;> simp [he]
    simp [hd, hno]
  · have hlive : (TreeNode.live ∘ fun x : TreeNode =>
        if n = i then { x with children := [], closedLeaf := false, rule := none } else x) =
        TreeNode.live := by
      funext x
      by_cases he : n = i <;> simp [he]
    simp [hd, hlive]

/-! ## 2. Shape -/

/-- **The shape of a tree.** The nodes that are spoken of are the live ones. -/
structure Shape (t : Tree) : Prop where
  /-- The root is live and has no parent. -/
  top : ∃ x, t.get? root = some x ∧ x.parent = none
  /-- Any other node has a parent with a smaller number that lists it exactly once. -/
  up : ∀ {n : Nat} {x : TreeNode}, t.get? n = some x → n ≠ root →
    ∃ k y, x.parent = some k ∧ k < n ∧ t.get? k = some y ∧ y.children.count n = 1
  /-- The children of a node are different from each other and point back at it. -/
  down : ∀ {n : Nat} {x : TreeNode}, t.get? n = some x →
    x.children.Nodup ∧ ∀ c ∈ x.children, ∃ y, t.get? c = some y ∧ y.parent = some n
  /-- A closed leaf has no children. -/
  leaf : ∀ {n : Nat} {x : TreeNode}, t.get? n = some x → x.closedLeaf = true → x.children = []

/-- **Below a node**: the chain of parents leads to it. -/
inductive Below (t : Tree) (n : NodeId) : NodeId → Prop where
  | child {m : NodeId} (h : t.parent? m = some n) : Below t n m
  | deeper {m k : NodeId} (h : t.parent? m = some k) (hk : Below t n k) : Below t n m

theorem parent?_eq_some : t.parent? m = some n ↔ ∃ x, t.get? m = some x ∧ x.parent = some n := by
  unfold parent?
  exact Option.bind_eq_some_iff

theorem children_of_get? {x : TreeNode} (h : t.get? n = some x) : t.children n = x.children := by
  unfold children
  rw [h]
  rfl

theorem get?_lt {x : TreeNode} (h : t.get? n = some x) : n < t.nodes.size :=
  (Array.getElem?_eq_some_iff.mp (get?_eq_some.mp h).1).1

/-- A node with a parent: the parent is live, comes earlier and lists it. -/
theorem Shape.parent (h : Shape t) (hp : t.parent? m = some n) :
    n < m ∧ ∃ y, t.get? n = some y ∧ y.children.count m = 1 := by
  obtain ⟨x, hx, he⟩ := parent?_eq_some.mp hp
  have hm : m ≠ root := by
    rintro rfl
    obtain ⟨y, hy, hnone⟩ := h.top
    rw [hx] at hy
    cases hy
    cases he.symm.trans hnone
  obtain ⟨k, y, hk, hlt, hy, hc⟩ := h.up hx hm
  cases he.symm.trans hk
  exact ⟨hlt, y, hy, hc⟩

/-- To be listed as a child and to have the node as parent is the same. -/
theorem Shape.mem_children (h : Shape t) : m ∈ t.children n ↔ t.parent? m = some n := by
  constructor
  · intro hm
    cases hx : t.get? n with
    | none =>
        unfold children at hm
        rw [hx] at hm
        exact absurd hm List.not_mem_nil
    | some x =>
        rw [children_of_get? hx] at hm
        obtain ⟨y, hy, he⟩ := (h.down hx).2 m hm
        exact parent?_eq_some.mpr ⟨y, hy, he⟩
  · intro hp
    obtain ⟨_, y, hy, hc⟩ := h.parent hp
    rw [children_of_get? hy]
    exact List.count_pos_iff.mp (by omega)

theorem Below.trans (h : Below t n k) (h' : Below t k m) : Below t n m := by
  induction h' with
  | child hp => exact .deeper hp h
  | deeper hp _ ih => exact .deeper hp ih

/-- What is below a node is one of its children or below one. -/
theorem below_iff : Below t n m ↔ ∃ c, t.parent? c = some n ∧ (m = c ∨ Below t c m) := by
  constructor
  · intro h
    induction h with
    | child hp => exact ⟨_, hp, Or.inl rfl⟩
    | deeper hp _ ih =>
        obtain ⟨c, hc, rfl | hk⟩ := ih
        · exact ⟨_, hc, Or.inr (.child hp)⟩
        · exact ⟨c, hc, Or.inr (.deeper hp hk)⟩
  · rintro ⟨c, hc, rfl | hm⟩
    · exact .child hc
    · exact Below.trans (.child hc) hm

/-- Numbers grow downwards. -/
theorem Shape.below_lt (h : Shape t) (hb : Below t n m) : n < m := by
  induction hb with
  | child hp => exact (h.parent hp).1
  | deeper hp _ ih => exact Nat.lt_trans ih (h.parent hp).1

theorem Below.contains (h : Below t n m) : t.contains m = true := by
  have hp : ∃ k, t.parent? m = some k := by
    cases h with
    | child hp => exact ⟨_, hp⟩
    | deeper hp _ => exact ⟨_, hp⟩
  obtain ⟨k, hk⟩ := hp
  obtain ⟨x, hx, _⟩ := parent?_eq_some.mp hk
  simp [Tree.contains, hx]

/-- Looking far enough down finds all that is below; numbers grow, so as many levels as there are numbers
    left are enough. -/
theorem Shape.mem_descendantsWithin (h : Shape t) : ∀ (depth n : Nat), t.nodes.size ≤ n + depth →
    (m ∈ t.descendantsWithin depth n ↔ Below t n m)
  | 0, n, hd => by
      refine ⟨fun hm => absurd hm List.not_mem_nil, fun hb => ?_⟩
      have hlt := h.below_lt hb
      have hm := lt_size_of_contains hb.contains
      omega
  | depth + 1, n, hd => by
      rw [below_iff]
      simp only [descendantsWithin, List.mem_flatMap, List.mem_cons, h.mem_children]
      refine exists_congr fun c => and_congr_right fun hc => or_congr_right ?_
      have hlt := (h.parent hc).1
      exact h.mem_descendantsWithin depth c (by omega)

/-- **What pruning takes away is all that is below.** -/
theorem Shape.mem_descendants (h : Shape t) : m ∈ t.descendants n ↔ Below t n m :=
  h.mem_descendantsWithin _ _ (Nat.le_add_left _ _)

theorem Shape.not_mem_descendants_self (h : Shape t) : n ∉ t.descendants n := fun hd =>
  Nat.lt_irrefl n (h.below_lt (h.mem_descendants.mp hd))

/-! ## 3. Every tree that can be built has a shape -/

/-- A root alone. -/
theorem shape_single {x : TreeNode} (hlive : x.live = true) (hp : x.parent = none)
    (hc : x.children = []) : Shape ⟨#[x]⟩ := by
  have hrow : ∀ {n : Nat} {y : TreeNode}, get? ⟨#[x]⟩ n = some y → n = root ∧ y = x := by
    intro n y hy
    have hn := (get?_eq_some.mp hy).1
    cases n with
    | zero => exact ⟨rfl, (Option.some.inj hn).symm⟩
    | succ n => simp at hn
  refine ⟨⟨x, get?_eq_some.mpr ⟨rfl, hlive⟩, hp⟩, fun hy hn => absurd (hrow hy).1 hn,
    fun hy => ?_, fun hy _ => ?_⟩
  · rw [(hrow hy).2, hc]
    exact ⟨List.nodup_nil, fun _ hm => absurd hm List.not_mem_nil⟩
  · rw [(hrow hy).2, hc]

theorem shape_ofRoot (q : Sequent) : Shape (ofRoot q) := shape_single rfl rfl rfl

section Rule

variable {rule : String} {new : List Sequent} {goals : List Goal}

/-- An old row after a rule: only that of the node changes, which had no children before. -/
theorem get?_old_applyRule (h : t.applyRule n rule new = .ok (goals, t')) {x : TreeNode}
    (hx : t.get? i = some x) : t'.get? i = some (if n = i then
      withChildren { x with rule := some rule, closedLeaf := new.isEmpty }
        (List.range' t.nodes.size new.length) else x) := by
  rw [get?_applyRule h, if_pos (get?_lt hx), hx]
  rfl

theorem shape_applyRule (hs : Shape t) (h : t.applyRule n rule new = .ok (goals, t')) : Shape t' := by
  obtain ⟨y, hy, hylive, hych, hycl⟩ := isGoal_iff.mp (applyRule_cases h).1
  have hyget : t.get? n = some y := get?_eq_some.mpr ⟨hy, hylive⟩
  have hold := @get?_old_applyRule t t' n
  have hparent : ∀ {i : Nat} (x : TreeNode), (if n = i then
      withChildren { x with rule := some rule, closedLeaf := new.isEmpty }
        (List.range' t.nodes.size new.length) else x).parent = x.parent := by
    intro i x
    by_cases he : n = i <;> simp [he, withChildren]
  -- a live node of the new tree is an old one or a new child
  have hcases : ∀ {i : Nat} {x : TreeNode}, t'.get? i = some x →
      (∃ x₀, t.get? i = some x₀ ∧ x = if n = i then
        withChildren { x₀ with rule := some rule, closedLeaf := new.isEmpty }
          (List.range' t.nodes.size new.length) else x₀) ∨
      (t.nodes.size ≤ i ∧ i < t.nodes.size + new.length ∧ ∃ q, x = { parent := some n, sequent := q }) := by
    intro i x hx
    rw [get?_applyRule h] at hx
    split at hx
    · obtain ⟨x₀, hx₀, rfl⟩ := Option.map_eq_some_iff.mp hx
      exact Or.inl ⟨x₀, hx₀, rfl⟩
    · rename_i hi
      obtain ⟨q, hq, rfl⟩ := Option.map_eq_some_iff.mp hx
      have hlt := (List.getElem?_eq_some_iff.mp hq).1
      exact Or.inr ⟨by omega, by omega, q, rfl⟩
  refine ⟨?_, fun {i x} hx hi => ?_, fun {i x} hx => ?_, fun {i x} hx hl => ?_⟩
  · obtain ⟨x, hx, hp⟩ := hs.top
    exact ⟨_, hold h hx, (hparent x).trans hp⟩
  · rcases hcases hx with ⟨x₀, hx₀, rfl⟩ | ⟨hge, hlt, q, rfl⟩
    · obtain ⟨k, z, hk, hki, hz, hc⟩ := hs.up hx₀ hi
      -- the parent is not the node of the rule, which had no children
      have hne : n ≠ k := by
        rintro rfl
        rw [hyget] at hz
        cases hz
        rw [hych] at hc
        cases hc
      refine ⟨k, z, (hparent x₀).trans hk, hki, ?_, hc⟩
      rw [hold h hz, if_neg hne]
    · refine ⟨n, _, rfl, Nat.lt_of_lt_of_le (get?_lt hyget) hge, hold h hyget, ?_⟩
      rw [if_pos rfl]
      show (y.children ++ List.range' t.nodes.size new.length).count i = 1
      rw [hych, List.nil_append]
      exact List.count_eq_one_of_mem List.nodup_range' (List.mem_range'_1.mpr ⟨hge, hlt⟩)
  · rcases hcases hx with ⟨x₀, hx₀, rfl⟩ | ⟨_, _, q, rfl⟩
    · by_cases he : n = i
      · subst he
        rw [hyget] at hx₀
        cases hx₀
        rw [if_pos rfl]
        show (y.children ++ List.range' t.nodes.size new.length).Nodup ∧
          ∀ c ∈ y.children ++ List.range' t.nodes.size new.length, _
        rw [hych, List.nil_append]
        refine ⟨List.nodup_range', fun (c : Nat) hc => ?_⟩
        obtain ⟨hge, hlt⟩ := List.mem_range'_1.mp hc
        have hin : c - t.nodes.size < new.length := by omega
        refine ⟨{ parent := some n, sequent := new[c - t.nodes.size] }, ?_, rfl⟩
        rw [get?_applyRule h, if_neg (Nat.not_lt.mpr hge), List.getElem?_eq_getElem hin]
        rfl
      · rw [if_neg he]
        obtain ⟨hnd, hback⟩ := hs.down hx₀
        refine ⟨hnd, fun c hc => ?_⟩
        obtain ⟨z, hz, hp⟩ := hback c hc
        exact ⟨_, hold h hz, (hparent z).trans hp⟩
    · exact ⟨List.nodup_nil, fun _ hc => absurd hc List.not_mem_nil⟩
  · rcases hcases hx with ⟨x₀, hx₀, rfl⟩ | ⟨_, _, q, rfl⟩
    · by_cases he : n = i
      · subst he
        rw [hyget] at hx₀
        cases hx₀
        rw [if_pos rfl] at hl ⊢
        have hnew : new = [] := by simpa [withChildren] using hl
        simp [withChildren, hych, hnew]
      · rw [if_neg he] at hl ⊢
        exact hs.leaf hx₀ hl
    · cases hl

end Rule

/-- A root that was split is a root to which a rule was applied. -/
theorem applyRule_split (q : Sequent) (rest : List Sequent) :
    (ofRoot {}).applyRule root "split" (q :: rest) =
      .ok ((q :: rest).mapIdx fun i s => ⟨1 + i, s⟩, ofGoals (q :: rest)) := rfl

theorem shape_ofGoals (goals : List Sequent) : Shape (ofGoals goals) := by
  cases goals with
  | nil => exact shape_single rfl rfl rfl
  | cons q rest => exact shape_applyRule (shape_ofRoot {}) (applyRule_split q rest)

/-- A tree as it is built. -/
inductive IsNew : Tree → Prop where
  | ofRoot (q : Sequent) : IsNew (.ofRoot q)
  | ofGoals (goals : List Sequent) : IsNew (.ofGoals goals)

theorem IsNew.shape (h : t.IsNew) : t.Shape := by
  cases h with
  | ofRoot q => exact shape_ofRoot q
  | ofGoals goals => exact shape_ofGoals goals

/-- The goals of a new proof are the given ones, numbered from one on. -/
theorem goals_ofGoals {goals : List Sequent} (hne : goals ≠ []) :
    (ofGoals goals).goals = goals.mapIdx fun i q => ⟨i + 1, q⟩ := by
  have hsorted : (goals.mapIdx fun i q => (⟨i + 1, q⟩ : Goal)).Pairwise fun g h => g.node < h.node := by
    rw [List.pairwise_iff_getElem]
    intro i j hi hj hij
    simpa using hij
  have hmem : ∀ g, g ∈ (ofGoals goals).goals ↔ g ∈ goals.mapIdx fun i q => (⟨i + 1, q⟩ : Goal) := by
    obtain ⟨q, rest, rfl⟩ := List.exists_cons_of_ne_nil hne
    intro g
    rw [goals_applyRule (applyRule_split q rest)]
    have hroot : g ∈ (ofRoot {}).goals → g.node = root := by
      intro hg
      have hlt := (carries_of_mem_goals hg).lt_size
      exact Nat.lt_one_iff.mp hlt
    have hcomm : (fun (i : Nat) (s : Sequent) => (⟨1 + i, s⟩ : Goal)) = fun i s => ⟨i + 1, s⟩ := by
      funext i s
      rw [Nat.add_comm]
    rw [hcomm]
    exact ⟨fun h => h.resolve_left fun hg => hg.2 (hroot hg.1), Or.inr⟩
  exact ascending_ext (goals_pairwise _) hsorted hmem

theorem shape_prune (hs : Shape t) (h : t.prune n = .ok t') : Shape t' := by
  have hget : ∀ {i : Nat} {x : TreeNode}, t.get? i = some x → ¬ Below t n i → t'.get? i =
      some (if n = i then { x with children := [], closedLeaf := false, rule := none } else x) := by
    intro i x hx hb
    rw [get?_prune h, if_neg (fun hd => hb (hs.mem_descendants.mp hd)), hx]
    rfl
  have hparent : ∀ {i : Nat} (x : TreeNode),
      (if n = i then { x with children := [], closedLeaf := false, rule := none } else x).parent =
        x.parent := by
    intro i x
    by_cases he : n = i <;> simp [he]
  -- a live node of the new tree was live and not below the node
  have hcases : ∀ {i : Nat} {x : TreeNode}, t'.get? i = some x → ¬ Below t n i ∧ ∃ x₀, t.get? i = some x₀ ∧
      x = if n = i then { x₀ with children := [], closedLeaf := false, rule := none } else x₀ := by
    intro i x hx
    rw [get?_prune h] at hx
    split at hx
    · cases hx
    · rename_i hd
      obtain ⟨x₀, hx₀, rfl⟩ := Option.map_eq_some_iff.mp hx
      exact ⟨fun hb => hd (hs.mem_descendants.mpr hb), x₀, hx₀, rfl⟩
  refine ⟨?_, fun {i x} hx hi => ?_, fun {i x} hx => ?_, fun {i x} hx hl => ?_⟩
  · obtain ⟨x, hx, hp⟩ := hs.top
    refine ⟨_, hget hx fun hb => ?_, (hparent x).trans hp⟩
    exact absurd (hs.below_lt hb) (Nat.not_lt_zero _)
  · obtain ⟨hb, x₀, hx₀, rfl⟩ := hcases hx
    obtain ⟨k, z, hk, hki, hz, hc⟩ := hs.up hx₀ hi
    have hpar : t.parent? i = some k := parent?_eq_some.mpr ⟨x₀, hx₀, hk⟩
    have hne : n ≠ k := fun e => hb (.child (e ▸ hpar))
    refine ⟨k, z, (hparent x₀).trans hk, hki, ?_, hc⟩
    rw [hget hz fun hbk => hb (.deeper hpar hbk), if_neg hne]
  · obtain ⟨hb, x₀, hx₀, rfl⟩ := hcases hx
    by_cases he : n = i
    · rw [if_pos he]
      exact ⟨List.nodup_nil, fun _ hc => absurd hc List.not_mem_nil⟩
    · rw [if_neg he]
      obtain ⟨hnd, hback⟩ := hs.down hx₀
      refine ⟨hnd, fun c hc => ?_⟩
      obtain ⟨z, hz, hp⟩ := hback c hc
      refine ⟨_, hget hz fun hbc => ?_, (hparent z).trans hp⟩
      -- what is below the node has its parent there too
      have hpar : t.parent? c = some i := parent?_eq_some.mpr ⟨z, hz, hp⟩
      cases hbc with
      | child hp' => exact he (Option.some.inj (hp'.symm.trans hpar))
      | deeper hp' hk => exact hb ((Option.some.inj (hp'.symm.trans hpar)) ▸ hk)
  · obtain ⟨_, x₀, hx₀, rfl⟩ := hcases hx
    by_cases he : n = i
    · rw [if_pos he] at hl
      cases hl
    · rw [if_neg he] at hl ⊢
      exact hs.leaf hx₀ hl

/-! ## 4. Closed nodes and open goals -/

/-- Looking far enough down, a node is closed iff no open goal is at it or below it. -/
theorem Shape.closedWithin_iff (h : Shape t) : ∀ (depth n : Nat), t.nodes.size ≤ n + depth →
    t.contains n = true →
    (t.closedWithin depth n = true ↔ ∀ m, t.isGoal m = true → m ≠ n ∧ ¬ Below t n m)
  | 0, n, hd, hn => by
      have hlt := lt_size_of_contains hn
      omega
  | depth + 1, n, hd, hn => by
      obtain ⟨x, hx⟩ := Option.isSome_iff_exists.mp hn
      have hch : ∀ c, c ∈ x.children ↔ t.parent? c = some n := by
        intro c
        rw [← children_of_get? hx]
        exact h.mem_children
      unfold closedWithin
      simp only [hx]
      by_cases he : x.children = []
      · -- nothing is below a leaf
        have hnone : ∀ m, ¬ Below t n m := by
          intro m hb
          obtain ⟨c, hc, _⟩ := below_iff.mp hb
          have hmem := (hch c).mpr hc
          rw [he] at hmem
          exact absurd hmem List.not_mem_nil
        have hgoal : t.isGoal n = !x.closedLeaf := by
          unfold isGoal
          rw [hx]
          simp [he]
        rw [he]
        simp only [List.isEmpty_nil, if_true]
        constructor
        · intro hcl m hm
          refine ⟨?_, hnone m⟩
          rintro rfl
          rw [hgoal, hcl] at hm
          cases hm
        · intro hall
          by_contra hcl
          exact (hall n (by rw [hgoal]; simpa using hcl)).1 rfl
      · have hgoal : t.isGoal n = false := by
          unfold isGoal
          rw [hx]
          simp [he]
        have hempty : x.children.isEmpty = false := by simpa using he
        rw [hempty]
        simp only [Bool.false_eq_true, if_false, List.all_eq_true]
        -- the children are later numbers, so one level less is enough for them
        have ih : ∀ c ∈ x.children, (t.closedWithin depth c = true ↔
            ∀ m, t.isGoal m = true → m ≠ c ∧ ¬ Below t c m) := by
          intro c hc
          have hp := (hch c).mp hc
          have hlt := (h.parent hp).1
          exact h.closedWithin_iff depth c (by omega) (Below.child hp).contains
        constructor
        · intro hall m hm
          refine ⟨?_, fun hb => ?_⟩
          · rintro rfl
            rw [hgoal] at hm
            cases hm
          · obtain ⟨c, hc, hcase⟩ := below_iff.mp hb
            have hmem := (hch c).mpr hc
            obtain ⟨hne, hnb⟩ := (ih c hmem).mp (hall c hmem) m hm
            exact hcase.elim hne hnb
        · intro hall c hc
          have hp := (hch c).mp hc
          refine (ih c hc).mpr fun m hm => ⟨?_, fun hb => ?_⟩
          · rintro rfl
            exact (hall m hm).2 (.child hp)
          · exact (hall m hm).2 (below_iff.mpr ⟨c, hp, Or.inr hb⟩)

/-- **A node is closed iff no open goal is at it or below it.** -/
theorem Shape.isNodeClosed_iff (h : Shape t) (hn : t.contains n = true) :
    t.isNodeClosed n = true ↔ ∀ m, t.isGoal m = true → m ≠ n ∧ ¬ Below t n m :=
  h.closedWithin_iff _ _ (Nat.le_add_left _ _) hn

theorem isGoal_iff_mem_goals : t.isGoal n = true ↔ ∃ g ∈ t.goals, g.node = n := by
  constructor
  · intro h
    obtain ⟨x, hx, _⟩ := isGoal_iff.mp h
    refine ⟨⟨n, x.sequent⟩, mem_goals.mpr ⟨h, ?_⟩, rfl⟩
    unfold Carries
    rw [hx]
    rfl
  · rintro ⟨g, hg, rfl⟩
    exact (mem_goals.mp hg).1

/-- Every other node is below the root. -/
theorem Shape.below_root (h : Shape t) : ∀ n, t.contains n = true → n ≠ root → Below t root n := by
  intro n
  induction n using Nat.strongRecOn with
  | _ n ih =>
      intro hn hne
      obtain ⟨x, hx⟩ := Option.isSome_iff_exists.mp hn
      obtain ⟨k, y, hk, hlt, hy, _⟩ := h.up hx hne
      have hp : t.parent? n = some k := parent?_eq_some.mpr ⟨x, hx, hk⟩
      by_cases hkr : k = root
      · exact .child (hkr ▸ hp)
      · exact .deeper hp (ih k hlt (by simp [Tree.contains, hy]) hkr)

/-- **A tree is closed iff it has no open goal.** -/
theorem Shape.isClosed_iff (h : Shape t) : t.isClosed = true ↔ t.goals = [] := by
  obtain ⟨x, hx, _⟩ := h.top
  have hroot : t.contains root = true := by simp [Tree.contains, hx]
  unfold isClosed
  rw [h.isNodeClosed_iff hroot, List.eq_nil_iff_forall_not_mem]
  constructor
  · intro hall g hg
    have hgoal := (mem_goals.mp hg).1
    obtain ⟨hne, hnb⟩ := hall g.node hgoal
    exact hnb (h.below_root g.node (contains_of_isGoal hgoal) hne)
  · intro hnone m hm
    obtain ⟨g, hg, _⟩ := isGoal_iff_mem_goals.mp hm
    exact absurd hg (hnone g)

theorem Shape.isClosed_of_isGoal (h : Shape t) (hn : t.isGoal n = true) : t.isClosed = false := by
  obtain ⟨g, hg, _⟩ := isGoal_iff_mem_goals.mp hn
  refine Bool.eq_false_iff.mpr fun hclosed => ?_
  rw [h.isClosed_iff.mp hclosed] at hg
  exact absurd hg List.not_mem_nil

/-- A node is an open goal once the tree was pruned to it. -/
theorem Shape.isGoal_prune (hs : Shape t) (h : t.prune n = .ok t') : t'.isGoal n = true := by
  obtain ⟨x, hx⟩ := Option.isSome_iff_exists.mp (prune_cases h).1
  have hx' := get?_prune h n
  rw [if_neg hs.not_mem_descendants_self, hx] at hx'
  obtain ⟨hrow, hlive⟩ := get?_eq_some.mp hx'
  exact isGoal_iff.mpr ⟨_, hrow, hlive, by simp, by simp⟩

/-! ## 5. Numbers -/

/-- **A later table of the same tree**: no number is used anew, a node keeps its parent and its sequent,
    and one that is gone stays gone. -/
structure Continues (t t' : Tree) : Prop where
  size : t.nodes.size ≤ t'.nodes.size
  row : ∀ {n : Nat} {x : TreeNode}, t.nodes[n]? = some x → ∃ y, t'.nodes[n]? = some y ∧ y.parent = x.parent ∧
    y.sequent = x.sequent ∧ (y.live = true → x.live = true)

theorem Continues.refl (t : Tree) : Continues t t := ⟨Nat.le_refl _, fun h => ⟨_, h, rfl, rfl, id⟩⟩

theorem Continues.trans {t'' : Tree} (h : Continues t t') (h' : Continues t' t'') : Continues t t'' where
  size := Nat.le_trans h.size h'.size
  row hx := by
    obtain ⟨y, hy, hp, hq, hl⟩ := h.row hx
    obtain ⟨z, hz, hp', hq', hl'⟩ := h'.row hy
    exact ⟨z, hz, hp'.trans hp, hq'.trans hq, hl ∘ hl'⟩

theorem continues_applyRule {rule : String} {new : List Sequent} {goals : List Goal}
    (h : t.applyRule n rule new = .ok (goals, t')) : Continues t t' where
  size := by
    rw [size_applyRule h]
    exact Nat.le_add_right _ _
  row {i x} hx := by
    have hrow := getElem?_applyRule h i
    rw [if_pos (Array.getElem?_eq_some_iff.mp hx).1, hx] at hrow
    refine ⟨_, hrow, ?_⟩
    by_cases he : n = i <;> simp [he, withChildren]

theorem continues_prune (h : t.prune n = .ok t') : Continues t t' where
  size := Nat.le_of_eq (size_prune h).symm
  row {i x} hx := by
    have hrow := getElem?_prune h i
    rw [hx] at hrow
    refine ⟨_, hrow, ?_⟩
    by_cases he : n = i
    · subst he
      by_cases hd : n ∈ t.descendants n <;> simp [hd]
    · by_cases hd : i ∈ t.descendants n <;> simp [hd, he]

end GoalWatch.Tree
