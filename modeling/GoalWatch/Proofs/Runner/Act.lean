import GoalWatch.Runner.Basic
import Mathlib.Data.List.Nodup

/-!
# What can happen to a runner

The memory of a runner changes in eight ways only. Three of them leave a mark outside: batches are
handed out, answered or given up.

* `Deed` -- such a mark;
* `Runner.Act` -- one change of a runner with its marks, the newest first;
* `Runner.Acts` -- any number of changes;
* `acts_keep` -- what every change keeps, of a runner and the marks so far, any number of them keeps;
* `dispatch_cases`, `complete_cases` -- all that handing out and taking in answers can do.
-/

namespace GoalWatch

/-- A mark that a runner leaves outside. -/
inductive Deed where
  | launched (launch : Launch)
  | completed (batch : BatchId) (outcomes : List Outcome)
  | stopped (batch : BatchId)
  deriving DecidableEq

/-! ## 1. Goals and nodes -/

theorem mem_of_mem_firstPerNode {g : Goal} : ∀ {goals : List Goal}, g ∈ firstPerNode goals → g ∈ goals
  | [], h => h
  | _ :: rest, h => by
      rcases List.mem_cons.mp h with rfl | h
      · exact List.mem_cons_self
      · exact List.mem_cons_of_mem _ (mem_of_mem_firstPerNode (List.mem_filter.mp h).1)

/-- Every goal has one with its node among the first of each node. -/
theorem exists_mem_firstPerNode {g : Goal} : ∀ {goals : List Goal}, g ∈ goals →
    ∃ x ∈ firstPerNode goals, x.node = g.node
  | x :: rest, h => by
      by_cases hx : g.node = x.node
      · exact ⟨x, List.mem_cons_self, hx.symm⟩
      · rcases List.mem_cons.mp h with rfl | h
        · exact absurd rfl hx
        · obtain ⟨y, hy, he⟩ := exists_mem_firstPerNode h
          refine ⟨y, List.mem_cons_of_mem _ (List.mem_filter.mpr ⟨hy, ?_⟩), he⟩
          simpa [he] using hx

theorem firstPerNode_nodup : ∀ goals : List Goal, ((firstPerNode goals).map Goal.node).Nodup
  | [] => List.nodup_nil
  | g :: rest => by
      refine List.nodup_cons.mpr ⟨fun h => ?_, ?_⟩
      · obtain ⟨x, hx, he⟩ := List.mem_map.mp h
        simpa [he] using (List.mem_filter.mp hx).2
      · exact (List.filter_sublist.map Goal.node).nodup (firstPerNode_nodup rest)

/-- Goals of different nodes are all first of their node. -/
theorem firstPerNode_eq_self : ∀ {goals : List Goal}, (goals.map Goal.node).Nodup →
    firstPerNode goals = goals
  | [], _ => rfl
  | g :: rest, h => by
      obtain ⟨hg, hrest⟩ := List.nodup_cons.mp h
      unfold firstPerNode
      rw [firstPerNode_eq_self hrest, List.filter_eq_self.mpr fun k hk => ?_]
      have hne : k.node ≠ g.node := fun e => hg (e ▸ List.mem_map_of_mem hk)
      simpa using hne

theorem firstPerNode_append (goals more : List Goal) :
    firstPerNode (goals ++ more) =
      firstPerNode goals ++ (firstPerNode more).filter fun g => !(goals.map Goal.node).contains g.node := by
  induction goals with
  | nil => simp [firstPerNode]
  | cons g rest ih =>
      rw [List.cons_append, firstPerNode, firstPerNode, ih, List.filter_append, List.filter_filter,
        List.cons_append]
      congr 3
      funext h
      rw [List.map_cons, List.contains_cons, Bool.not_or]
      rfl

theorem mem_addNode {l : List NodeId} {m n : NodeId} : n ∈ addNode l m ↔ n ∈ l ∨ n = m := by
  unfold addNode
  split
  · rename_i h
    have hm : m ∈ l := List.contains_iff_mem.mp h
    exact ⟨Or.inl, fun h => h.elim id fun e => e ▸ hm⟩
  · simp

theorem mem_addNodes {n : NodeId} : ∀ {goals : List Goal} {l : List NodeId},
    n ∈ goals.foldl (fun l g => addNode l g.node) l ↔ n ∈ l ∨ ∃ g ∈ goals, g.node = n
  | [], l => by simp
  | x :: rest, l => by
      rw [List.foldl_cons, mem_addNodes, mem_addNode]
      simp only [List.mem_cons, exists_eq_or_imp]
      tauto

theorem mem_insertNode {m n : NodeId} : ∀ {l : List NodeId}, n ∈ insertNode m l ↔ n = m ∨ n ∈ l
  | [] => by simp [insertNode]
  | x :: rest => by
      unfold insertNode
      split
      · simp
      · split
        · rename_i h
          simp [h]
        · rw [List.mem_cons, mem_insertNode, List.mem_cons]
          tauto

theorem mem_insertNodes {n : NodeId} : ∀ {proved : List Problem} {l : List NodeId},
    n ∈ proved.foldl (fun l p => insertNode p.node l) l ↔ n ∈ l ∨ ∃ p ∈ proved, p.node = n
  | [], l => by simp
  | x :: rest, l => by
      rw [List.foldl_cons, mem_insertNodes, mem_insertNode]
      simp only [List.mem_cons, exists_eq_or_imp]
      tauto

@[simp] theorem Problem.resolve_node (p : Problem) (st : Status) : (p.resolve st).node = p.node := by
  unfold Problem.resolve
  split <;> rfl

@[simp] theorem Problem.resolve_batch (p : Problem) (st : Status) :
    (p.resolve st).batch = p.batch := by
  unfold Problem.resolve
  split <;> rfl

@[simp] theorem Problem.resolve_sequent (p : Problem) (st : Status) :
    (p.resolve st).sequent = p.sequent := by
  unfold Problem.resolve
  split <;> rfl

theorem Problem.resolve_result (p : Problem) (st : Status) : (p.resolve st).result ≠ none := by
  unfold Problem.resolve
  split
  · simp
  · rename_i h
    simp [h]

namespace Runner

/-! ## 2. Handing out and taking in -/

variable {c c' : Runner} {mode : Mode} {goals picked : List Goal}

/-- A runner that handed out `picked`. -/
def afterLaunch (c : Runner) (picked : List Goal) : Runner :=
  { c with
    nextBatch := c.nextBatch + 1
    dispatched := picked.foldl (fun l g => addNode l g.node) c.dispatched
    problems := c.problems ++ picked.map fun g =>
      { node := g.node, sequent := g.sequent, batch := c.nextBatch }
    inFlight := c.inFlight ++ [c.nextBatch]
    launches := c.launches + 1 }

/-- The launch of `picked`. -/
def launchOf (c : Runner) (picked : List Goal) : Launch :=
  { batch := c.nextBatch, settings := c.settings, problems := picked }

/-- What a dispatch does: it only uses up a number, or it hands out all that it may pick. -/
theorem dispatch_cases (c : Runner) (mode : Mode) (goals : List Goal) :
    (c.dispatch mode goals = (none, { c with nextBatch := c.nextBatch + 1 }) ∧
      (c.accepting = true → c.settings.hasSolvers = true → c.pick mode goals = [])) ∨
    (c.accepting = true ∧ c.settings.hasSolvers = true ∧ c.pick mode goals ≠ [] ∧
      c.dispatch mode goals =
        (some (c.launchOf (c.pick mode goals)), c.afterLaunch (c.pick mode goals))) := by
  unfold dispatch
  simp only
  split
  · rename_i h
    refine Or.inl ⟨rfl, fun ha hs => ?_⟩
    simp only [accepting, Bool.and_eq_true, Bool.not_eq_true'] at ha
    simpa [ha, hs] using h
  · rename_i h
    simp only [Bool.or_eq_true, Bool.not_eq_true', List.isEmpty_iff, not_or, Bool.not_eq_true,
      Bool.not_eq_false] at h
    obtain ⟨⟨⟨hc, hsu⟩, hs⟩, hp⟩ := h
    exact Or.inr ⟨by simp [accepting, hc, hsu], hs, hp, rfl⟩

/-- What a dispatch of open goals does: it uses up a number at most, or it hands out all that it may pick. -/
theorem dispatchOpen_eq (c : Runner) (mode : Mode) (goals : List Goal) :
    ((∃ next, c.dispatchOpen mode goals = (none, { c with nextBatch := next })) ∧
      (c.accepting = true → c.settings.hasSolvers = true → c.pick mode goals = [])) ∨
    (c.accepting = true ∧ c.settings.hasSolvers = true ∧ c.pick mode goals ≠ [] ∧
      c.dispatchOpen mode goals =
        (some (c.launchOf (c.pick mode goals)), c.afterLaunch (c.pick mode goals))) := by
  unfold dispatchOpen
  split
  · rcases dispatch_cases c mode goals with ⟨e, hn⟩ | h
    · exact Or.inl ⟨⟨_, e⟩, hn⟩
    · exact Or.inr h
  · rename_i hacc
    exact Or.inl ⟨⟨c.nextBatch, rfl⟩, fun ha => absurd ha hacc⟩

/-- A runner that took in the answers of a batch. -/
def afterAnswers (c : Runner) (found kept : NodeId → Bool) (batch : BatchId)
    (outcomes : List Outcome) : Runner :=
  { c with
    inFlight := c.inFlight.erase batch
    solved := ((c.problems.filter fun p => p.batch == batch && p.result.isNone).filter fun p =>
      statusOf outcomes p.node == .valid && found p.node).foldl (fun l p => insertNode p.node l) c.solved
    problems := (c.problems.map fun p =>
      if p.batch == batch then p.resolve (statusOf outcomes p.node) else p).filter fun p =>
        kept p.node || (c.inFlight.erase batch).contains p.batch }

/-- Answers are taken in exactly for a batch in flight. -/
theorem complete_cases {found kept : NodeId → Bool} {batch : BatchId} {outcomes : List Outcome} :
    c.complete found kept batch outcomes = some c' ↔
      batch ∈ c.inFlight ∧ c' = c.afterAnswers found kept batch outcomes := by
  unfold complete
  split
  · rename_i h
    simp only [Option.some.injEq]
    exact ⟨fun e => ⟨List.contains_iff_mem.mp h, e.symm⟩, fun e => e.2.symm⟩
  · rename_i h
    simp only [reduceCtorEq, false_iff, not_and]
    intro hb
    exact absurd (List.contains_iff_mem.mpr hb) h

theorem complete_eq_none {found kept : NodeId → Bool} {batch : BatchId} {outcomes : List Outcome} :
    c.complete found kept batch outcomes = none ↔ batch ∉ c.inFlight := by
  rw [← not_iff_not, ← ne_eq, Option.ne_none_iff_exists']
  simp only [complete_cases, exists_and_left, exists_eq, and_true, not_not]

/-- A problem after the answers of a batch: one that was there, answered if it belongs to the batch. -/
theorem mem_afterAnswers {found kept : NodeId → Bool} {batch : BatchId} {outcomes : List Outcome}
    {q : Problem} (h : q ∈ (c.afterAnswers found kept batch outcomes).problems) :
    (kept q.node = true ∨ q.batch ∈ c.inFlight.erase batch) ∧
      ∃ p ∈ c.problems, q = if p.batch == batch then p.resolve (statusOf outcomes p.node) else p := by
  obtain ⟨hm, hk⟩ := List.mem_filter.mp h
  obtain ⟨p, hp, rfl⟩ := List.mem_map.mp hm
  refine ⟨?_, p, hp, rfl⟩
  simpa only [Bool.or_eq_true, List.contains_iff_mem] using hk

/-- A problem stays, answered if it belongs to the batch, when its node is kept or its batch still flies. -/
theorem mem_afterAnswers_of_mem {found kept : NodeId → Bool} {batch : BatchId}
    {outcomes : List Outcome} {p : Problem} (hp : p ∈ c.problems)
    (hk : kept p.node = true ∨ p.batch ∈ c.inFlight.erase batch) :
    (if p.batch == batch then p.resolve (statusOf outcomes p.node) else p) ∈
      (c.afterAnswers found kept batch outcomes).problems := by
  refine List.mem_filter.mpr ⟨List.mem_map.mpr ⟨p, hp, rfl⟩, ?_⟩
  simp only [Bool.or_eq_true, List.contains_iff_mem]
  split
  · simpa using hk
  · exact hk

/-! ## 3. Acts -/

/-- **One change of a runner**, with the marks that it leaves. -/
inductive Act (c : Runner) : List Deed → Runner → Prop where
  | dispatch (mode : Mode) (goals : List Goal) :
      Act c ((c.dispatch mode goals).1.toList.map .launched) (c.dispatch mode goals).2
  | suspend : Act c [] c.suspend
  | unsuspend : Act c [] c.unsuspend
  | setSolvers (solvers : SolverSet) : Act c [] (c.setSolvers solvers)
  | complete {found kept : NodeId → Bool} {batch : BatchId} {outcomes : List Outcome} {c' : Runner}
      (h : c.complete found kept batch outcomes = some c') : Act c [.completed batch outcomes] c'
  | stopAll : Act c (c.stopAll.1.map .stopped).reverse c.stopAll.2
  | refresh (settings : Settings) :
      Act c ((c.refresh settings).1.map .stopped).reverse (c.refresh settings).2
  | close : Act c (c.close.1.map .stopped).reverse c.close.2

/-- Any number of changes of a runner. -/
inductive Acts (c : Runner) : List Deed → Runner → Prop where
  | start : Acts c [] c
  | more {ds es : List Deed} {d e : Runner} (h : Acts c ds d) (ha : Act d es e) : Acts c (es ++ ds) e

theorem Acts.one {ds : List Deed} (h : Act c ds c') : Acts c ds c' := by
  simpa using Acts.more .start h

theorem Acts.trans {ds es : List Deed} {d : Runner} (h : Acts c ds c') (h' : Acts c' es d) :
    Acts c (es ++ ds) d := by
  induction h' with
  | start => exact h
  | more _ ha ih =>
      rw [List.append_assoc]
      exact .more ih ha

/-- **What every act keeps, any number of acts keeps**: of a runner and all the marks so far. -/
theorem acts_keep {I : Runner → List Deed → Prop}
    (hI : ∀ {c c' : Runner} {ds es : List Deed}, I c es → Act c ds c' → I c' (ds ++ es))
    {ds es : List Deed} (h0 : I c es) (h : Acts c ds c') : I c' (ds ++ es) := by
  induction h with
  | start => exact h0
  | more _ ha ih =>
      rw [List.append_assoc]
      exact hI ih ha

/-- A dispatch that is not even tried while the runner takes no batches is no change at all. -/
theorem acts_dispatchOpen (c : Runner) (mode : Mode) (goals : List Goal) :
    Acts c ((c.dispatchOpen mode goals).1.toList.map .launched) (c.dispatchOpen mode goals).2 := by
  unfold dispatchOpen
  split
  · exact .one (.dispatch mode goals)
  · exact .start

end Runner

end GoalWatch
