import GoalWatch.Proofs.Runner.Consistent
import Mathlib.Data.List.Sort

/-!
# The order in which answers arrive

Several batches of a runner may be in flight, and their answers may arrive in any order. While the proof
stays as it is, the order makes no difference.

* `Runner.Ascending` -- the proved nodes are listed in ascending order, at all times;
* `takeIn_comm` -- the answers of two batches can be exchanged;
* `takeIn_taken` -- what answers do, no later answers undo;
* **`answers_perm`** -- the answers of any batches leave the same runner in whatever order they arrive, and
  all of them were taken in.
-/

namespace GoalWatch

/-! ## 1. Ascending lists of nodes -/

theorem insertNode_pairwise (n : NodeId) : ∀ {l : List NodeId}, l.Pairwise (· < ·) →
    (insertNode n l).Pairwise (· < ·)
  | [], _ => List.pairwise_singleton _ _
  | m :: rest, h => by
      obtain ⟨hm, hrest⟩ := List.pairwise_cons.mp h
      unfold insertNode
      split
      · rename_i hn
        refine List.pairwise_cons.mpr ⟨fun k hk => ?_, h⟩
        rcases List.mem_cons.mp hk with rfl | hk
        · exact hn
        · exact Nat.lt_trans hn (hm k hk)
      · split
        · exact h
        · rename_i hlt hne
          refine List.pairwise_cons.mpr ⟨fun k hk => ?_, insertNode_pairwise n hrest⟩
          rcases mem_insertNode.mp hk with rfl | hk
          · exact Nat.lt_of_le_of_ne (Nat.le_of_not_lt hlt) (Ne.symm hne)
          · exact hm k hk

theorem insertNodes_pairwise : ∀ (proved : List Problem) {l : List NodeId}, l.Pairwise (· < ·) →
    (proved.foldl (fun l p => insertNode p.node l) l).Pairwise (· < ·)
  | [], _, h => h
  | p :: rest, _, h => insertNodes_pairwise rest (insertNode_pairwise p.node h)

attribute [ext] Runner

namespace Runner

variable {c c' : Runner} {found kept : NodeId → Bool}

/-- The proved nodes are listed in ascending order. -/
def Ascending (c : Runner) : Prop := c.solved.Pairwise (· < ·)

theorem ascending_afterAnswers (h : Ascending c) (found kept : NodeId → Bool) (batch : BatchId)
    (outcomes : List Outcome) : Ascending (c.afterAnswers found kept batch outcomes) :=
  insertNodes_pairwise _ h

theorem ascending_act {ds : List Deed} (h : Ascending c) (ha : Act c ds c') : Ascending c' := by
  cases ha with
  | dispatch mode goals =>
      rcases dispatch_cases c mode goals with ⟨e, _⟩ | ⟨_, _, _, e⟩ <;> rw [e] <;> exact h
  | suspend =>
      unfold suspend
      split <;> exact h
  | unsuspend =>
      unfold unsuspend
      split <;> exact h
  | setSolvers solvers => exact h
  | complete hc =>
      obtain ⟨_, rfl⟩ := complete_cases.mp hc
      exact ascending_afterAnswers h _ _ _ _
  | stopAll => exact h
  | refresh settings => exact h
  | close =>
      unfold close
      split
      · exact h
      · exact List.Pairwise.nil

theorem ascending_acts {ds : List Deed} (h : Ascending c) (ha : Acts c ds c') : Ascending c' := by
  induction ha with
  | start => exact h
  | more _ ha ih => exact ascending_act ih ha

theorem operated_ascending (settings : Settings) (operations : List Operation) :
    Ascending (operations.foldl operate { settings }) := by
  suffices h : ∀ c, Ascending c → Ascending (operations.foldl operate c) from h _ List.Pairwise.nil
  induction operations with
  | nil => intro c h; exact h
  | cons o rest ih =>
      intro c h
      obtain ⟨ds, ha⟩ := acts_operate c o
      exact ih _ (ascending_acts h ha)

/-! ## 2. Two batches -/

/-- The answers of a batch, with the batch they belong to. -/
abbrev Answers := BatchId × List Outcome

/-- Takes in answers as they arrive; those of a batch that is not in flight are ignored. -/
def takeIn (found kept : NodeId → Bool) (c : Runner) (x : Answers) : Runner :=
  c.operate (.completed found kept x.1 x.2)

theorem takeIn_of_mem {x : Answers} (h : x.1 ∈ c.inFlight) :
    c.takeIn found kept x = c.afterAnswers found kept x.1 x.2 := by
  show (c.complete found kept x.1 x.2).getD c = _
  rw [complete_cases.mpr ⟨h, rfl⟩]
  rfl

theorem takeIn_of_not_mem {x : Answers} (h : x.1 ∉ c.inFlight) : c.takeIn found kept x = c := by
  show (c.complete found kept x.1 x.2).getD c = _
  rw [complete_eq_none.mpr h]
  rfl

theorem ascending_takeIn (h : Ascending c) (x : Answers) : Ascending (c.takeIn found kept x) := by
  obtain ⟨ds, ha⟩ := acts_operate c (.completed found kept x.1 x.2)
  exact ascending_acts h ha

theorem consistent_takeIn (h : Consistent c) (x : Answers) : Consistent (c.takeIn found kept x) := by
  obtain ⟨ds, ha⟩ := acts_operate c (.completed found kept x.1 x.2)
  exact consistent_acts h ha

/-- Answers take no other batch out of flight. -/
theorem mem_inFlight_takeIn {x : Answers} {b : BatchId} (hb : b ≠ x.1) :
    b ∈ (c.takeIn found kept x).inFlight ↔ b ∈ c.inFlight := by
  by_cases hx : x.1 ∈ c.inFlight
  · rw [takeIn_of_mem hx]
    exact List.mem_erase_of_ne hb
  · rw [takeIn_of_not_mem hx]

/-- A problem with what the answers of a batch say about it. -/
def answer (x : Answers) (p : Problem) : Problem :=
  if p.batch == x.1 then p.resolve (statusOf x.2 p.node) else p

@[simp] theorem answer_node (x : Answers) (p : Problem) : (answer x p).node = p.node := by
  unfold answer
  split <;> simp

@[simp] theorem answer_batch (x : Answers) (p : Problem) : (answer x p).batch = p.batch := by
  unfold answer
  split <;> simp

theorem answer_of_ne {x : Answers} {p : Problem} (h : p.batch ≠ x.1) : answer x p = p :=
  if_neg (by simpa using h)

theorem answer_comm {x y : Answers} (h : x.1 ≠ y.1) (p : Problem) :
    answer y (answer x p) = answer x (answer y p) := by
  by_cases hp : p.batch = x.1
  · have hy : p.batch ≠ y.1 := hp ▸ h
    rw [answer_of_ne (x := y) (by simpa using hy), answer_of_ne (x := y) hy]
  · rw [answer_of_ne (x := x) hp, answer_of_ne (x := x) (by simpa using hp)]

theorem problems_afterAnswers (c : Runner) (found kept : NodeId → Bool) (x : Answers) :
    (c.afterAnswers found kept x.1 x.2).problems =
      (c.problems.filter fun p => kept p.node || (c.inFlight.erase x.1).contains p.batch).map
        (answer x) := by
  show (c.problems.map (answer x)).filter _ = _
  rw [List.filter_map]
  congr 1
  refine List.filter_congr fun p _ => ?_
  simp [Function.comp]

/-- The nodes that the answers of a batch prove. -/
theorem mem_solved_afterAnswers {x : Answers} {n : NodeId} :
    n ∈ (c.afterAnswers found kept x.1 x.2).solved ↔ n ∈ c.solved ∨
      ∃ p ∈ c.problems, p.batch = x.1 ∧ p.result = none ∧ p.node = n ∧ statusOf x.2 n = .valid ∧
        found n = true := by
  show n ∈ List.foldl _ _ _ ↔ _
  rw [mem_insertNodes]
  simp only [List.mem_filter, Bool.and_eq_true, beq_iff_eq, Option.isNone_iff_eq_none]
  constructor
  · rintro (h | ⟨p, ⟨⟨hp, hb, hr⟩, hv, hf⟩, rfl⟩)
    · exact Or.inl h
    · exact Or.inr ⟨p, hp, hb, hr, rfl, hv, hf⟩
  · rintro (h | ⟨p, hp, hb, hr, rfl, hv, hf⟩)
    · exact Or.inl h
    · exact Or.inr ⟨p, ⟨⟨hp, hb, hr⟩, hv, hf⟩, rfl⟩

/-- The problems of a batch in flight are not touched by the answers of another. -/
theorem mem_problems_afterAnswers_other {x : Answers} {p : Problem} (hb : p.batch ≠ x.1)
    (hf : p.batch ∈ c.inFlight) :
    p ∈ (c.afterAnswers found kept x.1 x.2).problems ↔ p ∈ c.problems := by
  rw [problems_afterAnswers]
  constructor
  · intro h
    obtain ⟨q, hq, rfl⟩ := List.mem_map.mp h
    rw [answer_batch] at hb
    rw [answer_of_ne hb]
    exact (List.mem_filter.mp hq).1
  · intro h
    refine List.mem_map.mpr ⟨p, List.mem_filter.mpr ⟨h, ?_⟩, answer_of_ne hb⟩
    simp [(List.mem_erase_of_ne hb).mpr hf]

/-- Proved by two batches, one after the other: proved before, by the one or by the other. -/
theorem mem_solved_afterAnswers_twice {x y : Answers} (hne : x.1 ≠ y.1) (hy : y.1 ∈ c.inFlight)
    {n : NodeId} :
    n ∈ ((c.afterAnswers found kept x.1 x.2).afterAnswers found kept y.1 y.2).solved ↔
      n ∈ c.solved ∨
      (∃ p ∈ c.problems, p.batch = x.1 ∧ p.result = none ∧ p.node = n ∧ statusOf x.2 n = .valid ∧
        found n = true) ∨
      (∃ p ∈ c.problems, p.batch = y.1 ∧ p.result = none ∧ p.node = n ∧ statusOf y.2 n = .valid ∧
        found n = true) := by
  rw [mem_solved_afterAnswers, mem_solved_afterAnswers, or_assoc]
  refine or_congr_right (or_congr_right (exists_congr fun p => ?_))
  constructor
  · rintro ⟨hp, hb, h⟩
    exact ⟨(mem_problems_afterAnswers_other (hb ▸ hne.symm) (hb ▸ hy)).mp hp, hb, h⟩
  · rintro ⟨hp, hb, h⟩
    exact ⟨(mem_problems_afterAnswers_other (hb ▸ hne.symm) (hb ▸ hy)).mpr hp, hb, h⟩

theorem problems_afterAnswers_comm {x y : Answers} (hne : x.1 ≠ y.1) :
    ((c.afterAnswers found kept x.1 x.2).afterAnswers found kept y.1 y.2).problems =
      ((c.afterAnswers found kept y.1 y.2).afterAnswers found kept x.1 x.2).problems := by
  -- both are the problems that the second, stricter selection leaves, each answered once
  have htwice : ∀ x y : Answers,
      ((c.afterAnswers found kept x.1 x.2).afterAnswers found kept y.1 y.2).problems =
        (c.problems.filter fun p =>
          kept p.node || ((c.inFlight.erase x.1).erase y.1).contains p.batch).map
            (answer y ∘ answer x) := by
    intro x y
    rw [problems_afterAnswers, problems_afterAnswers, List.filter_map, List.map_map,
      List.filter_filter]
    congr 1
    refine List.filter_congr fun p _ => ?_
    rw [Bool.eq_iff_iff]
    simp only [Function.comp, answer_node, answer_batch, afterAnswers, Bool.and_eq_true,
      Bool.or_eq_true, List.contains_iff_mem, and_iff_left_iff_imp]
    exact Or.imp_right List.mem_of_mem_erase
  rw [htwice, htwice, List.erase_comm]
  exact List.map_congr_left fun p _ => answer_comm hne p

/-- **The answers of two batches can be exchanged.** -/
theorem takeIn_comm (h : Ascending c) {x y : Answers} (hne : x.1 ≠ y.1) :
    (c.takeIn found kept x).takeIn found kept y = (c.takeIn found kept y).takeIn found kept x := by
  by_cases hx : x.1 ∈ c.inFlight
  · by_cases hy : y.1 ∈ c.inFlight
    · have hxy : x.1 ∈ (c.takeIn found kept y).inFlight := (mem_inFlight_takeIn hne).mpr hx
      have hyx : y.1 ∈ (c.takeIn found kept x).inFlight := (mem_inFlight_takeIn hne.symm).mpr hy
      rw [takeIn_of_mem hxy, takeIn_of_mem hyx, takeIn_of_mem hx, takeIn_of_mem hy]
      have hsolved : ((c.afterAnswers found kept x.1 x.2).afterAnswers found kept y.1 y.2).solved =
          ((c.afterAnswers found kept y.1 y.2).afterAnswers found kept x.1 x.2).solved := by
        refine List.Pairwise.eq_of_mem_iff
          (ascending_afterAnswers (ascending_afterAnswers h _ _ _ _) _ _ _ _)
          (ascending_afterAnswers (ascending_afterAnswers h _ _ _ _) _ _ _ _) fun n => ?_
        rw [mem_solved_afterAnswers_twice hne hy, mem_solved_afterAnswers_twice hne.symm hx]
        exact or_congr_right or_comm
      exact Runner.ext rfl (List.erase_comm ..) rfl hsolved (problems_afterAnswers_comm hne) rfl rfl
        rfl rfl
    · rw [takeIn_of_not_mem hy, takeIn_of_not_mem (mt (mem_inFlight_takeIn hne.symm).mp hy)]
  · rw [takeIn_of_not_mem hx, takeIn_of_not_mem (mt (mem_inFlight_takeIn hne).mp hx)]

/-! ## 3. Any number of batches -/

theorem takeIn_perm {xs ys : List Answers} (hp : xs.Perm ys) (h : Ascending c)
    (hnd : (xs.map Prod.fst).Nodup) :
    xs.foldl (takeIn found kept) c = ys.foldl (takeIn found kept) c := by
  induction hp generalizing c with
  | nil => rfl
  | cons x _ ih => exact ih (ascending_takeIn h x) (List.nodup_cons.mp hnd).2
  | swap x y rest =>
      have hne : y.1 ≠ x.1 := fun e => (List.nodup_cons.mp hnd).1 (e ▸ List.mem_cons_self)
      simp only [List.foldl_cons]
      rw [takeIn_comm h hne]
  | trans hp _ ih ih' => exact (ih h hnd).trans (ih' h ((hp.map Prod.fst).nodup hnd))

/-- **The answers `x` that `c` was waiting for are in effect in `d`**: their batch is no longer in flight,
    its problems have the results that the answers give, and the nodes that they prove are proved. -/
structure Taken (found kept : NodeId → Bool) (c : Runner) (x : Answers) (d : Runner) : Prop where
  landed : x.1 ∉ d.inFlight
  resolved : ∀ p ∈ c.problems, p.batch = x.1 → kept p.node = true →
    { p with result := some (statusOf x.2 p.node) } ∈ d.problems
  proved : ∀ p ∈ c.problems, p.batch = x.1 → statusOf x.2 p.node = .valid → found p.node = true →
    p.node ∈ d.solved

theorem takeIn_taken (h : Consistent c) {x : Answers} (hx : x.1 ∈ c.inFlight) :
    Taken found kept c x (c.takeIn found kept x) := by
  have hopen : ∀ p ∈ c.problems, p.batch = x.1 → p.result = none :=
    fun p hp hb => h.openFlight p hp (hb ▸ hx)
  rw [takeIn_of_mem hx]
  refine ⟨fun hm => (h.flightOnce.mem_erase_iff.mp hm).1 rfl, fun p hp hb hk => ?_, fun p hp hb hv hf => ?_⟩
  · have he : answer x p = { p with result := some (statusOf x.2 p.node) } := by
      simp [answer, hb, Problem.resolve, hopen p hp hb]
    rw [problems_afterAnswers, ← he]
    exact List.mem_map_of_mem (List.mem_filter.mpr ⟨hp, by simp [hk]⟩)
  · exact mem_solved_afterAnswers.mpr (Or.inr ⟨p, hp, hb, hopen p hp hb, rfl, hv, hf⟩)

/-- Answers that are in effect stay so: later ones leave results alone, and forget no proved node. -/
theorem Taken.takeIn {x : Answers} {d : Runner} (h : Taken found kept c x d) (y : Answers) :
    Taken found kept c x (d.takeIn found kept y) := by
  by_cases hy : y.1 ∈ d.inFlight
  · rw [takeIn_of_mem hy]
    refine ⟨fun hm => h.landed (List.mem_of_mem_erase hm), fun p hp hb hk => ?_, fun p hp hb hv hf => ?_⟩
    · have he : answer y { p with result := some (statusOf x.2 p.node) } =
          { p with result := some (statusOf x.2 p.node) } := by
        simp [answer, Problem.resolve]
      rw [problems_afterAnswers, ← he]
      exact List.mem_map_of_mem (List.mem_filter.mpr ⟨h.resolved p hp hb hk, by simp [hk]⟩)
    · exact mem_solved_afterAnswers.mpr (Or.inl (h.proved p hp hb hv hf))
  · rw [takeIn_of_not_mem hy]
    exact h

/-- What the answers of another batch leave waiting was waiting before. -/
theorem Taken.of_takeIn {x y : Answers} {d : Runner} (hne : x.1 ≠ y.1) (hx : x.1 ∈ c.inFlight)
    (h : Taken found kept (c.takeIn found kept y) x d) : Taken found kept c x d := by
  have hmem : ∀ p ∈ c.problems, p.batch = x.1 → p ∈ (c.takeIn found kept y).problems := by
    intro p hp hb
    by_cases hy : y.1 ∈ c.inFlight
    · rw [takeIn_of_mem hy]
      exact (mem_problems_afterAnswers_other (hb ▸ hne) (hb ▸ hx)).mpr hp
    · rw [takeIn_of_not_mem hy]
      exact hp
  exact ⟨h.landed, fun p hp hb => h.resolved p (hmem p hp hb) hb, fun p hp hb => h.proved p (hmem p hp hb) hb⟩

theorem takeInAll_taken : ∀ (xs : List Answers) {c : Runner}, Consistent c → (xs.map Prod.fst).Nodup →
    ∀ x ∈ xs, x.1 ∈ c.inFlight → Taken found kept c x (xs.foldl (takeIn found kept) c)
  | y :: rest, c, h, hnd, x, hm, hx => by
      obtain ⟨hy, hrest⟩ := List.nodup_cons.mp hnd
      rcases List.mem_cons.mp hm with rfl | hm
      · -- taken in now, and kept by all that arrives later
        have hlater : ∀ (zs : List Answers) (d : Runner), Taken found kept c x d →
            Taken found kept c x (zs.foldl (takeIn found kept) d) := by
          intro zs
          induction zs with
          | nil => exact fun d hd => hd
          | cons z zs ih => exact fun d hd => ih _ (hd.takeIn z)
        exact hlater rest _ (takeIn_taken h hx)
      · have hne : x.1 ≠ y.1 := fun e => hy (e ▸ List.mem_map_of_mem hm)
        exact (takeInAll_taken rest (consistent_takeIn h y) hrest x hm
          ((mem_inFlight_takeIn hne).mpr hx)).of_takeIn hne hx

/-- **The order in which answers arrive makes no difference.** Whatever was done with a runner before, the
    answers of different batches, with any contents, leave the same runner in whatever order they arrive
    while the proof stays the same; so every sequent has the same cached result. The answers of all
    batches that were in flight are in effect then. -/
theorem answers_perm (settings : Settings) (operations : List Operation) (found kept : NodeId → Bool)
    {xs ys : List Answers} (hp : xs.Perm ys) (hnd : (xs.map Prod.fst).Nodup) :
    let c := operations.foldl operate { settings }
    let d := xs.foldl (takeIn found kept) c
    ys.foldl (takeIn found kept) c = d ∧
      (∀ q, (ys.foldl (takeIn found kept) c).cachedResult q = d.cachedResult q) ∧
      ∀ x ∈ xs, x.1 ∈ c.inFlight → Taken found kept c x d := by
  intro c d
  have he : ys.foldl (takeIn found kept) c = d :=
    (takeIn_perm hp (operated_ascending settings operations) hnd).symm
  refine ⟨he, fun q => by rw [he], ?_⟩
  exact takeInAll_taken xs (operated_consistent settings operations) hnd

/-- Three batches in flight after a stop and a retry, one answered with a node that the proof no longer
    has, one with a node twice: the last one in is the first one out. -/
theorem answers_perm_three :
    let chosen : Settings := { solvers := .ofList [.z3] }
    let a : Goal := ⟨1, .goal "a"⟩
    let b : Goal := ⟨2, .goal "b"⟩
    let operations : List Operation :=
      [.dispatchOpenGoals [a], .stopAll, .resume [a], .ruleApplied [b], .ruleApplied [⟨3, .goal "a"⟩]]
    let there : NodeId → Bool := fun n => n != 2
    let xs : List Answers := [(2, [⟨1, .valid, none, none⟩, ⟨1, .invalid, none, none⟩]),
      (3, [⟨2, .valid, none, none⟩]), (4, [⟨3, .invalid, none, none⟩])]
    let c := operations.foldl operate { settings := chosen }
    let d := xs.foldl (takeIn there there) c
    c.inFlight = [2, 3, 4] ∧ (xs.map Prod.fst).Nodup ∧ xs.Perm xs.reverse ∧
      xs.reverse.foldl (takeIn there there) c = d ∧ d.inFlight = [] ∧ d.solved = [1] ∧
      d.problems.map Problem.batch = [1, 2, 4] ∧ d.cachedResult (.goal "a") = some .valid := by
  intro chosen a b operations there xs c d
  have hnd : (xs.map Prod.fst).Nodup := by decide +kernel
  have hp : xs.Perm xs.reverse := (List.reverse_perm xs).symm
  obtain ⟨he, _, _⟩ := answers_perm chosen operations there there hp hnd
  exact ⟨by decide +kernel, hnd, hp, he, by decide +kernel, by decide +kernel, by decide +kernel,
    by decide +kernel⟩

end Runner

end GoalWatch
