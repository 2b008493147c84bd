import GoalWatch.CommandLine.RunReport
import GoalWatch.Proofs.Runner.Arrival
import GoalWatch.Proofs.Session.Calm.Applying

/-!
# What a run reports

All goals of a new proof are handed out as one batch. When the launcher returns one outcome for each of them,
the whole report can be said outright.

* `RunReport.numbered` -- the goals of a run, numbered in the order of the file;
* `RunReport.Answering` -- a launcher that returns exactly one outcome for each goal;
* `answered_problems`, `mem_answered_solved` -- the runner that took in these outcomes;
* `select_session`, `same_answerAll` -- the session of a run, up to its answers;
* `marks_eq` -- rows are marked one after the other;
* **`ofRun_eq`** -- the report of a run.
-/

namespace GoalWatch

/-- The answer for a node for which all outcomes say the same. -/
theorem Runner.statusOf_eq {outcomes : List Outcome} {n : NodeId} {st : Status}
    (hall : ∀ o ∈ outcomes, o.node = n → o.status = st) (hsome : ∃ o ∈ outcomes, o.node = n) :
    Runner.statusOf outcomes n = st := by
  unfold Runner.statusOf
  cases hf : outcomes.find? fun o => o.node == n with
  | none =>
      obtain ⟨o, ho, hn⟩ := hsome
      exact absurd (List.find?_eq_none.mp hf o ho) (by simpa using hn)
  | some o => exact hall o (List.mem_of_find?_eq_some hf) (by simpa using List.find?_some hf)

namespace RunReport

open Session (Again nested Same Settled)

variable {name : String} {goals : List Sequent} {settings : Settings} {st : Nat → Status}
  {outcomes : List Outcome}

/-! ## 1. Goals and outcomes -/

/-- The goals of a run, numbered from one on in the order of the file. -/
def numbered (goals : List Sequent) : List Goal := goals.mapIdx fun i q => ⟨i + 1, q⟩

/-- The outcomes hold exactly one for each goal, in any order, and `st i` for the `i`th. -/
def AnswersAll (goals : List Sequent) (st : Nat → Status) (outcomes : List Outcome) : Prop :=
  (outcomes.map fun o => (o.node, o.status)).Perm (goals.mapIdx fun i _ => (i + 1, st i))

/-- **The launcher returns exactly one outcome for each goal**, and `st i` for the `i`th. -/
def Answering (launch : Launch → List Outcome) (settings : Settings) (goals : List Sequent)
    (st : Nat → Status) : Prop :=
  ∀ batch : Launch, batch.settings = settings → batch.problems = numbered goals →
    AnswersAll goals st (launch batch)

theorem mem_numbered {g : Goal} :
    g ∈ numbered goals ↔ ∃ i, ∃ h : i < goals.length, g = ⟨i + 1, goals[i]⟩ := by
  unfold numbered
  rw [List.mem_mapIdx]
  exact exists_congr fun i => exists_congr fun h => eq_comm

theorem nodes_numbered (goals : List Sequent) :
    (numbered goals).map Goal.node = (List.range goals.length).map (· + 1) := by
  unfold numbered
  refine List.ext_getElem (by simp) fun i _ _ => ?_
  simp

theorem numbered_nodup (goals : List Sequent) : ((numbered goals).map Goal.node).Nodup := by
  rw [nodes_numbered]
  exact List.nodup_range.map fun _ _ e => Nat.succ.inj e

/-- The answer for each goal. -/
theorem AnswersAll.statusOf (h : AnswersAll goals st outcomes) {i : Nat} (hi : i < goals.length) :
    Runner.statusOf outcomes (i + 1) = st i := by
  have hmem : ∀ x, x ∈ outcomes.map (fun o => (o.node, o.status)) ↔ ∃ j < goals.length, (j + 1, st j) = x := by
    intro x
    rw [h.mem_iff, List.mem_mapIdx]
    exact exists_congr fun j => exists_prop
  refine Runner.statusOf_eq (fun o ho hn => ?_) ?_
  · obtain ⟨j, _, e⟩ := (hmem _).mp (List.mem_map_of_mem ho)
    obtain ⟨hj, hst⟩ := Prod.mk.injEq .. ▸ e
    rw [← hst, Nat.succ.inj (hj.trans hn)]
  · obtain ⟨o, ho, e⟩ := List.mem_map.mp ((hmem (i + 1, st i)).mpr ⟨i, hi, rfl⟩)
    exact ⟨o, ho, congrArg Prod.fst e⟩

/-! ## 2. The runner -/

/-- The one launch of a run. -/
def onlyLaunch (goals : List Sequent) (settings : Settings) : Launch := ⟨1, settings, numbered goals⟩

/-- The runner of a run, when all goals are handed out. -/
def busy (goals : List Sequent) (settings : Settings) : Runner :=
  ({ settings } : Runner).afterLaunch (numbered goals)

/-- The runner of a run, when the answers are in. -/
def answered (goals : List Sequent) (settings : Settings) (outcomes : List Outcome) : Runner :=
  (busy goals settings).afterAnswers (Tree.ofGoals goals).contains (Tree.ofGoals goals).contains 1 outcomes

theorem contains_numbered (hne : goals ≠ []) {g : Goal} (hg : g ∈ numbered goals) :
    (Tree.ofGoals goals).contains g.node = true := by
  refine Tree.contains_of_isGoal (Tree.isGoal_iff_mem_goals.mpr ⟨g, ?_, rfl⟩)
  rw [Tree.goals_ofGoals hne]
  exact hg

/-- A proof with open goals is not closed. -/
theorem isClosed_ofGoals (hne : goals ≠ []) : (Tree.ofGoals goals).isClosed = false := by
  rw [← Bool.not_eq_true, (Tree.shape_ofGoals goals).isClosed_iff, Tree.goals_ofGoals hne,
    List.mapIdx_eq_nil_iff]
  exact hne

/-- A new runner hands out all goals as its first batch. -/
theorem dispatchOpen_new (hne : goals ≠ []) (hs : settings.hasSolvers = true) :
    ({ settings } : Runner).dispatchOpen .fresh (numbered goals) =
      (some (onlyLaunch goals settings), busy goals settings) := by
  have hpick : ({ settings } : Runner).pick .fresh (numbered goals) = numbered goals := by
    unfold Runner.pick
    rw [firstPerNode_eq_self (numbered_nodup goals)]
    exact List.filter_eq_self.mpr fun g _ => rfl
  have hsome : numbered goals ≠ [] := by
    unfold numbered
    rwa [ne_eq, List.mapIdx_eq_nil_iff]
  show ({ settings } : Runner).dispatch .fresh (numbered goals) = _
  rcases Runner.dispatch_cases { settings } .fresh (numbered goals) with ⟨_, hnone⟩ | ⟨_, _, _, e⟩
  · exact absurd (hpick ▸ hnone rfl hs) hsome
  · rw [e, hpick]
    rfl

/-- Every goal has its answer. -/
theorem answered_problems (hne : goals ≠ []) (outcomes : List Outcome) :
    (answered goals settings outcomes).problems = (numbered goals).map fun g =>
      ⟨g.node, g.sequent, 1, some (Runner.statusOf outcomes g.node)⟩ := by
  unfold answered
  rw [Runner.problems_afterAnswers (x := (1, outcomes))]
  show List.map _ (((numbered goals).map _).filter _) = _
  rw [List.filter_eq_self.mpr, List.map_map]
  · rfl
  · intro p hp
    obtain ⟨g, hg, rfl⟩ := List.mem_map.mp hp
    simp only [contains_numbered hne hg, Bool.true_or]

/-- The proved nodes are those with a valid answer. -/
theorem mem_answered_solved (hne : goals ≠ []) (h : AnswersAll goals st outcomes) {n : NodeId} :
    n ∈ (answered goals settings outcomes).solved ↔ ∃ i < goals.length, n = i + 1 ∧ st i = .valid := by
  unfold answered
  rw [Runner.mem_solved_afterAnswers (x := (1, outcomes))]
  constructor
  · rintro (hn | ⟨p, hp, _, _, rfl, hv, _⟩)
    · exact absurd hn List.not_mem_nil
    · obtain ⟨g, hg, rfl⟩ := List.mem_map.mp hp
      obtain ⟨i, hi, rfl⟩ := mem_numbered.mp hg
      exact ⟨i, hi, rfl, h.statusOf hi ▸ hv⟩
  · rintro ⟨i, hi, rfl, hv⟩
    have hg : ⟨i + 1, goals[i]⟩ ∈ numbered goals := mem_numbered.mpr ⟨i, hi, rfl⟩
    exact Or.inr ⟨_, List.mem_map_of_mem hg, rfl, rfl, rfl, (h.statusOf hi).trans hv,
      contains_numbered hne hg⟩

theorem succ_mem_answered_solved (hne : goals ≠ []) (h : AnswersAll goals st outcomes) {i : Nat}
    (hi : i < goals.length) : i + 1 ∈ (answered goals settings outcomes).solved ↔ st i = .valid := by
  rw [mem_answered_solved hne h]
  constructor
  · rintro ⟨j, _, hj, hv⟩
    rw [Nat.succ.inj hj]
    exact hv
  · exact fun hv => ⟨i, hi, rfl, hv⟩

theorem answered_solved_nodup (goals : List Sequent) (settings : Settings) (outcomes : List Outcome) :
    (answered goals settings outcomes).solved.Nodup := by
  have hasc : Runner.Ascending (answered goals settings outcomes) :=
    Runner.ascending_afterAnswers (c := busy goals settings) List.Pairwise.nil _ _ _ _
  exact List.Pairwise.imp Nat.ne_of_lt hasc

/-- The result of a node whose problems all ended alike. -/
theorem resultOf_eq {problems : List Problem} {n : NodeId} {result : Option Status}
    (hall : ∀ p ∈ problems, p.node = n → p.result = result) (hsome : ∃ p ∈ problems, p.node = n) :
    resultOf problems n = result := by
  unfold resultOf
  cases hf : problems.reverse.find? fun p => p.node == n with
  | none =>
      obtain ⟨p, hp, hn⟩ := hsome
      exact absurd (List.find?_eq_none.mp hf p (List.mem_reverse.mpr hp)) (by simpa using hn)
  | some p =>
      exact hall p (List.mem_reverse.mp (List.mem_of_find?_eq_some hf)) (by simpa using List.find?_some hf)

theorem resultOf_answered (hne : goals ≠ []) (h : AnswersAll goals st outcomes) {i : Nat}
    (hi : i < goals.length) :
    resultOf (answered goals settings outcomes).problems (i + 1) = some (st i) := by
  rw [answered_problems hne]
  refine resultOf_eq (fun p hp hn => ?_) ?_
  · obtain ⟨g, _, rfl⟩ := List.mem_map.mp hp
    rw [← h.statusOf hi, ← hn]
  · exact ⟨_, List.mem_map_of_mem (mem_numbered.mpr ⟨i, hi, rfl⟩), rfl⟩

/-! ## 3. The session -/

/-- The session of a run whose proof has got its runner, before anything is handed out. -/
def manned (name : String) (goals : List Sequent) (settings : Settings) : Session :=
  { proofs := [{ name, tree := .ofGoals goals, subscribers := [⟨0, .runner 0⟩], nextSubscription := 1 }]
    runners := [{ proof := 0, core := { settings }
                  listeners := ({} : ListenerSet Target).add (.registry 0)
                  subscription := some 0, standing := .held }]
    registry := { settings, entries := [(0, 0)], active := some 0 } }

/-- The session of a run when all its goals are handed out. -/
def handedOut (name : String) (goals : List Sequent) (settings : Settings) : Session :=
  ((manned name goals settings).takeLaunch 0 (some (onlyLaunch goals settings), busy goals settings)).2

/-- **The proof of a run is selected**: it gets a runner, and all its goals are handed out. -/
theorem select_session (again : Again) (name : String) (hne : goals ≠ [])
    (hs : settings.hasSolvers = true) :
    (session name goals settings).select again 0 = (0, handedOut name goals settings) := by
  have hselect : (session name goals settings).select again 0 =
      (0, Session.notifyObservers again ((manned name goals settings).dispatchOpen 0 .fresh).2) := rfl
  have hout : ((manned name goals settings).dispatchOpen 0 .fresh).2 = handedOut name goals settings := by
    unfold handedOut
    rw [← dispatchOpen_new hne hs, numbered, ← Tree.goals_ofGoals hne]
    rfl
  rw [hselect, hout, Session.notifyObservers_none rfl]

/-- All answers of a run are those of its one launch. -/
theorem answerAll_handedOut (launch : Launch → List Outcome) :
    answerAll launch (handedOut name goals settings) = Session.complete nested
      { handedOut name goals settings with tasks := [] } 0 1 (launch (onlyLaunch goals settings)) := by
  have hone : (handedOut name goals settings).outstanding =
      [⟨0, onlyLaunch goals settings, .queued⟩] := rfl
  unfold answerAll
  rw [hone]
  rfl

/-- **The answers of a run** change its runner, and nothing else. -/
theorem same_answerAll (name : String) (hne : goals ≠ []) (hs : settings.hasSolvers = true)
    (launch : Launch → List Outcome) :
    Settled (answerAll launch (handedOut name goals settings)) ∧
      Same ((manned name goals settings).setCore 0
        (answered goals settings (launch (onlyLaunch goals settings))))
        (answerAll launch (handedOut name goals settings)) := by
  have hset : Settled { handedOut name goals settings with tasks := [] } := by
    have hselect : Settled ((session name goals settings).select nested 0).2 :=
      Session.settled_select (Session.settled_start [(name, .ofGoals goals)] settings) Nat.one_pos
    rw [select_session nested name hne hs] at hselect
    exact hselect.same ⟨rfl, fun _ => rfl, rfl, fun _ => rfl, rfl⟩
  have hbusy : Same ((manned name goals settings).setCore 0 (busy goals settings))
      { handedOut name goals settings with tasks := [] } := ⟨rfl, fun _ => rfl, rfl, fun _ => rfl, rfl⟩
  rw [answerAll_handedOut]
  refine ⟨Session.settled_complete hset 1 _, ?_⟩
  have hanswered := hbusy.setCore (r := 0) (answered goals settings (launch (onlyLaunch goals settings)))
  rw [Session.setCore_setCore] at hanswered
  exact hanswered.trans (Session.same_complete nested hset
    (Runner.complete_cases.mpr ⟨List.mem_singleton.mpr rfl, rfl⟩))

/-! ## 4. Rows -/

theorem rows_eq {s : Session} (hne : goals ≠ []) (h : AnswersAll goals st outcomes)
    (hs : Same ((manned name goals settings).setCore 0 (answered goals settings outcomes)) s) :
    rows s 0 = goals.mapIdx fun i q =>
      { node := i + 1, sequent := q.display, result := some (st i), applied := none } := by
  unfold rows
  rw [hs.proof, hs.runner]
  show (Tree.ofGoals goals).goals.map _ = _
  rw [Tree.goals_ofGoals hne]
  refine List.ext_getElem (by simp) fun i hi _ => ?_
  have hi' : i < goals.length := by simpa using hi
  simp only [List.getElem_map, List.getElem_mapIdx, GoalReport.mk.injEq, true_and, and_true]
  exact resultOf_answered hne h hi'

theorem rows_nodup (s : Session) (r : RunnerId) : ((rows s r).map GoalReport.node).Nodup := by
  unfold rows
  rw [List.map_map]
  exact List.pairwise_map.mpr ((Tree.goals_pairwise _).imp Nat.ne_of_lt)

/-- In rows of different nodes, only the row of the node is marked. -/
theorem mark_eq : ∀ {rows : List GoalReport}, (rows.map GoalReport.node).Nodup → ∀ (n : NodeId)
    (outcome : Session.ApplyOutcome), mark rows n outcome =
      rows.map fun g => if g.node = n then { g with applied := some outcome } else g
  | [], _, _, _ => rfl
  | g :: rest, h, n, outcome => by
      obtain ⟨hg, hrest⟩ := List.nodup_cons.mp h
      unfold mark
      by_cases hn : g.node = n
      · rw [if_pos hn, List.map_cons, if_pos hn]
        congr 1
        refine (List.map_id rest).symm.trans (List.map_congr_left fun k hk => (if_neg ?_).symm)
        exact fun e => hg (hn.trans e.symm ▸ List.mem_map_of_mem hk)
      · rw [if_neg hn, List.map_cons, if_neg hn, mark_eq hrest]

/-- **Rows are marked one after the other**: in the end those whose node is listed are. -/
theorem marks_eq (outcome : Session.ApplyOutcome) : ∀ (nodes : List NodeId) {rows : List GoalReport},
    (rows.map GoalReport.node).Nodup →
    (nodes.map fun n => (n, outcome)).foldl (fun rows o => mark rows o.1 o.2) rows =
      rows.map fun g => if g.node ∈ nodes then { g with applied := some outcome } else g
  | [], rows, _ => by simp
  | n :: rest, rows, h => by
      have hnodes : ((mark rows n outcome).map GoalReport.node) = rows.map GoalReport.node := by
        rw [mark_eq h, List.map_map]
        refine List.map_congr_left fun g _ => ?_
        simp only [Function.comp]
        split <;> rfl
      rw [List.map_cons, List.foldl_cons, marks_eq outcome rest (by rw [hnodes]; exact h), mark_eq h,
        List.map_map]
      refine List.map_congr_left fun g _ => ?_
      by_cases hn : g.node = n
      · by_cases hm : n ∈ rest <;> simp [hn, hm]
      · by_cases hm : g.node ∈ rest <;> simp [hn, hm]

/-! ## 5. The report -/

section Applying

variable {s : Session} (hne : goals ≠ []) (h : AnswersAll goals st outcomes)
  (hs : Same ((manned name goals settings).setCore 0 (answered goals settings outcomes)) s)

include hne h hs

/-- All proved nodes are selected. -/
theorem report_selected : (s.report 0).1.selected = (answered goals settings outcomes).solved := by
  have hcore : (s.runner 0).core.solved = (answered goals settings outcomes).solved := by
    rw [hs.runner]
    rfl
  have htree : (s.proof (s.runner 0).proof).tree = .ofGoals goals := by
    rw [hs.runner, hs.proof]
    rfl
  have hthere : ∀ n ∈ (answered goals settings outcomes).solved, (Tree.ofGoals goals).contains n = true := by
    intro n hn
    obtain ⟨i, hi, rfl, _⟩ := (mem_answered_solved hne h).mp hn
    exact contains_numbered hne (mem_numbered.mpr ⟨i, hi, rfl⟩)
  unfold Report.selected Session.report
  simp only [hcore, htree, List.filter_eq_self.mpr hthere, List.filter_map, List.map_map]
  simp [Function.comp_def]

/-- **All proved goals are applied**; the goals that are left are those without a valid answer. -/
theorem applyReport_eq (hset : Settled s) :
    let done := (s.report 0).2.applyReport nested (s.report 0).1
    done.1 = (answered goals settings outcomes).solved.map (fun n => (n, .applied)) ∧
      ((done.2.proof 0).tree.isClosed = true ↔ ∀ i < goals.length, st i = .valid) := by
  have hreport : Same s (s.report 0).2 := by
    unfold Session.report
    simp only
    split
    · exact .refl s
    · exact Session.same_probe 0 .none
  have hsame := hs.trans hreport
  have hreg := hsame.registry
  have htree : ((s.report 0).2.proof 0).tree = .ofGoals goals := by
    rw [hsame.proof]
    rfl
  have hgoals := Tree.goals_ofGoals hne
  have hall : ∀ n ∈ (answered goals settings outcomes).solved,
      ((s.report 0).2.proof 0).tree.isGoal n = true ∧ n ∈ ((s.report 0).2.runner 0).core.solved := by
    intro n hn
    obtain ⟨i, hi, rfl, _⟩ := (mem_answered_solved hne h).mp hn
    rw [htree, hsame.runner]
    refine ⟨Tree.isGoal_iff_mem_goals.mpr ⟨⟨i + 1, goals[i]⟩, ?_, rfl⟩, hn⟩
    rw [hgoals]
    exact mem_numbered.mpr ⟨i, hi, rfl⟩
  obtain ⟨hout, hshape, hleft⟩ := Session.applyResults_goals nested (p := 0) (r := 0)
    (answered goals settings outcomes).solved (hset.same hreport) (by rw [hreg]; rfl) (by rw [hreg]; rfl)
    (htree ▸ Tree.shape_ofGoals goals) (answered_solved_nodup goals settings outcomes) hall
  intro done
  rw [show done = Session.applyResults nested (s.report 0).2 (answered goals settings outcomes).solved from
    congrArg _ (report_selected hne h hs)]
  refine ⟨hout, ?_⟩
  rw [hshape.isClosed_iff, List.eq_nil_iff_forall_not_mem]
  simp only [hleft, htree, hgoals, not_and, not_not]
  constructor
  · intro hclosed i hi
    exact (succ_mem_answered_solved hne h hi).mp (hclosed _ (mem_numbered.mpr ⟨i, hi, rfl⟩))
  · intro hvalid g hg
    obtain ⟨i, hi, rfl⟩ := mem_numbered.mp hg
    exact (succ_mem_answered_solved hne h hi).mpr (hvalid i hi)

/-- Exactly the rows with a valid result are marked. -/
theorem applyAll_rows (hset : Settled s) :
    (applyAll s 0 (rows s 0)).1 = goals.mapIdx fun i q =>
      { node := i + 1, sequent := q.display, result := some (st i)
        applied := if st i = .valid then some .applied else none } := by
  have hmarked : (applyAll s 0 (rows s 0)).1 = (rows s 0).map fun g =>
      if g.node ∈ (answered goals settings outcomes).solved
        then { g with applied := some .applied } else g := by
    show List.foldl _ _ (Session.applyReport nested (s.report 0).2 (s.report 0).1).1 = _
    rw [(applyReport_eq hne h hs hset).1]
    exact marks_eq .applied _ (rows_nodup s 0)
  rw [hmarked, rows_eq hne h hs]
  refine List.ext_getElem (by simp) fun i hi _ => ?_
  have hlt : i < goals.length := by simpa using hi
  simp only [List.getElem_map, List.getElem_mapIdx, succ_mem_answered_solved hne h hlt]
  split <;> rfl

end Applying

/-- **The report of a run.** For any goals, and a launcher that returns exactly one outcome for each of
    them: there is one row for each goal, in the order of the file, with its node, its text and its result;
    with `apply`, exactly the rows with a valid result are marked as applied and no row in any other way;
    and the proof is closed exactly if that was asked for and all results are valid. -/
theorem ofRun_eq (name : String) (hne : goals ≠ []) (hs : settings.hasSolvers = true)
    {launch : Launch → List Outcome} (hl : Answering launch settings goals st) (apply : Bool) :
    ofRun name goals settings apply launch =
      { proof := name
        settings := settings.summary
        goals := goals.mapIdx fun i q =>
          { node := i + 1
            sequent := q.display
            result := some (st i)
            applied := if apply && st i == .valid then some .applied else none }
        closed := apply && (List.range goals.length).all fun i => st i == .valid } := by
  have h : AnswersAll goals st (launch (onlyLaunch goals settings)) := hl _ rfl rfl
  obtain ⟨hset, hsame⟩ := same_answerAll name hne hs launch
  unfold ofRun
  rw [select_session nested name hne hs]
  simp only
  generalize answerAll launch (handedOut name goals settings) = s at hset hsame
  cases apply with
  | false =>
      have hrows := rows_eq hne h hsame
      have hopen : (s.proof 0).tree.isClosed = false := by
        rw [hsame.proof]
        exact isClosed_ofGoals hne
      simp [hrows, hopen]
  | true =>
      have hrows := applyAll_rows hne h hsame hset
      have hclosed : ((applyAll s 0 (rows s 0)).2.proof 0).tree.isClosed =
          (List.range goals.length).all fun i => st i == .valid := by
        rw [Bool.eq_iff_iff]
        refine (applyReport_eq hne h hsame hset).2.trans ?_
        simp
      simp [hrows, hclosed]

/-- Three goals, one with a sequent of another, answered last to first; the answer for the second is
    invalid. -/
theorem ofRun_eq_three :
    let goals : List Sequent := [.goal "a", .goal "b", .goal "a"]
    let chosen : Settings := { solvers := .ofList [.z3] }
    let st : Nat → Status := fun i => if i = 1 then .invalid else .valid
    let launch : Launch → List Outcome := fun batch =>
      batch.problems.reverse.map fun g => { node := g.node, status := st (g.node - 1) }
    goals ≠ [] ∧ chosen.hasSolvers = true ∧ Answering launch chosen goals st ∧
      (ofRun "p" goals chosen true launch).goals =
        [⟨1, Sequent.display (.goal "a"), some .valid, some .applied⟩,
          ⟨2, Sequent.display (.goal "b"), some .invalid, none⟩,
          ⟨3, Sequent.display (.goal "a"), some .valid, some .applied⟩] ∧
      (ofRun "p" goals chosen true launch).closed = false := by
  intro goals chosen st launch
  have hne : goals ≠ [] := List.cons_ne_nil _ _
  have hs : chosen.hasSolvers = true := by decide
  have hl : Answering launch chosen goals st := by
    intro batch _ hp
    show List.Perm (List.map _ (batch.problems.reverse.map _)) _
    rw [hp]
    decide
  have hreport := ofRun_eq "p" hne hs hl true
  exact ⟨hne, hs, hl, congrArg RunReport.goals hreport, congrArg RunReport.closed hreport⟩

end RunReport

end GoalWatch
