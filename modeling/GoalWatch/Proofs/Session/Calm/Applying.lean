import GoalWatch.Proofs.Runner.Station
import GoalWatch.Proofs.Session.Calm.Moves
import GoalWatch.Proofs.Session.Trees
import GoalWatch.Session.Report

/-!
# Proved goals are closed one after the other

In a session without clients, the answers for proved goals of the active proof are applied one after the other.
The proof closes with its last open goal only, and up to then nothing else changes.

* `applyResult_goal` -- the answer for one proved goal is applied;
* **`applyResults_goals`** -- the answers for any proved goals are applied, and exactly these are closed.
-/

namespace GoalWatch.Session

variable {s s' : Session} {p : ProofId} {r : RunnerId} {tree : Tree} {again : Again}

/-! ## 1. One goal -/

/-- A runner takes in the new goals of its proof. -/
theorem same_deliver_rule (again : Again) (h : Calm s) (he : s.registry.runnerFor? p = some r)
    (hs : Same (s.setTree p tree) s') (goals : List Goal) :
    Same ((s.setTree p tree).setCore r ((s.runner r).core.dispatchOpen .fresh goals).2)
      (deliver again p s' (.ruleApplied goals)) := by
  have hT := h.tended p r he
  obtain ⟨id, hsub, _⟩ := hT.subscribed
  have hprf : s'.proof p = { s.proof p with tree } := by
    rw [hs.proof, proof_setTree_self hT.proofIn]
  obtain ⟨s1, hs1, e⟩ := deliver_one again (by rw [hprf]; exact hsub) (.ruleApplied goals)
  have hrun : s1.runner r = s.runner r := (hs.trans hs1).runner r
  rw [e, ← hrun]
  exact ((hs.trans hs1).setCore _).trans (same_takeLaunch _)

/-- The end of a proof leaves its tree as it is. -/
theorem tree_deliver_closed (again : Again) (h : Calm s) (he : s.registry.runnerFor? p = some r) :
    ((deliver again p s .proofClosed).proof p).tree = (s.proof p).tree := by
  have hT := h.tended p r he
  obtain ⟨id, hsub, _⟩ := hT.subscribed
  obtain ⟨s1, hs1, e⟩ := deliver_one again hsub .proofClosed
  obtain ⟨_, _, _, hproof, _, _⟩ := close_cases again (h.same hs1) (p := p) (r := r)
    (by rw [hs1.registry]; exact he)
  rw [e]
  show ((close again s1 r).proof p).tree = _
  rw [hproof, proof_modifyProof_self _ (hs1.proofs ▸ hT.proofIn), hs1.proof]

/-- **The answer for one proved goal is applied.** Unless that closes the proof, the registry and the proved
    nodes stay as they are. -/
theorem applyResult_goal (again : Again) (h : Settled s) (hact : s.registry.active = some p)
    (he : s.registry.runnerFor? p = some r) (hshape : (s.proof p).tree.Shape) {g : Goal}
    (hg : g ∈ (s.proof p).tree.goals) (hsol : g.node ∈ (s.runner r).core.solved) :
    ∃ rule tree s', (s.proof p).tree.applyRule g.node rule [] = .ok ([], tree) ∧
      applyResult again s g.node = (.applied, s') ∧ (s'.proof p).tree = tree ∧
      (tree.isClosed = false →
        s'.registry = s.registry ∧ (s'.runner r).core.solved = (s.runner r).core.solved) := by
  have hT := h.tended p r he
  have hactive : s.registry.activeRunner? = some r := by
    unfold Registry.activeRunner?
    rw [hact]
    exact he
  have hcan : s.canApply g.node = true := by
    refine (canApply_iff_solved hactive ?_ ?_).mpr hsol <;> rw [hT.watches]
    · exact hshape
    · exact hg
  rcases applyResult_cases again h.toCalm g.node with ⟨hno, _⟩ | ⟨q, k, rule, tree, s', hq, hk, hr, hs, e⟩
  · cases hno.symm.trans hcan
  · cases hq.symm.trans hact
    cases hk.symm.trans he
    obtain ⟨_, hzero, hheld⟩ := h.plain p
    obtain ⟨hs1, e1⟩ := resumeEvents_held again hzero hheld hT.proofIn hs
    generalize s'.modifyProof p (fun w => { w with paused := 0, held := [] }) = s1 at hs1 e1
    have hrule := same_deliver_rule again h.toCalm he hs1 []
    have hset : Settled (deliver again p s1 (.ruleApplied [])) := settled_deliver_rule again h hr hs1
    have htree : ((deliver again p s1 (.ruleApplied [])).proof p).tree = tree := by
      rw [hrule.proof]
      show ((s.setTree p tree).proof p).tree = tree
      rw [proof_setTree_self hT.proofIn]
    refine ⟨rule, tree, _, hr, e, ?_, fun hopen => ?_⟩
    · rw [e1]
      unfold ruleEvents
      split
      · refine (tree_deliver_closed again hset.toCalm (r := r) ?_).trans htree
        rw [hrule.registry]
        exact he
      · exact htree
    · rw [e1]
      unfold ruleEvents
      rw [if_neg (by rw [hopen]; exact Bool.false_ne_true)]
      refine ⟨hrule.registry, ?_⟩
      show ((deliver again p s1 (.ruleApplied [])).runner r).core.solved = _
      rw [hrule.runner, setCore, runner_modifyRunner_self (s := s.setTree p tree) _ hT.runnerIn]
      exact Station.dispatchOpen_solved _ _ _

/-! ## 2. Any number of goals -/

/-- **The answers for any proved goals of the active proof are applied**, one after the other: each is
    applied, and the open goals that are left are the others. -/
theorem applyResults_goals (again : Again) : ∀ (nodes : List NodeId) {s : Session}, Settled s →
    s.registry.active = some p → s.registry.runnerFor? p = some r → (s.proof p).tree.Shape →
    nodes.Nodup → (∀ n ∈ nodes, (s.proof p).tree.isGoal n = true ∧ n ∈ (s.runner r).core.solved) →
    (applyResults again s nodes).1 = nodes.map (fun n => (n, .applied)) ∧
      ((applyResults again s nodes).2.proof p).tree.Shape ∧
      ∀ g, g ∈ ((applyResults again s nodes).2.proof p).tree.goals ↔
        g ∈ (s.proof p).tree.goals ∧ g.node ∉ nodes
  | [], s, _, _, _, hshape, _, _ => ⟨rfl, hshape, fun g => by simp [applyResults]⟩
  | n :: rest, s, h, hact, he, hshape, hnd, hall => by
      obtain ⟨hn, hrest⟩ := List.nodup_cons.mp hnd
      obtain ⟨hgoal, hsol⟩ := hall n List.mem_cons_self
      obtain ⟨g, hg, rfl⟩ := Tree.isGoal_iff_mem_goals.mp hgoal
      obtain ⟨rule, tree, s', hr, happly, htree, hopen⟩ := applyResult_goal again h hact he hshape hg hsol
      have hset : Settled s' := by
        have hs : Settled (applyResult again s g.node).2 := settled_applyResult h g.node
        rw [happly] at hs
        exact hs
      have hshape' : (s'.proof p).tree.Shape := htree ▸ Tree.shape_applyRule hshape hr
      have hgoals : ∀ k, k ∈ (s'.proof p).tree.goals ↔ k ∈ (s.proof p).tree.goals ∧ k.node ≠ g.node := by
        intro k
        rw [htree, Tree.goals_applyRule hr]
        simp
      -- those that come later are still open
      have hleft : ∀ m ∈ rest, (s'.proof p).tree.isGoal m = true := by
        intro m hm
        obtain ⟨k, hk, rfl⟩ := Tree.isGoal_iff_mem_goals.mp (hall m (List.mem_cons_of_mem _ hm)).1
        exact Tree.isGoal_iff_mem_goals.mpr ⟨k, (hgoals k).mpr ⟨hk, fun e => hn (e ▸ hm)⟩, rfl⟩
      have hfirst : applyResults again s (g.node :: rest) =
          ((g.node, .applied) :: (applyResults again s' rest).1, (applyResults again s' rest).2) := by
        simp only [applyResults, happly]
      rw [hfirst]
      cases rest with
      | nil =>
          refine ⟨rfl, hshape', fun k => ?_⟩
          rw [show (applyResults again s' []).2 = s' from rfl, hgoals]
          simp
      | cons m later =>
          obtain ⟨hreg, hsolved⟩ := hopen (htree ▸ hshape'.isClosed_of_isGoal (hleft m List.mem_cons_self))
          obtain ⟨hout, hsh, hgs⟩ := applyResults_goals again (m :: later) hset (hreg ▸ hact) (hreg ▸ he)
            hshape' hrest fun k hk => ⟨hleft k hk, hsolved ▸ (hall k (List.mem_cons_of_mem _ hk)).2⟩
          refine ⟨by rw [hout]; rfl, hsh, fun k => ?_⟩
          rw [hgs, hgoals, List.mem_cons (a := k.node) (b := g.node), not_or, and_assoc]

end GoalWatch.Session
