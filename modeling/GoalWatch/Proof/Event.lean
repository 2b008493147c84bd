import GoalWatch.Proof.Tree

/-!
# Events

What a proof tells its subscribers.
-/

namespace GoalWatch

inductive Event where
  /-- A rule was applied; these goals are new. -/
  | ruleApplied (newGoals : List Goal)
  | autoModeStarted
  | autoModeStopped
  /-- The tree changed other than by a rule. -/
  | treeStructureChanged
  | proofClosed
  deriving DecidableEq, Repr

end GoalWatch
