import GoalWatch.Sequent

/-!
# Proof trees

A proof is a tree of nodes. A rule splits an open goal into children or, with no children, closes it;
pruning takes away all that was derived below a node and reopens it. Nodes are numbered in the order
in which they come into being and a number is never used twice: a node that was pruned away stays in the
table, no longer live.

* `Tree.get?` -- a live node;
* `Tree.isGoal`, `Tree.goals` -- open goals, and the list of them in order of their numbers;
* `Tree.isNodeClosed` -- every branch below a node ends in a closed leaf;
* `Tree.applyRule`, `Tree.prune` -- the two changes, which refuse with a `ProofError`.
-/

namespace GoalWatch

abbrev NodeId := Nat

def NodeId.display (n : NodeId) : String := Nat.repr n

/-- An open goal: a node and what is to be shown there. -/
structure Goal where
  node : NodeId
  sequent : Sequent
  deriving DecidableEq, Repr, Inhabited

/-- Why a change of a proof is refused. -/
inductive ProofError where
  | unknownNode (node : NodeId)
  | notAGoal (node : NodeId)
  | ruleRejected (reason : String)
  deriving DecidableEq, Repr

def ProofError.message : ProofError → String
  | .unknownNode n => "Node " ++ Nat.repr n ++ " is not part of the proof"
  | .notAGoal n => "Node " ++ Nat.repr n ++ " is not an open goal"
  | .ruleRejected reason => "Rule application failed: " ++ reason

structure TreeNode where
  parent : Option NodeId
  children : List NodeId := []
  sequent : Sequent
  /-- A rule without new goals was applied here. -/
  closedLeaf : Bool := false
  rule : Option String := none
  live : Bool := true
  deriving DecidableEq, Repr

structure Tree where
  nodes : Array TreeNode
  deriving DecidableEq, Repr

namespace Tree

/-! ## 1. Views -/

/-- The number of the root. -/
def root : NodeId := 0

/-- The node with the given number, if it is live. -/
def get? (t : Tree) (n : NodeId) : Option TreeNode :=
  t.nodes[n]?.filter TreeNode.live

def contains (t : Tree) (n : NodeId) : Bool := (t.get? n).isSome

def isLeaf (t : Tree) (n : NodeId) : Bool :=
  match t.get? n with
  | some x => x.children.isEmpty
  | none => false

def isGoal (t : Tree) (n : NodeId) : Bool :=
  match t.get? n with
  | some x => x.children.isEmpty && !x.closedLeaf
  | none => false

/-- The open goal at a node, if there is one. -/
def goal? (t : Tree) (n : NodeId) : Option Goal :=
  if t.isGoal n then (t.get? n).map fun x => ⟨n, x.sequent⟩ else none

/-- The open goals, in order of their numbers. -/
def goals (t : Tree) : List Goal :=
  (List.range t.nodes.size).filterMap t.goal?

def parent? (t : Tree) (n : NodeId) : Option NodeId := (t.get? n).bind TreeNode.parent

def children (t : Tree) (n : NodeId) : List NodeId := ((t.get? n).map TreeNode.children).getD []

def sequent? (t : Tree) (n : NodeId) : Option Sequent := (t.get? n).map TreeNode.sequent

/-- The rule that was applied at a node. -/
def rule? (t : Tree) (n : NodeId) : Option String := (t.get? n).bind TreeNode.rule

/-- The place of a node among all steps. -/
def stepIndex? (t : Tree) (n : NodeId) : Option Nat := (t.get? n).map fun _ => n

/-- The number of a node and its rule. -/
def nodeName (t : Tree) (n : NodeId) : String :=
  Nat.repr n ++ ":" ++ (t.rule? n).getD "OPEN GOAL"

/-- `isNodeClosed`, looking at most `depth` levels down. -/
def closedWithin (t : Tree) : (depth : Nat) → NodeId → Bool
  | 0, _ => false
  | depth + 1, n =>
    match t.get? n with
    | none => false
    | some x => if x.children.isEmpty then x.closedLeaf else x.children.all (t.closedWithin depth)

/-- Every branch below the node ends in a closed leaf. A tree has no more levels than nodes. -/
def isNodeClosed (t : Tree) (n : NodeId) : Bool := t.closedWithin t.nodes.size n

def isClosed (t : Tree) : Bool := t.isNodeClosed root

/-! ## 2. Building -/

/-- A new node below `parent`, which has to be live. -/
def push (t : Tree) (parent : NodeId) (sequent : Sequent) : Tree :=
  let id := t.nodes.size
  let nodes := t.nodes.modify parent fun x => { x with children := x.children ++ [id] }
  ⟨nodes.push { parent := some parent, sequent }⟩

/-- A proof that starts with one open goal. -/
def ofRoot (sequent : Sequent) : Tree := ⟨#[{ parent := none, sequent }]⟩

/-- A proof whose root was split into the given goals. Without any, the root itself is open. -/
def ofGoals (goals : List Sequent) : Tree :=
  let start : Tree := ⟨#[{ parent := none, sequent := {}, rule := some "split" }]⟩
  goals.foldl (fun t s => t.push root s) start

instance : Inhabited Tree := ⟨ofRoot {}⟩

/-! ## 3. Changes -/

/-- Applies a rule to an open goal. The new goals become its children; none close it. -/
def applyRule (t : Tree) (n : NodeId) (rule : String) (new : List Sequent) :
    Except ProofError (List Goal × Tree) :=
  if !t.contains n then .error (.unknownNode n)
  else if !t.isGoal n then .error (.notAGoal n)
  else
    let marked : Tree :=
      ⟨t.nodes.modify n fun x => { x with rule := some rule, closedLeaf := new.isEmpty }⟩
    let goals := new.mapIdx fun i s => ⟨t.nodes.size + i, s⟩
    .ok (goals, new.foldl (fun t s => t.push n s) marked)

/-- The rule with which the answer of a solver closes a goal. -/
def smtRule (title : String) : String := "SMT (" ++ title ++ ")"

/-- The nodes below a node, at most `depth` levels down. -/
def descendantsWithin (t : Tree) : (depth : Nat) → NodeId → List NodeId
  | 0, _ => []
  | depth + 1, n => (t.children n).flatMap fun c => c :: t.descendantsWithin depth c

/-- The nodes below a node. -/
def descendants (t : Tree) (n : NodeId) : List NodeId := t.descendantsWithin t.nodes.size n

/-- A node that is no longer part of the proof. -/
def remove (t : Tree) (n : NodeId) : Tree := ⟨t.nodes.modify n fun x => { x with live := false }⟩

/-- Makes a node an open goal without a rule. -/
def reopen (t : Tree) (n : NodeId) : Tree :=
  ⟨t.nodes.modify n fun x => { x with children := [], closedLeaf := false, rule := none }⟩

/-- Takes away all that was derived below a node and reopens it. -/
def prune (t : Tree) (n : NodeId) : Except ProofError Tree :=
  if !t.contains n then .error (.unknownNode n)
  else .ok (((t.descendants n).foldl remove t).reopen n)

end Tree

end GoalWatch
