/-!
# Solvers

The SMT solvers that can be asked, how each is started, and sets of them.

* `Solver` -- the solvers, in their fixed order;
* `Solver.supportsBackground` -- all but the counterexample finder can answer in the background;
* `SolverSet` -- a set of solvers; equal sets have the same members (`SolverSet.ext_contains`).
-/

namespace GoalWatch

/-! ## 1. Solvers -/

inductive Solver where
  | z3
  | cvc5
  | cvc4
  | yices2
  | z3CounterExample
  deriving DecidableEq, Repr, Inhabited

namespace Solver

/-- Every solver, in order. -/
def all : List Solver := [z3, cvc5, cvc4, yices2, z3CounterExample]

/-- The name shown to people. -/
def name : Solver → String
  | z3 => "Z3"
  | cvc5 => "CVC5"
  | cvc4 => "CVC4"
  | yices2 => "Yices2"
  | z3CounterExample => "Z3 (CE)"

/-- The name used in files. -/
def key : Solver → String
  | z3 => "z3"
  | cvc5 => "cvc5"
  | cvc4 => "cvc4"
  | yices2 => "yices2"
  | z3CounterExample => "z3_counter_example"

/-- The name of the variant, as it stands in a description of internal state. -/
def variantName : Solver → String
  | z3 => "Z3"
  | cvc5 => "Cvc5"
  | cvc4 => "Cvc4"
  | yices2 => "Yices2"
  | z3CounterExample => "Z3CounterExample"

/-- The program to start. -/
def binary : Solver → String
  | z3 => "z3"
  | cvc5 => "cvc5"
  | cvc4 => "cvc4"
  | yices2 => "yices-smt2"
  | z3CounterExample => "z3"

/-- The arguments that make the program read a script from its standard input. -/
def stdinArgs : Solver → List String
  | z3 => ["-in", "-smt2"]
  | cvc5 => ["--lang=smt2"]
  | cvc4 => ["--lang=smt2"]
  | yices2 => []
  | z3CounterExample => ["-in", "-smt2"]

/-- Offered only in experimental mode. -/
def isLegacy : Solver → Bool
  | cvc4 => true
  | yices2 => true
  | _ => false

def supportsBackground : Solver → Bool
  | z3CounterExample => false
  | _ => true

/-- The solver with the given file name. -/
def ofKey? (k : String) : Option Solver :=
  all.find? fun s => s.key == k

@[simp] theorem mem_all (s : Solver) : s ∈ all := by
  cases s <;> decide

end Solver

/-! ## 2. Sets of solvers -/

/-- A set of solvers, by its membership test. -/
structure SolverSet where
  contains : Solver → Bool

namespace SolverSet

theorem ext_contains {a b : SolverSet} (h : ∀ s, a.contains s = b.contains s) : a = b := by
  cases a
  cases b
  congr
  exact funext h

/-- The members, in order. -/
def toList (a : SolverSet) : List Solver := Solver.all.filter a.contains

def empty : SolverSet := ⟨fun _ => false⟩

def ofList (l : List Solver) : SolverSet := ⟨fun s => l.contains s⟩

def insert (a : SolverSet) (s : Solver) : SolverSet := ⟨fun t => t == s || a.contains t⟩

def erase (a : SolverSet) (s : Solver) : SolverSet := ⟨fun t => t != s && a.contains t⟩

/-- The members with the given property. -/
def filter (a : SolverSet) (p : Solver → Bool) : SolverSet := ⟨fun s => a.contains s && p s⟩

def any (a : SolverSet) (p : Solver → Bool) : Bool := a.toList.any p

instance : Inhabited SolverSet := ⟨empty⟩

instance : DecidableEq SolverSet := fun a b =>
  if h : Solver.all.all (fun s => a.contains s == b.contains s) = true then
    .isTrue (ext_contains fun s => by
      have := List.all_eq_true.1 h s (Solver.mem_all s)
      simpa using this)
  else
    .isFalse fun hab => h (by simp [hab])

@[simp] theorem mem_toList (a : SolverSet) (s : Solver) : s ∈ a.toList ↔ a.contains s = true := by
  simp [toList]

@[simp] theorem contains_empty (s : Solver) : empty.contains s = false := rfl

@[simp] theorem contains_ofList (l : List Solver) (s : Solver) :
    (ofList l).contains s = l.contains s := rfl

@[simp] theorem contains_insert (a : SolverSet) (s t : Solver) :
    (a.insert s).contains t = (t == s || a.contains t) := rfl

@[simp] theorem contains_erase (a : SolverSet) (s t : Solver) :
    (a.erase s).contains t = (t != s && a.contains t) := rfl

@[simp] theorem contains_filter (a : SolverSet) (p : Solver → Bool) (s : Solver) :
    (a.filter p).contains s = (a.contains s && p s) := rfl

/-- A set is what its list of members makes. -/
theorem ofList_toList (a : SolverSet) : ofList a.toList = a :=
  ext_contains fun s => by
    rw [contains_ofList]
    by_cases h : a.contains s = true
    · simp [h]
    · have hn : s ∉ a.toList := by simp [h]
      simp [hn, h]

end SolverSet

end GoalWatch
