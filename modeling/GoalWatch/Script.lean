import GoalWatch.Sequent
import GoalWatch.Text.Blank

/-!
# SMT-LIB scripts

A sequent becomes a script whose assertions are unsatisfiable exactly when the sequent is valid: what is
assumed is asserted, and so is the negation of what is to be shown.

* `balanced` -- every closing parenthesis has its opening one and the other way round;
* `FormulaFault` -- why a formula is refused; `formulaFault?` finds it;
* `text` -- a script: declarations, assertions, the question;
* `ofSequent` -- the script of a sequent, or the fault of its first bad formula.
-/

namespace GoalWatch.Script

/-! ## 1. Formulas -/

/-- With `depth` parentheses open, the text closes each of them and all of its own. -/
def balancedFrom : (depth : Nat) → List Char → Bool
  | depth, [] => depth == 0
  | depth, '(' :: r => balancedFrom (depth + 1) r
  | 0, ')' :: _ => false
  | depth + 1, ')' :: r => balancedFrom depth r
  | depth, _ :: r => balancedFrom depth r

def balanced (formula : String) : Bool := balancedFrom 0 formula.toList

inductive FormulaFault where
  | empty
  | unbalanced (formula : String)
  deriving DecidableEq, Repr

def FormulaFault.message : FormulaFault → String
  | .empty => "empty formula"
  | .unbalanced formula => "unbalanced parentheses in `" ++ formula ++ "`"

/-- The fault of a formula, if it has one. -/
def formulaFault? (formula : String) : Option FormulaFault :=
  if Text.isAllBlank formula then some .empty
  else if balanced formula then none
  else some (.unbalanced formula)

/-! ## 2. Scripts -/

def assertion (formula : String) : String := "(assert " ++ formula ++ ")\n"

/-- The assertion that none of the formulas holds. -/
def refutation : List String → String
  | [] => ""
  | [formula] => assertion ("(not " ++ formula ++ ")")
  | formulas => assertion ("(not (or " ++ String.intercalate " " formulas ++ "))")

/-- The text of a script: declarations, assertions, the question. -/
def text (declarations : List String) (s : Sequent) : String :=
  String.join (declarations.map (· ++ "\n")) ++ String.join (s.antecedent.map assertion) ++
    refutation s.succedent ++ "(check-sat)\n(exit)\n"

/-- The script of a sequent, or the fault of its first bad formula. -/
def ofSequent (declarations : List String) (s : Sequent) : Except FormulaFault String :=
  match s.formulas.findSome? formulaFault? with
  | some fault => .error fault
  | none => .ok (text declarations s)

end GoalWatch.Script
