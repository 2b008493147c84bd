import GoalWatch.Json.Record

/-!
# Sequents

* `Sequent` -- formulas assumed and formulas of which one is to be shown, in SMT-LIB syntax;
* `Sequent.display` -- `a, b ==> c, d`;
* `Sequent.ofJson?` -- from a record of both lists.
-/

namespace GoalWatch

structure Sequent where
  antecedent : List String := []
  succedent : List String := []
  deriving DecidableEq, Repr, Inhabited

namespace Sequent

/-- The sequent that asks for one formula without assumptions. -/
def goal (formula : String) : Sequent := { succedent := [formula] }

/-- Every formula, the assumed ones first. -/
def formulas (s : Sequent) : List String := s.antecedent ++ s.succedent

def display (s : Sequent) : String :=
  String.intercalate ", " s.antecedent ++ " ==> " ++ String.intercalate ", " s.succedent

/-- A record whose two fields are both required. -/
def ofJson? (j : Json) : Option Sequent := do
  match ← j.record? ["antecedent", "succedent"] with
  | [antecedent, succedent] =>
    let antecedent ← Json.required (Json.list? Json.text?) antecedent
    let succedent ← Json.required (Json.list? Json.text?) succedent
    some { antecedent, succedent }
  | _ => none

end Sequent

end GoalWatch
