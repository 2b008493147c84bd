import GoalWatch.Proofs.Script.Reading
import GoalWatch.Proofs.Script.Acceptance

/-!
# What a script asks

A sequent whose formulas are s-expressions becomes a script that reads as assertions, and the assertions hold under
an assignment if and only if it makes every formula assumed true and every formula to be shown false.

* `SExpr.Spells.dyck`, `SExpr.Spells.acceptable` -- the text of an expression can be asserted;
* `SExpr.asserting`, `SExpr.denial` -- what a script says of an expression, and of those to be shown;
* `Script.spells_text` -- the expressions that a script spells out;
* `SExpr.IsBoolean` -- an assignment for which `not` and `or` are negation and disjunction;
* **`Script.ofSequent_meaning`** -- the assertions are unsatisfiable if and only if the sequent is valid.
-/

namespace GoalWatch

namespace SExpr

open Text (isBlank)

/-! ## 1. The text of an expression can be asserted -/

variable {cs : List Char} {es args : List SExpr}

/-- **The parentheses of a text match if it spells out expressions.** -/
theorem Spells.dyck (h : Spells cs es) : Script.Dyck cs := by
  induction h with
  | nil => exact Script.dyck_plain fun _ hc => absurd hc List.not_mem_nil
  | @blank c cs _ hc _ ih =>
      have hblank : Script.Dyck [c] := Script.dyck_plain (List.forall_mem_singleton.mpr (ne_of_isBlank hc))
      exact hblank.append ih
  | @list inner cs _ _ _ _ ihin ih =>
      have hlist := ihin.enclosed.append ih
      rwa [List.cons_append, List.append_assoc] at hlist
  | atom _ hplain _ _ ih =>
      refine (Script.dyck_plain fun c hc => ?_).append ih
      exact ⟨(ne_of_isPlain (hplain c hc)).1, (ne_of_isPlain (hplain c hc)).2.1⟩

/-- A text of nothing but blanks spells out nothing. -/
theorem Spells.eq_nil_of_blank (h : Spells cs es) : (∀ c ∈ cs, isBlank c = true) → es = [] := by
  induction h with
  | nil => exact fun _ => rfl
  | blank _ _ ih => exact fun hblank => ih fun c hc => hblank c (List.mem_cons_of_mem _ hc)
  | list _ _ _ _ => exact fun hblank => absurd (hblank '(' List.mem_cons_self) (by decide)
  | @atom word _ _ hne hplain _ _ _ =>
      intro hblank
      obtain ⟨c, hc⟩ := List.exists_mem_of_ne_nil word hne
      have hno := (ne_of_isPlain (hplain c hc)).2.2
      rw [hblank c (List.mem_append_left _ hc)] at hno
      cases hno

theorem Spells.acceptable {formula : String} (h : Spells formula.toList es) (hne : es ≠ []) :
    Script.Acceptable formula := by
  refine ⟨?_, h.dyck⟩
  by_contra hnone
  refine hne (h.eq_nil_of_blank fun c hc => ?_)
  exact eq_true_of_ne_false fun hblank => hnone ⟨c, hc, hblank⟩

/-! ## 2. Commands -/

/-- The list that starts with a name. -/
def apply (name : String) (args : List SExpr) : SExpr := .list (.atom name :: args)

/-- The command that asserts an expression. -/
def asserting (a : SExpr) : SExpr := apply "assert" [a]

/-- What is asserted of the expressions to be shown: that none of them holds. -/
def denial : List SExpr → Option SExpr
  | [] => none
  | [b] => some (apply "not" [b])
  | bs => some (apply "not" [apply "or" bs])

theorem asserting_inj {a b : SExpr} : asserting a = asserting b ↔ a = b := by
  simp [asserting, apply]

/-- A name, a blank and arguments in parentheses. -/
theorem spells_apply {name text : String} (hne : name.toList ≠ []) (hplain : name.toList.all isPlain = true)
    (h : Spells text.toList args) : Spells ("(" ++ name ++ " " ++ text ++ ")").toList [apply name args] := by
  have htext : ("(" ++ name ++ " " ++ text ++ ")").toList = '(' :: (name.toList ++ ' ' :: text.toList ++ ')' :: []) := by
    simp
  have hname := Spells.atom hne (List.all_eq_true.mp hplain) (delimited_cons (by decide))
    (Spells.blank (c := ' ') (by decide) h)
  rw [String.ofList_toList] at hname
  rw [htext]
  exact .list hname .nil

/-- The texts of expressions, one after the other with a blank between them. -/
theorem spells_intercalate {formulas : List String} (h : formulas.map read = es.map fun a => some [a]) :
    Spells (String.intercalate " " formulas).toList es := by
  induction formulas generalizing es with
  | nil =>
      cases es with
      | nil => exact .nil
      | cons a es => cases h
  | cons f formulas ih =>
      cases es with
      | nil => cases h
      | cons a es =>
          obtain ⟨hf, hmore⟩ := List.cons.inj h
          have hfirst := read_eq_some_iff.mp hf
          cases formulas with
          | nil =>
              cases es with
              | nil =>
                  rw [String.intercalate_singleton]
                  exact hfirst
              | cons b es => cases hmore
          | cons g formulas =>
              rw [String.intercalate_cons_cons, String.toList_append, String.toList_append, List.append_assoc]
              exact hfirst.append (delimited_cons (by decide)) (.blank (by decide) (ih hmore))

end SExpr

namespace Script

open SExpr

variable {ant suc es : List SExpr} {cs : List Char}

theorem spells_assertion {formula : String} {a : SExpr} (hf : Spells formula.toList [a]) (h : Spells cs es) :
    Spells ((assertion formula).toList ++ cs) (asserting a :: es) := by
  have htext : (assertion formula).toList ++ cs = ("(" ++ "assert" ++ " " ++ formula ++ ")").toList ++ '\n' :: cs := by
    simp [assertion]
  rw [htext]
  exact (spells_apply (by decide +kernel) (by decide +kernel) hf).append (delimited_cons (by decide))
    (.blank (by decide) h)

/-- What is assumed is asserted, formula by formula. -/
theorem spells_assumptions {formulas : List String} (h : formulas.map read = ant.map fun a => some [a])
    (hcs : Spells cs es) :
    Spells ((String.join (formulas.map assertion)).toList ++ cs) (ant.map asserting ++ es) := by
  induction formulas generalizing ant with
  | nil =>
      cases ant with
      | nil => exact hcs
      | cons a ant => cases h
  | cons f formulas ih =>
      cases ant with
      | nil => cases h
      | cons a ant =>
          obtain ⟨hf, hmore⟩ := List.cons.inj h
          rw [List.map_cons, String.join_cons, String.toList_append, List.append_assoc]
          exact spells_assertion (read_eq_some_iff.mp hf) (ih hmore)

theorem spells_not {formula : String} {a : SExpr} (h : Spells formula.toList [a]) :
    Spells ("(" ++ "not" ++ " " ++ formula ++ ")").toList [apply "not" [a]] :=
  spells_apply (by decide +kernel) (by decide +kernel) h

theorem refutation_one (f : String) : refutation [f] = assertion ("(" ++ "not" ++ " " ++ f ++ ")") := rfl

theorem refutation_many (f g : String) (more : List String) : refutation (f :: g :: more) =
    assertion ("(" ++ "not" ++ " " ++ ("(" ++ "or" ++ " " ++ String.intercalate " " (f :: g :: more) ++ ")") ++ ")") := by
  have hform : refutation (f :: g :: more) =
      assertion ("(not (or " ++ String.intercalate " " (f :: g :: more) ++ "))") := rfl
  rw [hform, ← String.toList_inj]
  simp [assertion]

/-- The three forms of what is to be shown: nothing, one formula, several. -/
theorem spells_refutation {formulas : List String} (h : formulas.map read = suc.map fun a => some [a])
    (hcs : Spells cs es) :
    Spells ((refutation formulas).toList ++ cs) ((denial suc).toList.map asserting ++ es) := by
  match formulas, suc with
  | [], [] => exact hcs
  | [], _ :: _ => cases h
  | _ :: _, [] => cases h
  | [_], _ :: _ :: _ => cases (List.cons.inj h).2
  | _ :: _ :: _, [_] => cases (List.cons.inj h).2
  | [f], [b] =>
      rw [refutation_one]
      exact spells_assertion (spells_not (read_eq_some_iff.mp (List.cons.inj h).1)) hcs
  | f :: g :: formulas, b :: b' :: suc =>
      have hor : Spells ("(" ++ "or" ++ " " ++ String.intercalate " " (f :: g :: formulas) ++ ")").toList
          [apply "or" (b :: b' :: suc)] :=
        spells_apply (by decide +kernel) (by decide +kernel) (spells_intercalate h)
      rw [refutation_many]
      exact spells_assertion (spells_not hor) hcs

theorem spells_question : Spells "(check-sat)\n(exit)\n".toList [apply "check-sat" [], apply "exit" []] :=
  read_eq_some_iff.mp (by rfl)

/-- **The expressions of a script.** -/
theorem spells_text {s : Sequent} (hant : s.antecedent.map read = ant.map fun a => some [a])
    (hsuc : s.succedent.map read = suc.map fun a => some [a]) :
    Spells (text [] s).toList
      (ant.map asserting ++ (denial suc).toList.map asserting ++ [apply "check-sat" [], apply "exit" []]) := by
  have h := spells_assumptions hant (spells_refutation hsuc spells_question)
  simpa [text, List.append_assoc] using h

theorem acceptable_of_read {formulas : List String} (h : formulas.map read = es.map fun a => some [a]) {f : String}
    (hf : f ∈ formulas) : Acceptable f := by
  have hread : read f ∈ es.map fun a => some [a] := h ▸ List.mem_map_of_mem hf
  obtain ⟨a, -, ha⟩ := List.mem_map.mp hread
  exact (read_eq_some_iff.mp ha.symm).acceptable (List.cons_ne_nil _ _)

theorem ofSequent_ok {s : Sequent} (hant : s.antecedent.map read = ant.map fun a => some [a])
    (hsuc : s.succedent.map read = suc.map fun a => some [a]) (declarations : List String) :
    ofSequent declarations s = .ok (text declarations s) := by
  refine ofSequent_eq_ok.mpr ⟨fun f hf => ?_, rfl⟩
  rcases List.mem_append.mp hf with hf | hf
  · exact acceptable_of_read hant hf
  · exact acceptable_of_read hsuc hf

end Script

/-! ## 3. Assignments -/

namespace SExpr

/-- The assignment takes `not` for negation and `or` for disjunction. -/
structure IsBoolean (v : SExpr → Bool) : Prop where
  neg (a : SExpr) : v (.list [.atom "not", a]) = !v a
  disj (a b : SExpr) (more : List SExpr) : v (.list (.atom "or" :: a :: b :: more)) = (a :: b :: more).any v

mutual

/-- The assignment that goes by `facts`, except for negations and disjunctions. -/
def truth (facts : SExpr → Bool) : SExpr → Bool
  | .list [.atom "not", a] => !truth facts a
  | .list (.atom "or" :: a :: b :: more) => truth facts a || (truth facts b || anyTruth facts more)
  | e => facts e

/-- One of the expressions is true. -/
def anyTruth (facts : SExpr → Bool) : List SExpr → Bool
  | [] => false
  | e :: es => truth facts e || anyTruth facts es

end

theorem anyTruth_eq (facts : SExpr → Bool) (es : List SExpr) : anyTruth facts es = es.any (truth facts) := by
  induction es with
  | nil => simp [anyTruth]
  | cons e es ih => simp [anyTruth, ih]

/-- Whatever is true of the other expressions, there is such an assignment. -/
theorem isBoolean_truth (facts : SExpr → Bool) : IsBoolean (truth facts) where
  neg a := by simp [truth]
  disj a b more := by simp [truth, anyTruth_eq]

end SExpr

namespace Script

open SExpr

/-- The denial holds if and only if nothing to be shown does. -/
theorem denial_holds {v : SExpr → Bool} (hv : IsBoolean v) (suc : List SExpr) :
    (∀ d ∈ denial suc, v d = true) ↔ ∀ b ∈ suc, v b = false := by
  match suc with
  | [] => simp [denial]
  | [b] => simp [denial, apply, hv.neg]
  | b :: b' :: suc => simp [denial, apply, hv.neg, hv.disj]

/-- What a script asserts. -/
theorem asserting_mem_iff {ant suc : List SExpr} {a : SExpr} :
    asserting a ∈ ant.map asserting ++ (denial suc).toList.map asserting ++ [apply "check-sat" [], apply "exit" []] ↔
      a ∈ ant ∨ a ∈ denial suc := by
  have hquestion : asserting a ∉ [apply "check-sat" [], apply "exit" []] := by
    simp [asserting, apply]
  simp [hquestion, asserting_inj]

/-- **A script asks whether the sequent is valid.** If each formula is the text of one expression, there is a script;
    it asserts what is assumed, then at most one expression for all that is to be shown, and puts the question. An
    assignment satisfies the assertions if and only if it refutes the sequent: among whatever assignments, the
    assertions are unsatisfiable if and only if the sequent is valid. -/
theorem ofSequent_meaning (s : Sequent) (ant suc : List SExpr)
    (hant : s.antecedent.map SExpr.read = ant.map fun a => some [a])
    (hsuc : s.succedent.map SExpr.read = suc.map fun a => some [a]) :
    ∃ script commands, ofSequent [] s = .ok script ∧ SExpr.read script = some commands ∧
      (∃ shown : Option SExpr, commands = ant.map asserting ++ shown.toList.map asserting ++
        [.list [.atom "check-sat"], .list [.atom "exit"]]) ∧
      (∀ v, IsBoolean v → ((∀ a, asserting a ∈ commands → v a = true) ↔
        (∀ a ∈ ant, v a = true) ∧ ∀ b ∈ suc, v b = false)) ∧
      ∀ K : (SExpr → Bool) → Prop, (∀ v, K v → IsBoolean v) →
        ((¬ ∃ v, K v ∧ ∀ a, asserting a ∈ commands → v a = true) ↔
          ∀ v, K v → (∀ a ∈ ant, v a = true) → ∃ b ∈ suc, v b = true) := by
  have hholds : ∀ v, IsBoolean v → ((∀ a, asserting a ∈ ant.map asserting ++ (denial suc).toList.map asserting ++
      [apply "check-sat" [], apply "exit" []] → v a = true) ↔
        (∀ a ∈ ant, v a = true) ∧ ∀ b ∈ suc, v b = false) := by
    intro v hv
    simp only [asserting_mem_iff, or_imp, forall_and, denial_holds hv]
  refine ⟨_, _, ofSequent_ok hant hsuc [], read_eq_some_iff.mpr (spells_text hant hsuc), ⟨denial suc, rfl⟩, hholds,
    fun K hK => ?_⟩
  constructor
  · intro hunsat v hv hassumed
    by_contra hnone
    refine hunsat ⟨v, hv, (hholds v (hK v hv)).mpr ⟨hassumed, fun b hb => ?_⟩⟩
    exact Bool.eq_false_iff.mpr fun hb' => hnone ⟨b, hb, hb'⟩
  · rintro hvalid ⟨v, hv, hall⟩
    obtain ⟨hassumed, hfalse⟩ := (hholds v (hK v hv)).mp hall
    obtain ⟨b, hb, hb'⟩ := hvalid v hv hassumed
    rw [hfalse b hb] at hb'
    cases hb'

/-- A sequent that does not hold, and an assignment that says so: what is no negation is true. -/
theorem ofSequent_meaning_two_shown :
    ∃ script commands,
      ofSequent [] { antecedent := ["(= x  (s y))", " p\n"], succedent := ["(not p)", "(not (f (g x)))"] } =
        .ok script ∧
      SExpr.read script = some commands ∧ ∀ a, asserting a ∈ commands → truth (fun _ => true) a = true := by
  obtain ⟨script, commands, hok, hread, -, hholds, -⟩ := ofSequent_meaning
    { antecedent := ["(= x  (s y))", " p\n"], succedent := ["(not p)", "(not (f (g x)))"] }
    [.list [.atom "=", .atom "x", .list [.atom "s", .atom "y"]], .atom "p"]
    [.list [.atom "not", .atom "p"], .list [.atom "not", .list [.atom "f", .list [.atom "g", .atom "x"]]]]
    (by rfl) (by rfl)
  refine ⟨script, commands, hok, hread, (hholds _ (isBoolean_truth _)).mpr ?_⟩
  simp [truth]

end Script

end GoalWatch
