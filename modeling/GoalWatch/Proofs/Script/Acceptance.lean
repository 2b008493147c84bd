import GoalWatch.Script
import Mathlib.Tactic.Common

/-!
# Formulas that can be asserted

A formula is asserted as it is written if there is something to assert and its parentheses match.

* `Dyck`, `Acceptable` -- the parentheses of a text match; a formula that can be asserted;
* `Refused` -- the fault that a formula is refused with;
* `Closes`, `balancedFrom_iff` -- what the count of parentheses finds, at any depth;
* `formulaFault?_eq_none_iff`, `formulaFault?_eq_some_iff` -- what the check of a formula finds;
* `ofSequent_eq_ok`, `ofSequent_eq_error` -- when there is a script, and the fault if there is none.
-/

namespace GoalWatch.Script

open Text (isBlank)

/-! ## 1. Matching parentheses -/

/-- **The parentheses of a text match**: as many are opened as are closed, and no part from the beginning on closes
    more than it opens. -/
structure Dyck (cs : List Char) : Prop where
  total : cs.count '(' = cs.count ')'
  ahead : ∀ {front : List Char}, front <+: cs → front.count ')' ≤ front.count '('

/-- A formula that can be asserted. -/
structure Acceptable (formula : String) : Prop where
  word : ∃ c ∈ formula.toList, isBlank c = false
  dyck : Dyck formula.toList

/-- **What a formula is refused with.** -/
inductive Refused : String → FormulaFault → Prop where
  | empty {formula : String} (h : ∀ c ∈ formula.toList, isBlank c = true) : Refused formula .empty
  | unbalanced {formula : String} (h : ∃ c ∈ formula.toList, isBlank c = false) (hd : ¬ Dyck formula.toList) :
      Refused formula (.unbalanced formula)

/-- With `depth` parentheses open before it, the text closes them and its own, and at no point more. -/
structure Closes (depth : Nat) (cs : List Char) : Prop where
  total : depth + cs.count '(' = cs.count ')'
  ahead : ∀ {front : List Char}, front <+: cs → front.count ')' ≤ depth + front.count '('

variable {depth e : Nat} {c : Char} {cs ds : List Char} {formula : String}

theorem dyck_iff : Dyck cs ↔ Closes 0 cs := by
  constructor
  · rintro ⟨htotal, hahead⟩
    exact ⟨by omega, fun hf => by rw [Nat.zero_add]; exact hahead hf⟩
  · rintro ⟨htotal, hahead⟩
    exact ⟨by omega, fun hf => by simpa using hahead hf⟩

theorem closes_nil : Closes depth [] ↔ depth = 0 := by
  constructor
  · intro h
    simpa using h.total
  · rintro rfl
    exact ⟨rfl, fun hf => by rw [List.prefix_nil.mp hf]; exact Nat.zero_le _⟩

/-- **A character in front**, after which `e` parentheses are open. -/
theorem closes_cons
    (hc : ∀ l : List Char, e + l.count '(' + (c :: l).count ')' = depth + (c :: l).count '(' + l.count ')') :
    Closes depth (c :: cs) ↔ Closes e cs := by
  constructor
  · rintro ⟨htotal, hahead⟩
    refine ⟨?_, fun {front} hf => ?_⟩
    · have hshift := hc cs
      omega
    · have hshift := hc front
      have hle := hahead (List.cons_prefix_cons.mpr ⟨rfl, hf⟩)
      omega
  · rintro ⟨htotal, hahead⟩
    refine ⟨?_, fun {front} hf => ?_⟩
    · have hshift := hc cs
      omega
    · rcases List.prefix_cons_iff.mp hf with rfl | ⟨rest, rfl, hrest⟩
      · exact Nat.zero_le _
      · have hshift := hc rest
        have hle := hahead hrest
        omega

theorem closes_open : Closes depth ('(' :: cs) ↔ Closes (depth + 1) cs :=
  closes_cons fun l => by simp; omega

theorem closes_close : Closes (depth + 1) (')' :: cs) ↔ Closes depth cs :=
  closes_cons fun l => by simp; omega

theorem closes_other (ho : c ≠ '(') (hc : c ≠ ')') : Closes depth (c :: cs) ↔ Closes depth cs :=
  closes_cons fun l => by simp [ho, hc]

theorem not_closes_close : ¬ Closes 0 (')' :: cs) := by
  intro h
  have hle := h.ahead (List.cons_prefix_cons.mpr ⟨rfl, List.nil_prefix⟩)
  simp at hle

/-- **The count of parentheses finds out whether a text closes them.** -/
theorem balancedFrom_iff : balancedFrom depth cs = true ↔ Closes depth cs := by
  fun_induction balancedFrom depth cs with
  | case1 depth => simp [closes_nil]
  | case2 depth cs ih => rw [ih, closes_open]
  | case3 cs => simp [not_closes_close]
  | case4 depth cs ih => rw [ih, closes_close]
  | case5 depth c cs ho hzero hsucc ih =>
      have hc : c ≠ ')' := by
        cases depth with
        | zero => exact hzero rfl
        | succ depth => exact hsucc depth rfl
      rw [ih, closes_other ho hc]

theorem Closes.append (h : Closes depth cs) (h' : Closes e ds) : Closes (depth + e) (cs ++ ds) := by
  have htotal := h.total
  have htotal' := h'.total
  refine ⟨?_, fun {front} hf => ?_⟩
  · rw [List.count_append, List.count_append]
    omega
  · rcases List.prefix_or_prefix_of_prefix hf (List.prefix_append cs ds) with hin | ⟨rest, rfl⟩
    · have hle := h.ahead hin
      omega
    · have hle := h'.ahead ((List.prefix_append_right_inj cs).mp hf)
      rw [List.count_append, List.count_append]
      omega

theorem Dyck.append (h : Dyck cs) (h' : Dyck ds) : Dyck (cs ++ ds) :=
  dyck_iff.mpr ((dyck_iff.mp h).append (dyck_iff.mp h'))

theorem dyck_plain : ∀ {cs : List Char}, (∀ c ∈ cs, c ≠ '(' ∧ c ≠ ')') → Dyck cs
  | [], _ => dyck_iff.mpr (closes_nil.mpr rfl)
  | c :: cs, h => by
      obtain ⟨⟨ho, hc⟩, hcs⟩ := List.forall_mem_cons.mp h
      exact dyck_iff.mpr ((closes_other ho hc).mpr (dyck_iff.mp (dyck_plain hcs)))

/-- A text that matches, in parentheses. -/
theorem Dyck.enclosed (h : Dyck cs) : Dyck ('(' :: (cs ++ [')'])) :=
  dyck_iff.mpr (closes_open.mpr ((dyck_iff.mp h).append (closes_close.mpr (closes_nil.mpr rfl))))

/-! ## 2. Faults -/

theorem isAllBlank_eq_true : Text.isAllBlank formula = true ↔ ∀ c ∈ formula.toList, isBlank c = true :=
  List.all_eq_true

theorem isAllBlank_eq_false : Text.isAllBlank formula = false ↔ ∃ c ∈ formula.toList, isBlank c = false := by
  simp [Text.isAllBlank]

theorem balanced_iff : balanced formula = true ↔ Dyck formula.toList := by
  rw [dyck_iff, balanced, balancedFrom_iff]

theorem formulaFault?_eq_none_iff : formulaFault? formula = none ↔ Acceptable formula := by
  unfold formulaFault?
  constructor
  · intro h
    split at h
    · cases h
    · rename_i hblank
      split at h
      · rename_i hbalanced
        exact ⟨isAllBlank_eq_false.mp (Bool.eq_false_iff.mpr hblank), balanced_iff.mp hbalanced⟩
      · cases h
  · rintro ⟨hword, hdyck⟩
    rw [isAllBlank_eq_false.mpr hword, balanced_iff.mpr hdyck]
    rfl

theorem formulaFault?_eq_some_iff {fault : FormulaFault} :
    formulaFault? formula = some fault ↔ Refused formula fault := by
  unfold formulaFault?
  constructor
  · intro h
    split at h
    · rename_i hblank
      cases h
      exact .empty (isAllBlank_eq_true.mp hblank)
    · rename_i hblank
      split at h
      · cases h
      · rename_i hbalanced
        cases h
        exact .unbalanced (isAllBlank_eq_false.mp (Bool.eq_false_iff.mpr hblank)) (mt balanced_iff.mpr hbalanced)
  · intro h
    cases h with
    | empty hblank => rw [isAllBlank_eq_true.mpr hblank, if_pos rfl]
    | unbalanced hword hdyck =>
        rw [isAllBlank_eq_false.mpr hword, if_neg (mt balanced_iff.mp hdyck)]
        rfl

/-! ## 3. Scripts -/

section Sequents

variable {declarations : List String} {s : Sequent}

theorem ofSequent_eq_ok {script : String} :
    ofSequent declarations s = .ok script ↔ (∀ f ∈ s.formulas, Acceptable f) ∧ script = text declarations s := by
  have hnone : s.formulas.findSome? formulaFault? = none ↔ ∀ f ∈ s.formulas, Acceptable f := by
    simp only [List.findSome?_eq_none_iff, formulaFault?_eq_none_iff]
  rw [← hnone]
  unfold ofSequent
  cases s.formulas.findSome? formulaFault? <;> simp [eq_comm]

/-- The fault is that of the first formula that has one. -/
theorem ofSequent_eq_error {fault : FormulaFault} :
    ofSequent declarations s = .error fault ↔ ∃ before f after, s.formulas = before ++ f :: after ∧
      (∀ g ∈ before, Acceptable g) ∧ Refused f fault := by
  have hfirst : ofSequent declarations s = .error fault ↔ s.formulas.findSome? formulaFault? = some fault := by
    unfold ofSequent
    cases s.formulas.findSome? formulaFault? <;> simp
  rw [hfirst, List.findSome?_eq_some_iff]
  simp only [formulaFault?_eq_some_iff, formulaFault?_eq_none_iff, and_comm (a := Refused _ _)]

end Sequents

end GoalWatch.Script
