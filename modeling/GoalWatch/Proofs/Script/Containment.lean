import GoalWatch.Proofs.Script.Acceptance

/-!
# Formulas stay in their assertions

The text of a formula is put into a script as it is. All that keeps it from closing the assertion around it is that
its parentheses match.

* `Piece`, `pieces` -- a text cut at its outermost parentheses;
* `pieces_eq_some_iff` -- it is cut into groups whose parentheses match, and into characters between them;
* `commands` -- the commands of a sequent;
* **`ofSequent_contained`** -- which sequents have a script, what is said of the others, and the commands of a script.
-/

namespace GoalWatch.Script

/-! ## 1. Texts cut at their outermost parentheses -/

/-- A part of a text. -/
inductive Piece where
  /-- Outermost parentheses, and all that is between them. -/
  | group (text : String)
  /-- A character outside of them. -/
  | loose (c : Char)
  deriving DecidableEq, Repr

def Piece.chars : Piece → List Char
  | .group text => text.toList
  | .loose c => [c]

/-- Cuts a text that starts with `depth` parentheses open: the rest of the group that is open, and the pieces after it.
    None if a parenthesis is missing. -/
def cutFrom : (depth : Nat) → List Char → Option (List Char × List Piece)
  | 0, [] => some ([], [])
  | _ + 1, [] => none
  | 0, c :: cs =>
    if c = '(' then (cutFrom 1 cs).map fun r => ([], .group (String.ofList (c :: r.1)) :: r.2)
    else if c = ')' then none
    else (cutFrom 0 cs).map fun r => ([], .loose c :: r.2)
  | depth + 1, c :: cs =>
    (cutFrom (if c = '(' then depth + 2 else if c = ')' then depth else depth + 1) cs).map fun r => (c :: r.1, r.2)

/-- **The pieces of a text.** -/
def pieces (text : String) : Option (List Piece) := (cutFrom 0 text.toList).map Prod.snd

/-- A group has one pair of outermost parentheses; a loose character is none. -/
inductive Piece.Whole : Piece → Prop where
  | group {inner : String} (h : Dyck inner.toList) : Whole (.group ("(" ++ inner ++ ")"))
  | loose {c : Char} (ho : c ≠ '(') (hc : c ≠ ')') : Whole (.loose c)

variable {depth : Nat} {c : Char} {cs ds w : List Char} {ps : List Piece}

/-- **A group is cut off where it ends**: after what closes all but one of the parentheses, and the closing one. -/
theorem cutFrom_rest (hrest : cutFrom 0 ds = some ([], ps)) : ∀ {cs : List Char} {depth : Nat}, Closes depth cs →
    cutFrom (depth + 1) (cs ++ ')' :: ds) = some (cs ++ [')'], ps)
  | [], depth, h => by
      cases closes_nil.mp h
      simp [cutFrom, hrest]
  | c :: cs, depth, h => by
      by_cases ho : c = '('
      · subst ho
        have ih := cutFrom_rest hrest (closes_open.mp h)
        simp [cutFrom, ih]
      · by_cases hc : c = ')'
        · subst hc
          cases depth with
          | zero => exact absurd h not_closes_close
          | succ depth =>
              have ih := cutFrom_rest hrest (closes_close.mp h)
              simp [cutFrom, ih]
        · have ih := cutFrom_rest hrest ((closes_other ho hc).mp h)
          simp [cutFrom, ho, hc, ih]

/-- **Whole pieces are found**, in whatever order they stand. -/
theorem cutFrom_whole : ∀ {ps : List Piece}, (∀ p ∈ ps, p.Whole) → cutFrom 0 (ps.flatMap Piece.chars) = some ([], ps)
  | [], _ => rfl
  | p :: ps, h => by
      have ih := cutFrom_whole fun q hq => h q (List.mem_cons_of_mem _ hq)
      rw [List.flatMap_cons]
      cases h p List.mem_cons_self with
      | @group inner hd =>
          have hrest := cutFrom_rest ih (dyck_iff.mp hd)
          have hchars : (Piece.group ("(" ++ inner ++ ")")).chars ++ ps.flatMap Piece.chars =
              '(' :: (inner.toList ++ ')' :: ps.flatMap Piece.chars) := by simp [Piece.chars]
          rw [hchars, cutFrom, if_pos rfl, hrest]
          simp [← String.toList_inj]
      | loose ho hc => simp [Piece.chars, cutFrom, ho, hc, ih]

/-- What is left of a group when `depth` parentheses are open. -/
def Remains : (depth : Nat) → List Char → Prop
  | 0, w => w = []
  | depth + 1, w => ∃ front, w = front ++ [')'] ∧ Closes depth front

/-- One more character of the group that is open. -/
theorem remains_cons (h : Remains (if c = '(' then depth + 2 else if c = ')' then depth else depth + 1) w) :
    Remains (depth + 1) (c :: w) := by
  by_cases ho : c = '('
  · subst ho
    obtain ⟨front, rfl, hf⟩ := h
    exact ⟨'(' :: front, rfl, closes_open.mpr hf⟩
  · rw [if_neg ho] at h
    by_cases hc : c = ')'
    · subst hc
      cases depth with
      | zero =>
          cases h
          exact ⟨[], rfl, closes_nil.mpr rfl⟩
      | succ depth =>
          obtain ⟨front, rfl, hf⟩ := h
          exact ⟨')' :: front, rfl, closes_close.mpr hf⟩
    · rw [if_neg hc] at h
      obtain ⟨front, rfl, hf⟩ := h
      exact ⟨c :: front, rfl, (closes_other ho hc).mpr hf⟩

/-- **Nothing else is found.** -/
theorem whole_of_cutFrom (h : cutFrom depth cs = some (w, ps)) :
    cs = w ++ ps.flatMap Piece.chars ∧ Remains depth w ∧ ∀ p ∈ ps, p.Whole := by
  fun_induction cutFrom depth cs generalizing w ps with
  | case1 =>
      cases h
      exact ⟨rfl, rfl, fun _ hp => absurd hp List.not_mem_nil⟩
  | case2 => cases h
  | case3 cs ih =>
      obtain ⟨⟨rest, after⟩, hcut, hr⟩ := Option.map_eq_some_iff.mp h
      cases hr
      obtain ⟨rfl, ⟨inner, rfl, hf⟩, hwhole⟩ := ih hcut
      have hgroup : String.ofList ('(' :: (inner ++ [')'])) = "(" ++ String.ofList inner ++ ")" := by
        simp [← String.toList_inj]
      refine ⟨by simp [Piece.chars], rfl, List.forall_mem_cons.mpr ⟨?_, hwhole⟩⟩
      rw [hgroup]
      exact .group (by rw [String.toList_ofList]; exact dyck_iff.mpr hf)
  | case4 => cases h
  | case5 c cs ho hc ih =>
      obtain ⟨⟨rest, after⟩, hcut, hr⟩ := Option.map_eq_some_iff.mp h
      cases hr
      obtain ⟨rfl, rfl, hwhole⟩ := ih hcut
      exact ⟨rfl, rfl, List.forall_mem_cons.mpr ⟨.loose ho hc, hwhole⟩⟩
  | case6 depth c cs ih =>
      obtain ⟨⟨rest, after⟩, hcut, hr⟩ := Option.map_eq_some_iff.mp h
      cases hr
      obtain ⟨rfl, hrem, hwhole⟩ := ih hcut
      exact ⟨rfl, remains_cons hrem, hwhole⟩

/-- **What the pieces of a text are**: whole ones that make up the text. -/
theorem pieces_eq_some_iff {text : String} :
    pieces text = some ps ↔ text.toList = ps.flatMap Piece.chars ∧ ∀ p ∈ ps, p.Whole := by
  unfold pieces
  constructor
  · intro h
    obtain ⟨⟨w, _⟩, hcut, rfl⟩ := Option.map_eq_some_iff.mp h
    obtain ⟨htext, rfl, hwhole⟩ := whole_of_cutFrom hcut
    exact ⟨htext, hwhole⟩
  · rintro ⟨htext, hwhole⟩
    rw [htext, cutFrom_whole hwhole]
    rfl

/-! ## 2. Scripts -/

/-- The command that denies all that is to be shown, unless there is nothing. -/
def denying : List String → List String
  | [] => []
  | [formula] => ["(assert (not " ++ formula ++ "))"]
  | formulas => ["(assert (not (or " ++ String.intercalate " " formulas ++ ")))"]

/-- The commands of a sequent. -/
def commands (s : Sequent) : List String :=
  s.antecedent.map (fun formula => "(assert " ++ formula ++ ")") ++ denying s.succedent ++ ["(check-sat)", "(exit)"]

/-- Commands, each on a line of its own. -/
def onLines (cmds : List String) : List Piece := cmds.flatMap fun cmd => [.group cmd, .loose '\n']

theorem chars_onLines (cmds : List String) :
    (onLines cmds).flatMap Piece.chars = cmds.flatMap fun cmd => cmd.toList ++ ['\n'] := by
  simp [onLines, List.flatMap_assoc, Piece.chars]

theorem toList_text (s : Sequent) : (text [] s).toList = (onLines (commands s)).flatMap Piece.chars := by
  have hshown : (refutation s.succedent).toList = (denying s.succedent).flatMap fun cmd => cmd.toList ++ ['\n'] := by
    match s.succedent with
    | [] => rfl
    | [f] => simp [refutation, denying, assertion]
    | f :: g :: formulas => simp [refutation, denying, assertion]
  rw [chars_onLines, text, commands]
  simp [hshown, String.toList_join, List.flatMap_map, assertion]

/-- An application in parentheses: a word and what it is applied to. -/
theorem dyck_apply {word arg : String} (hword : balanced word = true) (h : Dyck arg.toList) :
    Dyck ("(" ++ (word ++ arg) ++ ")").toList := by
  have htext : ("(" ++ (word ++ arg) ++ ")").toList = '(' :: (word.toList ++ arg.toList ++ [')']) := by simp
  rw [htext]
  exact ((balanced_iff.mp hword).append h).enclosed

/-- Texts that match, with blanks between them. -/
theorem dyck_intercalate : ∀ {formulas : List String}, (∀ f ∈ formulas, Dyck f.toList) →
    Dyck (String.intercalate " " formulas).toList
  | [], _ => dyck_iff.mpr (closes_nil.mpr rfl)
  | [f], h => by
      rw [String.intercalate_singleton]
      exact h f List.mem_cons_self
  | f :: g :: formulas, h => by
      have ih := dyck_intercalate fun x hx => h x (List.mem_cons_of_mem f hx)
      have hblank : Dyck " ".toList := balanced_iff.mp (by decide +kernel)
      rw [String.intercalate_cons_cons, String.toList_append, String.toList_append]
      exact ((h f List.mem_cons_self).append hblank).append ih

/-- **An assertion of a text that matches is one group.** -/
theorem whole_assertion {arg : String} (h : Dyck arg.toList) : (Piece.group ("(assert " ++ arg ++ ")")).Whole := by
  have hform : "(assert " ++ arg ++ ")" = "(" ++ ("assert " ++ arg) ++ ")" := by simp [← String.toList_inj]
  rw [hform]
  refine .group ?_
  rw [String.toList_append]
  exact (balanced_iff.mp (by decide +kernel)).append h

theorem whole_denying {formulas : List String} (h : ∀ f ∈ formulas, Dyck f.toList) :
    ∀ cmd ∈ denying formulas, (Piece.group cmd).Whole := by
  have hnot : balanced "not " = true := by decide +kernel
  have hor : balanced "or " = true := by decide +kernel
  match formulas with
  | [] => exact fun cmd hcmd => absurd hcmd List.not_mem_nil
  | [f] =>
      refine List.forall_mem_singleton.mpr ?_
      have hform : "(assert (not " ++ f ++ "))" = "(assert " ++ ("(" ++ ("not " ++ f) ++ ")") ++ ")" := by
        simp [← String.toList_inj]
      rw [hform]
      exact whole_assertion (dyck_apply hnot (h f List.mem_cons_self))
  | f :: g :: more =>
      refine List.forall_mem_singleton.mpr ?_
      have hform : "(assert (not (or " ++ String.intercalate " " (f :: g :: more) ++ ")))" =
          "(assert " ++ ("(" ++ ("not " ++ ("(" ++ ("or " ++ String.intercalate " " (f :: g :: more)) ++ ")")) ++ ")")
            ++ ")" := by
        simp [← String.toList_inj]
      rw [hform]
      exact whole_assertion (dyck_apply hnot (dyck_apply hor (dyck_intercalate h)))

theorem whole_commands {s : Sequent} (h : ∀ f ∈ s.formulas, Acceptable f) :
    ∀ cmd ∈ commands s, (Piece.group cmd).Whole := by
  have hant : ∀ f ∈ s.antecedent, Dyck f.toList := fun f hf => (h f (List.mem_append_left _ hf)).dyck
  have hsuc : ∀ f ∈ s.succedent, Dyck f.toList := fun f hf => (h f (List.mem_append_right _ hf)).dyck
  intro cmd hcmd
  rcases List.mem_append.mp hcmd with hcmd | hquestion
  · rcases List.mem_append.mp hcmd with hcmd | hcmd
    · obtain ⟨f, hf, rfl⟩ := List.mem_map.mp hcmd
      exact whole_assertion (hant f hf)
    · exact whole_denying hsuc cmd hcmd
  · have hwhole : ∀ word, balanced word = true → (Piece.group ("(" ++ word ++ ")")).Whole :=
      fun word hword => .group (balanced_iff.mp hword)
    simp only [List.mem_cons, List.not_mem_nil, or_false] at hquestion
    rcases hquestion with rfl | rfl
    · exact hwhole "check-sat" (by decide +kernel)
    · exact hwhole "exit" (by decide +kernel)

theorem whole_onLines {cmds : List String} (h : ∀ cmd ∈ cmds, (Piece.group cmd).Whole) :
    ∀ p ∈ onLines cmds, p.Whole := by
  intro p hp
  obtain ⟨cmd, hcmd, hp⟩ := List.mem_flatMap.mp hp
  simp only [List.mem_cons, List.not_mem_nil, or_false] at hp
  rcases hp with rfl | rfl
  · exact h cmd hcmd
  · exact .loose (by decide) (by decide)

theorem text_eq (declarations : List String) (s : Sequent) :
    text declarations s = String.join (declarations.map (· ++ "\n")) ++ text [] s := by
  simp [text, String.append_assoc]

/-- **Which sequents have a script, and what it consists of.** A sequent has a script if and only if every formula has
    a character that is no blank, and parentheses that match; else the fault is that of the first formula that has
    one. After the declarations, a script is the one text that falls into these groups when it is cut by depth: an
    assertion for each formula assumed, one for what is to be shown, if there is anything, and the two commands of the
    question. So a formula stays in its assertion, whatever it says. -/
theorem ofSequent_contained (declarations : List String) (s : Sequent) :
    ((∃ script, ofSequent declarations s = .ok script) ↔ ∀ f ∈ s.formulas, Acceptable f) ∧
    (∀ fault, ofSequent declarations s = .error fault ↔ ∃ before f after, s.formulas = before ++ f :: after ∧
      (∀ g ∈ before, Acceptable g) ∧ Refused f fault) ∧
    ∀ script, ofSequent declarations s = .ok script ↔ (∀ f ∈ s.formulas, Acceptable f) ∧ ∃ rest,
      script = String.join (declarations.map (· ++ "\n")) ++ rest ∧ pieces rest = some (onLines (commands s)) := by
  refine ⟨?_, fun fault => ofSequent_eq_error, fun script => ?_⟩
  · simp only [ofSequent_eq_ok, exists_and_left, exists_eq, and_true]
  · rw [ofSequent_eq_ok, text_eq]
    refine and_congr_right fun hall => ?_
    constructor
    · rintro rfl
      exact ⟨_, rfl, pieces_eq_some_iff.mpr ⟨toList_text s, whole_onLines (whole_commands hall)⟩⟩
    · rintro ⟨rest, rfl, hrest⟩
      rw [String.toList_inj.mp ((pieces_eq_some_iff.mp hrest).1.trans (toList_text s).symm)]

/-- As many parentheses are closed as opened, but the first of them would be that of the assertion. -/
example : ofSequent [] { antecedent := ["p"], succedent := ["q))\n(exit)\n(assert (not q"] } =
    .error (.unbalanced "q))\n(exit)\n(assert (not q") := by decide +kernel

end GoalWatch.Script
