import GoalWatch.Text.Blank

/-!
# Reading s-expressions

The text of s-expressions over plain atoms: an atom is a run of characters other than parentheses and blanks, as long
as can be. What is such a text is said by rules (`SExpr.Spells`); a reader finds the expressions (`SExpr.read`).

* `SExpr` -- an atom, or a list of s-expressions;
* `SExpr.Spells` -- the characters spell out the expressions, one after the other;
* `SExpr.Spells.append` -- a text may go on if the two do not grow together;
* `SExpr.frames`, `SExpr.read` -- the reader, which starts at the end of the text;
* `SExpr.Closing` -- a text in which some parentheses are closed that were opened before it;
* **`SExpr.read_eq_some_iff`** -- the reader finds what the rules say, and nothing else.
-/

namespace GoalWatch

/-- An s-expression over plain atoms. -/
inductive SExpr where
  | atom (name : String)
  | list (items : List SExpr)

namespace SExpr

open Text (isBlank)

/-! ## 1. Texts -/

/-- The character can stand in an atom. -/
def isPlain (c : Char) : Bool := c != '(' && c != ')' && !isBlank c

/-- The text does not start in the middle of an atom. -/
def Delimited (cs : List Char) : Prop := ∀ c ∈ cs.head?, isPlain c = false

/-- **The characters spell out the expressions**, one after the other. -/
inductive Spells : List Char → List SExpr → Prop where
  | nil : Spells [] []
  | blank {c : Char} {cs : List Char} {es : List SExpr} (hc : isBlank c = true) (h : Spells cs es) :
      Spells (c :: cs) es
  | list {inner cs : List Char} {items es : List SExpr} (hin : Spells inner items) (h : Spells cs es) :
      Spells ('(' :: (inner ++ ')' :: cs)) (.list items :: es)
  | atom {w cs : List Char} {es : List SExpr} (hne : w ≠ []) (hplain : ∀ c ∈ w, isPlain c = true)
      (hend : Delimited cs) (h : Spells cs es) : Spells (w ++ cs) (.atom (String.ofList w) :: es)

variable {c : Char} {cs ds tail : List Char} {es fs items : List SExpr} {rest : List (List SExpr)}

theorem isPlain_of_isBlank (h : isBlank c = true) : isPlain c = false := by
  simp [isPlain, h]

theorem ne_of_isBlank (h : isBlank c = true) : c ≠ '(' ∧ c ≠ ')' := by
  refine ⟨?_, ?_⟩ <;>
  · rintro rfl
    revert h
    decide

theorem ne_of_isPlain (h : isPlain c = true) : c ≠ '(' ∧ c ≠ ')' ∧ isBlank c = false := by
  simpa [isPlain, and_assoc] using h

theorem delimited_nil : Delimited [] := fun _ h => by cases h

theorem delimited_cons (h : isPlain c = false) : Delimited (c :: cs) := fun d hd => by
  cases Option.some.inj hd
  exact h

theorem Delimited.append (h : Delimited cs) (htail : Delimited tail) : Delimited (cs ++ tail) := by
  cases cs with
  | nil => exact htail
  | cons c cs => exact delimited_cons (h c rfl)

/-- **A text goes on with another one**, which must not start in the middle of an atom. -/
theorem Spells.append (h : Spells cs es) (hend : Delimited ds) (h' : Spells ds fs) : Spells (cs ++ ds) (es ++ fs) := by
  induction h with
  | nil => exact h'
  | blank hc _ ih => exact .blank hc ih
  | list hin _ _ ih =>
      rw [List.cons_append, List.append_assoc, List.cons_append]
      exact .list hin ih
  | atom hne hplain hend' _ ih =>
      rw [List.append_assoc]
      exact .atom hne hplain (hend'.append hend) ih

/-- A text that starts in an atom spells out that atom first. -/
theorem Spells.head_atom (h : Spells (c :: cs) es) (hc : isPlain c = true) : ∃ word ds fs,
    cs = word ++ ds ∧ es = .atom (String.ofList (c :: word)) :: fs ∧ (∀ d ∈ word, isPlain d = true) ∧
    Delimited ds ∧ Spells ds fs := by
  generalize htext : c :: cs = text at h
  cases h with
  | nil => cases htext
  | blank hblank _ =>
      cases htext
      exact absurd hc (by simp [isPlain_of_isBlank hblank])
  | list _ _ =>
      cases htext
      exact absurd rfl (ne_of_isPlain hc).1
  | @atom word ds fs hne hplain hend h =>
      cases word with
      | nil => exact absurd rfl hne
      | cons d word =>
          cases htext
          exact ⟨word, ds, fs, rfl, rfl, fun x hx => hplain x (List.mem_cons_of_mem _ hx), hend, h⟩

/-! ## 2. The reader -/

/-- The expressions after one more character of an atom. If the text after it starts in an atom, it is that one. -/
def grow (c : Char) (cs : List Char) (es : List SExpr) : List SExpr :=
  match cs.head?.any isPlain, es with
  | true, .atom name :: more => .atom (String.ofList (c :: name.toList)) :: more
  | _, _ => .atom (String.ofList [c]) :: es

/-- What a text reads as from its end: the expressions up to the first parenthesis that it closes without having
    opened it, then those up to the second one, and so on. -/
def frames : List Char → Option (List (List SExpr))
  | [] => some [[]]
  | c :: cs =>
    match frames cs with
    | some (es :: rest) =>
      if c = ')' then some ([] :: es :: rest)
      else if c = '(' then
        match rest with
        | next :: outer => some ((.list es :: next) :: outer)
        | [] => none
      else if isBlank c then some (es :: rest)
      else some (grow c cs es :: rest)
    | _ => none

/-- The expressions of a text; none if its parentheses do not match. -/
def read (text : String) : Option (List SExpr) :=
  match frames text.toList with
  | some [es] => some es
  | _ => none

section Frames

variable (h : frames cs = some (es :: rest))

include h

theorem frames_close : frames (')' :: cs) = some ([] :: es :: rest) := by
  simp [frames, h]

theorem frames_blank (hc : isBlank c = true) : frames (c :: cs) = some (es :: rest) := by
  simp [frames, h, ne_of_isBlank hc, hc]

theorem frames_plain (hc : isPlain c = true) : frames (c :: cs) = some (grow c cs es :: rest) := by
  simp [frames, h, ne_of_isPlain hc]

end Frames

theorem frames_open (h : frames cs = some (items :: es :: rest)) :
    frames ('(' :: cs) = some ((.list items :: es) :: rest) := by
  simp [frames, h]

/-! ## 3. The reader finds what is spelled out -/

theorem grow_delimited (h : Delimited cs) : grow c cs es = .atom (String.ofList [c]) :: es := by
  have hany : cs.head?.any isPlain = false := by
    cases hd : cs.head? with
    | none => rfl
    | some d => exact h d hd
  simp [grow, hany]

theorem grow_plain {d : Char} {name : String} (hd : isPlain d = true) :
    grow c (d :: cs) (.atom name :: es) = .atom (String.ofList (c :: name.toList)) :: es := by
  simp [grow, hd]

theorem frames_word (hend : Delimited cs) (h : frames cs = some (es :: rest)) :
    ∀ {w : List Char}, w ≠ [] → (∀ c ∈ w, isPlain c = true) →
      frames (w ++ cs) = some ((.atom (String.ofList w) :: es) :: rest)
  | [c], _, hplain => by
      rw [List.singleton_append, frames_plain h (hplain c List.mem_cons_self), grow_delimited hend]
  | c :: d :: word, _, hplain => by
      have ih := frames_word hend h (w := d :: word) (List.cons_ne_nil _ _)
        fun x hx => hplain x (List.mem_cons_of_mem _ hx)
      rw [List.cons_append, frames_plain ih (hplain c List.mem_cons_self), List.cons_append,
        grow_plain (hplain d (List.mem_cons_of_mem _ List.mem_cons_self)), String.toList_ofList]

/-- **What is spelled out is read**, in front of whatever was read before. The induction is on the rules. -/
theorem Spells.frames_append (h : Spells cs es) : ∀ {tail : List Char} {fs : List SExpr} {rest : List (List SExpr)},
    Delimited tail → frames tail = some (fs :: rest) → frames (cs ++ tail) = some ((es ++ fs) :: rest) := by
  induction h with
  | nil => exact fun _ htail => htail
  | blank hc _ ih => exact fun hend htail => frames_blank (ih hend htail) hc
  | list hin _ ihin ih =>
      intro tail fs rest hend htail
      have hclose := ihin (delimited_cons (by decide)) (frames_close (ih hend htail))
      rw [List.append_nil] at hclose
      rw [List.cons_append, List.append_assoc, List.cons_append]
      exact frames_open hclose
  | atom hne hplain hend' _ ih =>
      intro tail fs rest hend htail
      rw [List.append_assoc]
      exact frames_word (hend'.append hend) (ih hend htail) hne hplain

/-! ## 4. The reader finds nothing else -/

/-- **A text that closes some parentheses without having opened them**, with what it spells out before the first of
    them, before the second, and so on. -/
inductive Closing : List Char → List (List SExpr) → Prop where
  | last {cs : List Char} {es : List SExpr} (h : Spells cs es) : Closing cs [es]
  | close {inner cs : List Char} {items : List SExpr} {rest : List (List SExpr)} (hin : Spells inner items)
      (h : Closing cs rest) : Closing (inner ++ ')' :: cs) (items :: rest)

/-- What comes before the first of them can be exchanged. -/
theorem Closing.split (h : Closing cs (es :: rest)) : ∃ front tail, cs = front ++ tail ∧ Spells front es ∧
    Delimited tail ∧ ∀ {front' es'}, Spells front' es' → Closing (front' ++ tail) (es' :: rest) := by
  cases h with
  | last h => exact ⟨cs, [], (List.append_nil _).symm, h, delimited_nil, fun h' => by
      rw [List.append_nil]
      exact .last h'⟩
  | close hin h => exact ⟨_, _, rfl, hin, delimited_cons (by decide), fun h' => .close h' h⟩

/-- The first of them is opened. -/
theorem Closing.opened (h : Closing cs (items :: es :: rest)) :
    Closing ('(' :: cs) ((.list items :: es) :: rest) := by
  cases h with
  | close hin h =>
      obtain ⟨front, tail, rfl, hfront, -, hswap⟩ := h.split
      have hlist := hswap (.list hin hfront)
      rwa [List.cons_append, List.append_assoc, List.cons_append] at hlist

theorem Closing.spells (h : Closing cs [es]) : Spells cs es := by
  cases h with
  | last h => exact h
  | close _ h => cases h

/-- Another character of an atom. -/
theorem Spells.grow (h : Spells cs es) (hc : isPlain c = true) (hend : Delimited tail) :
    Spells (c :: cs) (grow c (cs ++ tail) es) := by
  have hone : ∀ x ∈ [c], isPlain x = true := List.forall_mem_singleton.mpr hc
  cases cs with
  | nil =>
      rw [List.nil_append, grow_delimited hend]
      exact .atom (List.cons_ne_nil _ _) hone delimited_nil h
  | cons d cs =>
      by_cases hd : isPlain d = true
      · obtain ⟨word, ds, fs, rfl, rfl, hplain, hend', h'⟩ := h.head_atom hd
        rw [List.cons_append, grow_plain hd, String.toList_ofList]
        have hall : ∀ x ∈ c :: d :: word, isPlain x = true :=
          List.forall_mem_cons.mpr ⟨hc, List.forall_mem_cons.mpr ⟨hd, hplain⟩⟩
        exact .atom (w := c :: d :: word) (List.cons_ne_nil _ _) hall hend' h'
      · have hdel : Delimited (d :: cs) := delimited_cons (Bool.eq_false_iff.mpr hd)
        rw [grow_delimited (hdel.append hend)]
        exact .atom (List.cons_ne_nil _ _) hone hdel h

theorem closing_of_frames : ∀ {cs : List Char} {fs : List (List SExpr)}, frames cs = some fs → Closing cs fs
  | [], fs, h => by
      cases Option.some.inj h
      exact .last .nil
  | c :: cs, fs, h => by
      unfold frames at h
      split at h
      · rename_i es rest hcs
        have ih := closing_of_frames hcs
        split at h
        · rename_i hc
          cases Option.some.inj h
          exact hc ▸ .close .nil ih
        · split at h
          · rename_i hc
            split at h
            · cases Option.some.inj h
              exact hc ▸ ih.opened
            · cases h
          · -- the character stands in the first part
            obtain ⟨front, tail, rfl, hfront, hend, hswap⟩ := ih.split
            split at h
            · rename_i hblank
              cases Option.some.inj h
              exact hswap (.blank hblank hfront)
            · rename_i hclose hopen hblank
              cases Option.some.inj h
              refine hswap (hfront.grow ?_ hend)
              simp [isPlain, hclose, hopen, hblank]
      · cases h

/-- **The reader finds what the rules say**, and nothing else. -/
theorem read_eq_some_iff {text : String} : read text = some es ↔ Spells text.toList es := by
  constructor
  · intro h
    unfold read at h
    split at h
    · rename_i hframes
      cases Option.some.inj h
      exact (closing_of_frames hframes).spells
    · cases h
  · intro h
    have hframes := h.frames_append delimited_nil (show frames [] = some ([] :: []) from rfl)
    rw [List.append_nil, List.append_nil] at hframes
    rw [read, hframes]

end SExpr

end GoalWatch
