import GoalWatch.Json.Reader

/-!
# Written values are read back

A value that holds texts and natural numbers only is written over several lines and read back as it was,
wherever it stands in a larger text. The induction is on the value; what carries it is a law of the reader that
leaves open what comes after the value, and how much fuel is left.

* `Reader.Stops` -- what may follow a value;
* `Reader.number?_repr`, `Reader.stringBody_quote` -- numbers and texts are read back;
* `Legible` -- the values that stand for themselves;
* `Reads` -- the law of the reader;
* `Reader.elements_pretty`, `Reader.members_pretty` -- the parts of arrays and objects;
* **`parse?_pretty`** -- the whole text.
-/

namespace GoalWatch.Json

namespace Reader

variable {rest : List Char}

/-! ## 1. Blanks -/

theorem skipBlank_of_head {c : Char} (h : isBlank c = false) : skipBlank (c :: rest) = c :: rest := by
  simp [skipBlank, h]

/-- The start of a line is blank. -/
theorem skipBlank_newline (depth : Nat) : skipBlank ((newline depth).toList ++ rest) = skipBlank rest := by
  unfold skipBlank newline
  refine List.dropWhile_append_of_pos fun c hc => ?_
  rw [String.toList_append, List.mem_append] at hc
  rcases hc with hc | hc
  · rw [List.mem_singleton.mp hc]
    decide
  · rw [String.toList_ofList] at hc
    rw [(List.mem_replicate.mp hc).2]
    decide

theorem value_space (fuel : Nat) : value fuel (' ' :: rest) = value fuel rest := by
  cases fuel with
  | zero => rfl
  | succ fuel => rw [value, value, show skipBlank (' ' :: rest) = skipBlank rest from rfl]

/-- Blanks before a value do not matter. -/
theorem value_newline (fuel depth : Nat) : value fuel ((newline depth).toList ++ rest) = value fuel rest := by
  cases fuel with
  | zero => rfl
  | succ fuel => rw [value, value, skipBlank_newline]

/-! ## 2. Numbers -/

/-- What follows a number does not go on with it. -/
def Stops (rest : List Char) : Prop :=
  ∀ c ∈ rest.head?, c.isDigit = false ∧ c ≠ '.' ∧ c ≠ 'e' ∧ c ≠ 'E'

theorem digits_append {ds : List Char} (hd : ∀ c ∈ ds, c.isDigit = true) (hr : Stops rest) :
    digits (ds ++ rest) = (ds, rest) := by
  unfold digits
  rw [List.takeWhile_append_of_pos hd, List.dropWhile_append_of_pos hd]
  cases rest with
  | nil => simp
  | cons c r => simp [(hr c rfl).1]

theorem fraction?_stops (hr : Stops rest) : fraction? rest = some ([], rest) := by
  unfold fraction?
  split
  · exact absurd rfl (hr '.' rfl).2.1
  · rfl

theorem exponent?_stops (hr : Stops rest) : exponent? rest = some ([], rest) := by
  unfold exponent?
  split
  · rename_i c r
    have hc := hr c rfl
    simp [hc.2.2.1, hc.2.2.2]
  · rfl

theorem head?_digits_append (n : Nat) (rest : List Char) :
    (Nat.toDigits 10 n ++ rest).head? = (Nat.toDigits 10 n).head? := by
  rw [List.head?_append, Option.or_of_isSome (List.isSome_head?.mpr Nat.toDigits_ne_nil)]

/-- A number other than zero does not start with a zero. -/
theorem head?_toDigits {n : Nat} (h : 0 < n) : (Nat.toDigits 10 n).head? ≠ some '0' := by
  induction n using Nat.strongRecOn with
  | ind n ih =>
      rw [Nat.toDigits_eq_if (by decide)]
      split
      · rename_i hlt
        have hsmall : ∀ d < 10, 0 < d → Nat.digitChar d ≠ '0' := by decide
        simpa using hsmall n hlt h
      · rename_i hge
        have hpos : 0 < n / 10 := by omega
        rw [head?_digits_append]
        exact ih (n / 10) (by omega) hpos

theorem isDigit_of_mem {n : Nat} : ∀ c ∈ Nat.toDigits 10 n, c.isDigit = true := fun _ hc =>
  Nat.isDigit_of_mem_toDigits (by decide) (by decide) hc

theorem whole?_toDigits (n : Nat) (hr : Stops rest) :
    whole? (Nat.toDigits 10 n ++ rest) = some (Nat.toDigits 10 n, rest) := by
  rcases Nat.eq_zero_or_pos n with rfl | hpos
  · rw [Nat.toDigits_zero]
    rfl
  · have hne : Nat.toDigits 10 n ≠ [] := Nat.toDigits_ne_nil
    unfold whole?
    split
    · rename_i r e
      have hhead : (Nat.toDigits 10 n ++ rest).head? = some '0' := by rw [e]; rfl
      rw [head?_digits_append] at hhead
      exact absurd hhead (head?_toDigits hpos)
    · rw [digits_append isDigit_of_mem hr]
      split
      · rename_i e
        exact absurd (congrArg Prod.fst e) hne
      · rename_i e
        exact congrArg some e.symm

theorem number?_repr (n : Nat) (hr : Stops rest) :
    number? ((Nat.repr n).toList ++ rest) = some (.natural n, rest) := by
  have hsign : ∀ r, (Nat.repr n).toList ++ rest ≠ '-' :: r := by
    intro r e
    rw [Nat.toList_repr] at e
    have hhead : (Nat.toDigits 10 n).head? = some '-' := by
      rw [← head?_digits_append n rest, e]
      rfl
    exact absurd (isDigit_of_mem _ (List.mem_of_head? hhead)) (by decide)
  have hvalue : Decimal.natOfDigits (Nat.toDigits 10 n) = n := Nat.ofDigitChars_ten_toDigits
  unfold number?
  split
  rename_i sign r e
  split at e
  · rename_i r' e'
    exact absurd e' (hsign r')
  · cases e
    rw [Nat.toList_repr, whole?_toDigits n hr]
    simp [fraction?_stops hr, exponent?_stops hr, hvalue]

/-! ## 3. Strings -/

theorem hexValue?_digitChar : ∀ d < 16, hexValue? (Nat.digitChar d) = some d := by decide

/-- A character that needs no backslash. -/
theorem units_plain (done : List Nat) {c : Char} (hquote : c ≠ '"') (hslash : c ≠ '\\')
    (hcontrol : ¬ c.toNat < 0x20) : units done (c :: rest) = units (c.toNat :: done) rest := by
  rw [units.eq_def]
  split
  · rename_i e
    cases e
  · rename_i e
    exact absurd (List.cons.inj e).1 hquote
  · rename_i e
    exact absurd (List.cons.inj e).1 hslash
  · rename_i e
    exact absurd (List.cons.inj e).1 hslash
  · rename_i e
    cases e
    simp [hslash, hcontrol]

/-- A control character is named by its number. -/
theorem units_control (done : List Nat) {n : Nat} (h : n < 0x20) :
    units done (("\\u00" ++ hexPair n).toList ++ rest) = units (n :: done) rest := by
  have hhigh := hexValue?_digitChar (n / 16) (by omega)
  have hlow := hexValue?_digitChar (n % 16) (by omega)
  have hzero : hexValue? '0' = some 0 := rfl
  have hunit : hexUnit? '0' '0' (Nat.digitChar (n / 16)) (Nat.digitChar (n % 16)) = some n := by
    simp only [hexUnit?, hhigh, hlow, hzero, Option.bind_eq_bind, Option.bind_some]
    congr 1
    omega
  have htext : ("\\u00" ++ hexPair n).toList ++ rest =
      '\\' :: 'u' :: '0' :: '0' :: Nat.digitChar (n / 16) :: Nat.digitChar (n % 16) :: rest := by
    simp [hexPair]
  rw [htext, units, hunit]

/-- A character inside quotes is read as one code point. -/
theorem units_quoteChar (done : List Nat) (c : Char) :
    units done ((quoteChar c).toList ++ rest) = units (c.toNat :: done) rest := by
  unfold quoteChar
  -- the seven characters with an escape of their own
  iterate 7
    split
    · rename_i h
      rw [h]
      rfl
  split
  · rename_i h
    exact units_control done h
  · rename_i hquote hslash _ _ _ _ _ hcontrol
    rw [String.toList_singleton]
    exact units_plain done hquote hslash hcontrol

theorem units_quoted (s : List Char) (done : List Nat) :
    units done (s.flatMap (fun c => (quoteChar c).toList) ++ '"' :: rest) =
      some (done.reverse ++ s.map Char.toNat, rest) := by
  induction s generalizing done with
  | nil => simp [units]
  | cons c s ih =>
      rw [List.flatMap_cons, List.append_assoc, units_quoteChar, ih]
      simp

/-- No character is half of a pair. -/
theorem not_half (c : Char) : isHighHalf c.toNat = false ∧ isLowHalf c.toNat = false := by
  have hvalid : c.toNat < 0xD800 ∨ 0xDFFF < c.toNat ∧ c.toNat < 0x110000 := c.valid
  simp only [isHighHalf, isLowHalf, Bool.and_eq_false_iff, decide_eq_false_iff_not]
  omega

theorem joinHalves_map (s done : List Char) :
    joinHalves done (s.map Char.toNat) = some (done.reverse ++ s) := by
  induction s generalizing done with
  | nil => simp [joinHalves]
  | cons c s ih =>
      obtain ⟨hhigh, hlow⟩ := not_half c
      cases s with
      | nil => simp [joinHalves, hhigh, hlow]
      | cons d s =>
          have h := ih (c :: done)
          rw [List.map_cons] at h
          simp [joinHalves, hhigh, hlow, h]

/-- What stands in quotes is read back. -/
theorem stringBody_quote (s : String) (rest : List Char) :
    ∃ r, (quote (some s)).toList ++ rest = '"' :: r ∧ stringBody r = some (some s, rest) := by
  refine ⟨s.toList.flatMap (fun c => (quoteChar c).toList) ++ '"' :: rest, ?_, ?_⟩
  · simp [quote, String.toList_join, List.flatMap_map]
  · unfold stringBody
    rw [units_quoted]
    simp [joinHalves_map]

end Reader

/-! ## 4. Values -/

/-- **The value stands for itself**: every text in it is a text, and every number a natural one. -/
inductive Legible : Json → Prop where
  | null : Legible .null
  | bool (b : Bool) : Legible (.bool b)
  | natural (n : Nat) : Legible (.natural n)
  | text (s : String) : Legible (.text s)
  | array {xs : List Json} (h : ∀ x ∈ xs, Legible x) : Legible (.array xs)
  | fields {l : List (String × Json)} (h : ∀ f ∈ l, Legible f.2) : Legible (.fields l)

/-- The value is read back wherever it stands. It takes no more fuel than it has characters. -/
def Reads (j : Json) : Prop :=
  ∀ depth fuel rest, Reader.Stops rest → (j.prettyAt depth).toList.length ≤ fuel →
    Reader.value fuel ((j.prettyAt depth).toList ++ rest) = some (j, rest)

/-! ## 5. The text of a value -/

theorem toList_prettyMore (depth : Nat) (x : Json) (xs : List Json) : (prettyMore depth (x :: xs)).toList =
    ',' :: ((newline depth).toList ++ ((x.prettyAt depth).toList ++ (prettyMore depth xs).toList)) := by
  simp [prettyMore]

theorem toList_prettyFields (depth : Nat) (key : String) (x : Json) (fs : List (Option String × Json)) :
    (prettyFields depth ((some key, x) :: fs)).toList = ',' :: ((newline depth).toList ++
      ((quote (some key)).toList ++ (':' :: ' ' :: ((x.prettyAt depth).toList ++
        (prettyFields depth fs).toList)))) := by
  simp [prettyFields]

theorem toList_array (depth : Nat) (x : Json) (xs : List Json) : ((Json.array (x :: xs)).prettyAt depth).toList =
    '[' :: ((newline (depth + 1)).toList ++ ((x.prettyAt (depth + 1)).toList ++
      ((prettyMore (depth + 1) xs).toList ++ ((newline depth).toList ++ [']'])))) := by
  simp [prettyAt]

theorem toList_object (depth : Nat) (key : String) (x : Json) (fs : List (Option String × Json)) :
    ((Json.object ((some key, x) :: fs)).prettyAt depth).toList =
    '\x7b' :: ((newline (depth + 1)).toList ++ ((quote (some key)).toList ++ (':' :: ' ' ::
      ((x.prettyAt (depth + 1)).toList ++
        ((prettyFields (depth + 1) fs).toList ++ ((newline depth).toList ++ ['\x7d'])))))) := by
  simp [prettyAt]

namespace Reader

variable {rest : List Char}

theorem stops_newline (depth : Nat) : Stops ((newline depth).toList ++ rest) := by
  intro c hc
  have hhead : ((newline depth).toList ++ rest).head? = some '\n' := by simp [newline]
  rw [hhead] at hc
  cases hc
  decide

theorem stops_comma : Stops (',' :: rest) := by
  intro c hc
  cases hc
  decide

/-- What follows an element does not go on with it. -/
theorem stops_prettyMore (depth k : Nat) (xs : List Json) :
    Stops ((prettyMore depth xs).toList ++ ((newline k).toList ++ rest)) := by
  cases xs with
  | nil => exact stops_newline k
  | cons x xs =>
      rw [toList_prettyMore]
      exact stops_comma

theorem elements_newline (fuel depth : Nat) (done : List Json) :
    elements fuel done ((newline depth).toList ++ rest) = elements fuel done rest := by
  cases fuel with
  | zero => rfl
  | succ fuel => rw [elements, elements, value_newline]

theorem members_newline (fuel depth : Nat) (done : List (Option String × Json)) :
    members fuel done ((newline depth).toList ++ rest) = members fuel done rest := by
  cases fuel with
  | zero => rfl
  | succ fuel => rw [members, members, skipBlank_newline]

/-- One element is read, and then what stands after it. -/
theorem elements_succ (fuel : Nat) (done : List Json) {x : Json} {cs r : List Char}
    (h : value fuel cs = some (x, r)) :
    (∀ r', skipBlank r = ',' :: r' → elements (fuel + 1) done cs = elements fuel (x :: done) r') ∧
    ∀ r', skipBlank r = ']' :: r' → elements (fuel + 1) done cs = some ((x :: done).reverse, r') := by
  rw [elements, h]
  exact ⟨fun r' e => by simp only [e], fun r' e => by simp only [e]⟩

/-- **The elements of an array are read back**, up to its closing bracket. -/
theorem elements_pretty (rest : List Char) (depth k : Nat) {xs : List Json} :
    ∀ {x : Json} (fuel : Nat) (done : List Json), (∀ y ∈ x :: xs, Reads y) →
    ((x.prettyAt depth).toList ++ (prettyMore depth xs).toList).length < fuel →
    elements fuel done ((x.prettyAt depth).toList ++ ((prettyMore depth xs).toList ++
      ((newline k).toList ++ ']' :: rest))) = some (done.reverse ++ x :: xs, rest) := by
  induction xs with
  | nil =>
      intro x fuel done hx hfuel
      rw [List.length_append] at hfuel
      cases fuel with
      | zero => exact absurd hfuel (Nat.not_lt_zero _)
      | succ fuel =>
          have hread := hx x List.mem_cons_self depth fuel ((newline k).toList ++ ']' :: rest)
            (stops_newline k) (by omega)
          refine ((elements_succ fuel done hread).2 rest ?_).trans (by simp)
          rw [skipBlank_newline, skipBlank_of_head rfl]
  | cons y ys ih =>
      intro x fuel done hx hfuel
      rw [toList_prettyMore] at hfuel ⊢
      simp only [List.length_append, List.length_cons] at hfuel
      cases fuel with
      | zero => exact absurd hfuel (Nat.not_lt_zero _)
      | succ fuel =>
          have hread := fun r => hx x List.mem_cons_self depth fuel (',' :: r) stops_comma (by omega)
          have hnext := ih fuel (x :: done) (fun z hz => hx z (List.mem_cons_of_mem _ hz))
            (by rw [List.length_append]; omega)
          rw [List.cons_append, (elements_succ fuel done (hread _)).1 _ (skipBlank_of_head rfl)]
          simp only [List.append_assoc, elements_newline]
          rw [hnext]
          simp

/-- One field is read, and then what stands after it. -/
theorem members_succ (fuel : Nat) (done : List (Option String × Json)) (key : String) {x : Json}
    {cs r : List Char} (h : value fuel cs = some (x, r)) :
    (∀ r', skipBlank r = ',' :: r' → members (fuel + 1) done ((quote (some key)).toList ++ ':' :: ' ' :: cs) =
      members fuel ((some key, x) :: done) r') ∧
    ∀ r', skipBlank r = '\x7d' :: r' → members (fuel + 1) done ((quote (some key)).toList ++ ':' :: ' ' :: cs) =
      some (((some key, x) :: done).reverse, r') := by
  obtain ⟨body, htext, hkey⟩ := stringBody_quote key (':' :: ' ' :: cs)
  rw [members, htext, skipBlank_of_head (show isBlank '"' = false from rfl)]
  simp only [hkey, skipBlank_of_head (show isBlank ':' = false from rfl), value_space, h]
  exact ⟨fun r' e => by simp only [e], fun r' e => by simp only [e]⟩

/-- **The fields of an object are read back**, up to its closing brace. -/
theorem members_pretty (rest : List Char) (depth k : Nat) {l : List (String × Json)} :
    ∀ {f : String × Json} (fuel : Nat) (done : List (Option String × Json)), (∀ g ∈ f :: l, Reads g.2) →
    ((f.2.prettyAt depth).toList ++ (prettyFields depth (l.map fun f => (some f.1, f.2))).toList).length < fuel →
    members fuel done ((quote (some f.1)).toList ++ (':' :: ' ' :: ((f.2.prettyAt depth).toList ++
      ((prettyFields depth (l.map fun f => (some f.1, f.2))).toList ++ ((newline k).toList ++ '\x7d' :: rest))))) =
      some (done.reverse ++ (f :: l).map (fun f => (some f.1, f.2)), rest) := by
  induction l with
  | nil =>
      intro f fuel done hf hfuel
      rw [List.length_append] at hfuel
      cases fuel with
      | zero => exact absurd hfuel (Nat.not_lt_zero _)
      | succ fuel =>
          have hread := hf f List.mem_cons_self depth fuel ((newline k).toList ++ '\x7d' :: rest)
            (stops_newline k) (by omega)
          refine ((members_succ fuel done f.1 hread).2 rest ?_).trans (by simp)
          rw [skipBlank_newline, skipBlank_of_head rfl]
  | cons g l ih =>
      intro f fuel done hf hfuel
      rw [List.map_cons, toList_prettyFields] at hfuel ⊢
      simp only [List.length_append, List.length_cons] at hfuel
      cases fuel with
      | zero => exact absurd hfuel (Nat.not_lt_zero _)
      | succ fuel =>
          have hread := fun r => hf f List.mem_cons_self depth fuel (',' :: r) stops_comma (by omega)
          have hnext := ih (f := g) fuel ((some f.1, f.2) :: done) (fun z hz => hf z (List.mem_cons_of_mem _ hz))
            (by rw [List.length_append]; omega)
          rw [List.cons_append, (members_succ fuel done f.1 (hread _)).1 _ (skipBlank_of_head rfl)]
          simp only [List.append_assoc, members_newline, List.cons_append]
          rw [hnext]
          simp

end Reader

open Reader

/-- No value starts with a closing bracket. -/
theorem skipBlank_ne_bracket {fuel : Nat} {cs r : List Char} {x : Json × List Char}
    (h : value fuel cs = some x) : skipBlank cs ≠ ']' :: r := by
  intro e
  cases fuel with
  | zero => cases h
  | succ fuel =>
      rw [value, e] at h
      cases h

theorem reads_array {xs : List Json} (h : ∀ x ∈ xs, Reads x) : Reads (.array xs) := by
  intro depth fuel rest _ hfuel
  cases fuel with
  | zero =>
      cases xs with
      | nil => exact absurd hfuel (by simp [prettyAt])
      | cons x xs => exact absurd hfuel (by simp [toList_array])
  | succ fuel =>
      cases xs with
      | nil =>
          have htext : ((Json.array []).prettyAt depth).toList ++ rest = '[' :: ']' :: rest := by simp [prettyAt]
          rw [htext, value, skipBlank_of_head (show isBlank '[' = false from rfl)]
          simp only [skipBlank_of_head (show isBlank ']' = false from rfl)]
      | cons x xs =>
          rw [toList_array] at hfuel ⊢
          simp only [List.length_append, List.length_cons, List.length_nil] at hfuel
          have hall := elements_pretty rest (depth + 1) depth fuel [] h
            (by rw [List.length_append]; omega)
          have hfirst := h x List.mem_cons_self (depth + 1) fuel
            ((prettyMore (depth + 1) xs).toList ++ ((newline depth).toList ++ ']' :: rest))
            (stops_prettyMore _ _ _) (by omega)
          simp only [List.cons_append, List.append_assoc, List.nil_append]
          rw [value, skipBlank_of_head (show isBlank '[' = false from rfl)]
          simp only [skipBlank_newline]
          split
          · rename_i r e
            exact absurd e (skipBlank_ne_bracket hfirst)
          · rw [elements_newline, hall]
            rfl

theorem reads_fields {l : List (String × Json)} (h : ∀ f ∈ l, Reads f.2) : Reads (.fields l) := by
  intro depth fuel rest _ hfuel
  cases fuel with
  | zero =>
      cases l with
      | nil => exact absurd hfuel (by simp [fields, prettyAt])
      | cons f l => exact absurd hfuel (by simp [fields, toList_object])
  | succ fuel =>
      cases l with
      | nil =>
          have htext : ((Json.fields []).prettyAt depth).toList ++ rest = '\x7b' :: '\x7d' :: rest := by
            simp [fields, prettyAt]
          rw [htext, value, skipBlank_of_head (show isBlank '\x7b' = false from rfl)]
          simp only [skipBlank_of_head (show isBlank '\x7d' = false from rfl)]
          rfl
      | cons f l =>
          have hobject : Json.fields (f :: l) = .object ((some f.1, f.2) :: l.map fun f => (some f.1, f.2)) := rfl
          rw [hobject, toList_object] at hfuel ⊢
          simp only [List.length_append, List.length_cons, List.length_nil] at hfuel
          have hall := members_pretty rest (depth + 1) depth fuel [] h
            (by rw [List.length_append]; omega)
          obtain ⟨r, hquote, _⟩ := stringBody_quote f.1 (':' :: ' ' :: ((f.2.prettyAt (depth + 1)).toList ++
            ((prettyFields (depth + 1) (l.map fun f => (some f.1, f.2))).toList ++
              ((newline depth).toList ++ '\x7d' :: rest))))
          simp only [List.cons_append, List.append_assoc, List.nil_append]
          rw [value, skipBlank_of_head (show isBlank '\x7b' = false from rfl)]
          simp only [skipBlank_newline]
          rw [members_newline, hall, hquote, skipBlank_of_head (show isBlank '"' = false from rfl)]
          rfl

/-- A value whose text is known by its first character is read with any fuel. -/
theorem reads_of_cons {j : Json} (h : ∀ depth rest, Stops rest → ∃ c r,
    (j.prettyAt depth).toList ++ rest = c :: r ∧ (j.prettyAt depth).toList ≠ [] ∧
      ∀ fuel, value (fuel + 1) (c :: r) = some (j, rest)) : Reads j := by
  intro depth fuel rest hr hfuel
  obtain ⟨c, r, htext, hne, hvalue⟩ := h depth rest hr
  cases fuel with
  | zero => exact absurd (List.eq_nil_of_length_eq_zero (Nat.le_zero.mp hfuel)) hne
  | succ fuel => rw [htext, hvalue]

theorem isBlank_of_isDigit {c : Char} (h : c.isDigit = true) : isBlank c = false := by
  cases hb : isBlank c with
  | false => rfl
  | true =>
      simp only [isBlank, Bool.or_eq_true, decide_eq_true_eq] at hb
      rcases hb with ((rfl | rfl) | rfl) | rfl <;> revert h <;> decide

theorem reads_natural (n : Nat) : Reads (.natural n) := by
  refine reads_of_cons fun depth rest hr => ?_
  have hnumber := number?_repr n hr
  rw [prettyAt]
  cases htext : (Nat.repr n).toList with
  | nil => exact absurd htext (by simp [Nat.toList_repr, Nat.toDigits_ne_nil])
  | cons c r =>
      refine ⟨c, r ++ rest, rfl, List.cons_ne_nil _ _, fun fuel => ?_⟩
      have hdigit : c.isDigit = true := by
        refine isDigit_of_mem (n := n) c ?_
        rw [← Nat.toList_repr, htext]
        exact List.mem_cons_self
      rw [htext, List.cons_append] at hnumber
      rw [value, skipBlank_of_head (isBlank_of_isDigit hdigit)]
      split
      · contradiction
      all_goals
        rename_i e
        cases e
      · cases hdigit
      · cases hdigit
      · cases hdigit
      · rw [if_neg (by rintro rfl; cases hdigit), if_neg (by rintro rfl; cases hdigit),
          if_neg (by rintro rfl; cases hdigit), hnumber]

theorem reads_text (s : String) : Reads (.text s) := by
  refine reads_of_cons fun depth rest hr => ?_
  obtain ⟨r, hquote, hbody⟩ := stringBody_quote s rest
  refine ⟨'"', r, hquote, by simp [text, prettyAt, quote], fun fuel => ?_⟩
  rw [value, skipBlank_of_head (show isBlank '"' = false from rfl)]
  simp only [hbody, Option.map_some]
  rfl

/-- **A value that stands for itself is read back.** -/
theorem Legible.reads {j : Json} (h : j.Legible) : Reads j := by
  induction h with
  | null =>
      exact reads_of_cons fun depth rest _ => ⟨'n', 'u' :: 'l' :: 'l' :: rest, by simp [prettyAt], by simp [prettyAt],
        fun _ => rfl⟩
  | bool b =>
      cases b with
      | true =>
          exact reads_of_cons fun depth rest _ => ⟨'t', 'r' :: 'u' :: 'e' :: rest, by simp [prettyAt],
            by simp [prettyAt], fun _ => rfl⟩
      | false =>
          exact reads_of_cons fun depth rest _ => ⟨'f', 'a' :: 'l' :: 's' :: 'e' :: rest, by simp [prettyAt],
            by simp [prettyAt], fun _ => rfl⟩
  | natural n => exact reads_natural n
  | text s => exact reads_text s
  | array _ ih => exact reads_array ih
  | fields _ ih => exact reads_fields ih

/-- **What is written over several lines is read back**, if it stands for itself. -/
theorem parse?_pretty {j : Json} (h : j.Legible) : parse? j.pretty = some j := by
  have hread := h.reads 0 ((j.prettyAt 0).toList.length + 1) [] (fun c hc => by cases hc) (Nat.le_succ _)
  rw [List.append_nil] at hread
  simp only [parse?, pretty, hread]
  rfl

end GoalWatch.Json
