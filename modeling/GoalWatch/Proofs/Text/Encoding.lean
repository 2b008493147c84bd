import GoalWatch.Folder

/-!
# Bytes of a text are read back

* `character_encode` -- one character, by the number of its bytes;
* `decode_encode` -- a whole text;
* **`Content.text_ofText`** -- what a file holds.
-/

namespace GoalWatch.Text.Utf8

variable {v : Nat} {rest : List UInt8}

/-! ## 1. One character -/

theorem character_lead {b c : UInt8} {owed low high : Nat} (hlead : lead b.toNat = some (owed + 1, low, high))
    (hc : low ≤ c.toNat ∧ c.toNat ≤ high) : character b (c :: rest) =
      tails owed 2 (leadBits (owed + 1) b.toNat * 0x40 + c.toNat % 0x40) rest := by
  rw [character, hlead]
  exact if_pos hc

theorem tails_cons {b : UInt8} (hb : 0x80 ≤ b.toNat ∧ b.toNat ≤ 0xBF) (owed seen acc : Nat) :
    tails (owed + 1) seen acc (b :: rest) = tails owed (seen + 1) (acc * 0x40 + b.toNat % 0x40) rest := by
  simp [tails, isTail, hb]

theorem lead_two (hlow : 0x7F < v) (hhigh : v ≤ 0x7FF) : lead (v / 64 % 0x20 + 0xC0) = some (1, 0x80, 0xBF) := by
  unfold lead
  rw [if_neg (by omega), if_pos (by omega)]

theorem lead_three (hlow : 0x7FF < v) (hhigh : v ≤ 0xFFFF) (hhalf : v < 0xD800 ∨ 0xDFFF < v) :
    ∃ low high, lead (v / 4096 % 0x10 + 0xE0) = some (2, low, high) ∧
      low ≤ v / 64 % 0x40 + 0x80 ∧ v / 64 % 0x40 + 0x80 ≤ high := by
  unfold lead
  rw [if_neg (by omega), if_neg (by omega)]
  by_cases h0 : v / 4096 % 0x10 + 0xE0 = 0xE0
  · exact ⟨0xA0, 0xBF, by rw [if_pos h0], by omega, by omega⟩
  by_cases hd : v / 4096 % 0x10 + 0xE0 = 0xED
  · exact ⟨0x80, 0x9F, by rw [if_neg h0, if_pos hd], by omega, by omega⟩
  · exact ⟨0x80, 0xBF, by rw [if_neg h0, if_neg hd, if_pos (by omega)], by omega, by omega⟩

theorem lead_four (hlow : 0xFFFF < v) (hhigh : v < 0x110000) :
    ∃ low high, lead (v / 262144 % 0x08 + 0xF0) = some (3, low, high) ∧
      low ≤ v / 4096 % 0x40 + 0x80 ∧ v / 4096 % 0x40 + 0x80 ≤ high := by
  unfold lead
  rw [if_neg (by omega), if_neg (by omega), if_neg (by omega), if_neg (by omega), if_neg (by omega)]
  by_cases h0 : v / 262144 % 0x08 + 0xF0 = 0xF0
  · exact ⟨0x90, 0xBF, by rw [if_pos h0], by omega, by omega⟩
  by_cases h4 : v / 262144 % 0x08 + 0xF0 = 0xF4
  · exact ⟨0x80, 0x8F, by rw [if_neg h0, if_neg (by omega), if_pos h4], by omega, by omega⟩
  · exact ⟨0x80, 0xBF, by rw [if_neg h0, if_pos (by omega)], by omega, by omega⟩

/-- The first bytes of a text are those of its first character. -/
theorem character_encode (c : Char) (rest : List UInt8) : ∃ b bytes, String.utf8EncodeChar c = b :: bytes ∧
    character b (bytes ++ rest) = .ok ⟨c.toNat, bytes.length + 1, rest⟩ := by
  have hvalid : c.toNat < 0xD800 ∨ 0xDFFF < c.toNat ∧ c.toNat < 0x110000 := c.valid
  have hcode : c.val.toNat = c.toNat := rfl
  unfold String.utf8EncodeChar
  simp only [hcode]
  generalize c.toNat = v at hvalid
  have hbyte : ∀ {n : Nat}, n < 0x100 → (UInt8.ofNat n).toNat = n := fun h => UInt8.toNat_ofNat_of_lt h
  have htail := hbyte (n := v % 0x40 + 0x80) (by omega)
  have htail' := hbyte (n := v / 64 % 0x40 + 0x80) (by omega)
  -- by the number of bytes
  split
  · rename_i hone
    refine ⟨_, _, rfl, ?_⟩
    simp [character, hbyte (show v < 0x100 by omega), lead, hone]
  split
  · rename_i hone htwo
    refine ⟨_, _, rfl, ?_⟩
    have hb := hbyte (n := v / 64 % 0x20 + 0xC0) (by omega)
    rw [List.cons_append, character_lead (hb ▸ lead_two (by omega) htwo) (by omega), hb, htail, tails]
    simp only [leadBits, List.nil_append, List.length_cons, List.length_nil]
    congr 2
    omega
  split
  · rename_i hone htwo hthree
    refine ⟨_, _, rfl, ?_⟩
    have hb := hbyte (n := v / 4096 % 0x10 + 0xE0) (by omega)
    obtain ⟨low, high, hlead, hrange⟩ := lead_three (v := v) (by omega) hthree (by omega)
    rw [← hb] at hlead
    rw [← htail'] at hrange
    rw [List.cons_append, List.cons_append, character_lead hlead hrange, tails_cons (by omega), tails, hb, htail,
      htail']
    simp only [leadBits, List.nil_append, List.length_cons, List.length_nil]
    congr 2
    omega
  · rename_i hone htwo hthree
    refine ⟨_, _, rfl, ?_⟩
    have hb := hbyte (n := v / 262144 % 0x08 + 0xF0) (by omega)
    have hb' := hbyte (n := v / 4096 % 0x40 + 0x80) (by omega)
    obtain ⟨low, high, hlead, hrange⟩ := lead_four (v := v) (by omega) (by omega)
    rw [← hb] at hlead
    rw [← hb'] at hrange
    rw [List.cons_append, List.cons_append, List.cons_append, character_lead hlead hrange, tails_cons (by omega),
      tails_cons (by omega), tails, hb, hb', htail, htail']
    simp only [leadBits, List.nil_append, List.length_cons, List.length_nil]
    congr 2
    omega

/-! ## 2. A text -/

theorem characters_encode (cs : List Char) : ∀ fuel index done, cs.length ≤ fuel →
    characters fuel index done (cs.flatMap String.utf8EncodeChar) = .ok (done.reverse ++ cs) := by
  induction cs with
  | nil =>
      intro fuel index done _
      simp [characters]
  | cons c cs ih =>
      intro fuel index done hfuel
      obtain ⟨b, bytes, hbytes, hread⟩ := character_encode c (cs.flatMap String.utf8EncodeChar)
      cases fuel with
      | zero => exact absurd hfuel (Nat.not_succ_le_zero _)
      | succ fuel =>
          rw [List.flatMap_cons, hbytes, List.cons_append, characters, hread]
          simp only [Char.ofNat_toNat]
          rw [ih _ _ _ (Nat.le_of_succ_le_succ hfuel)]
          simp

theorem length_le_encode (cs : List Char) : cs.length ≤ (cs.flatMap String.utf8EncodeChar).length := by
  induction cs with
  | nil => simp
  | cons c cs ih =>
      have hpos : 0 < (String.utf8EncodeChar c).length := List.length_pos_iff.mpr String.utf8EncodeChar_ne_nil
      rw [List.flatMap_cons, List.length_append, List.length_cons]
      omega

/-- **The bytes of a text are read back as this text.** -/
theorem decode_encode (cs : List Char) : decode (cs.flatMap String.utf8EncodeChar) = .ok (String.ofList cs) := by
  unfold decode
  rw [characters_encode cs _ 0 [] (length_le_encode cs)]
  rfl

end GoalWatch.Text.Utf8

namespace GoalWatch.Content

theorem ofText_eq (text : String) : ofText text = text.toList.flatMap String.utf8EncodeChar := by
  unfold ofText
  rw [String.toUTF8_eq_toByteArray, ← String.utf8Encode_toList, List.utf8Encode, List.data_toByteArray]

/-- **A content that holds a text is read as it.** -/
theorem text_ofText (text : String) : (ofText text).text = .ok text := by
  unfold Content.text
  rw [ofText_eq, Text.Utf8.decode_encode, String.ofList_toList]
  rfl

end GoalWatch.Content
