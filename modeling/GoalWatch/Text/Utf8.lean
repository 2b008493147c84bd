/-!
# Text from bytes

A byte sequence is read as UTF-8. The first fault ends the reading and says where the faulty character
starts and how many of its bytes could have begun a character.

* `Fault` -- a sequence no character has, or a character cut off by the end;
* `decode` -- the text of a byte sequence, or its first fault.
-/

namespace GoalWatch.Text.Utf8

/-! ## 1. Faults -/

/-- Why a byte sequence is not UTF-8. `start` is the index of the byte at which the character begins. -/
inductive Fault where
  /-- The `length` bytes from `start` begin no character together with the byte after them. -/
  | invalid (length start : Nat)
  /-- The sequence ends inside a character. -/
  | incomplete (start : Nat)
  deriving DecidableEq, Repr

def Fault.message : Fault → String
  | .invalid length start => s!"invalid utf-8 sequence of {length} bytes from index {start}"
  | .incomplete start => s!"incomplete utf-8 byte sequence from index {start}"

/-! ## 2. Lead and tail bytes -/

def isTail (b : Nat) : Bool :=
  decide (0x80 ≤ b) && decide (b ≤ 0xBF)

/-- How many tail bytes a lead byte asks for, and the range of the first of them; none for a byte that
    leads no character. -/
def lead (b : Nat) : Option (Nat × Nat × Nat) :=
  if b ≤ 0x7F then some (0, 0x80, 0xBF)
  else if 0xC2 ≤ b ∧ b ≤ 0xDF then some (1, 0x80, 0xBF)
  else if b = 0xE0 then some (2, 0xA0, 0xBF)
  else if b = 0xED then some (2, 0x80, 0x9F)
  else if 0xE1 ≤ b ∧ b ≤ 0xEF then some (2, 0x80, 0xBF)
  else if b = 0xF0 then some (3, 0x90, 0xBF)
  else if 0xF1 ≤ b ∧ b ≤ 0xF3 then some (3, 0x80, 0xBF)
  else if b = 0xF4 then some (3, 0x80, 0x8F)
  else none

/-- The part of the code point that a lead byte with `tails` tail bytes carries. -/
def leadBits (tails b : Nat) : Nat :=
  match tails with
  | 0 => b
  | 1 => b % 0x20
  | 2 => b % 0x10
  | _ => b % 0x08

/-! ## 3. Reading -/

/-- One character read: its code point, how many bytes it took, and the bytes after it. -/
structure Step where
  code : Nat
  taken : Nat
  rest : List UInt8

/-- The further tail bytes of a character: the code point so far is `acc`, `seen` bytes of the character
    are behind us, `owed` are still to come. -/
def tails : (owed seen acc : Nat) → List UInt8 → Except (Option Nat) Step
  | 0, seen, acc, bytes => .ok ⟨acc, seen, bytes⟩
  | _ + 1, _, _, [] => .error none
  | owed + 1, seen, acc, b :: rest =>
    if isTail b.toNat then tails owed (seen + 1) (acc * 0x40 + b.toNat % 0x40) rest
    else .error (some seen)

/-- The character that starts with byte `b`; on a fault, the number of its bytes that could have begun
    a character, or none where the bytes ran out. -/
def character (b : UInt8) (rest : List UInt8) : Except (Option Nat) Step :=
  match lead b.toNat with
  | none => .error (some 1)
  | some (0, _, _) => .ok ⟨b.toNat, 1, rest⟩
  | some (owed + 1, low, high) =>
    match rest with
    | [] => .error none
    | c :: rest =>
      if low ≤ c.toNat ∧ c.toNat ≤ high then
        tails owed 2 (leadBits (owed + 1) b.toNat * 0x40 + c.toNat % 0x40) rest
      else .error (some 1)

/-- Reads `fuel` characters at most, after those of `done` (the last one first); `index` counts the
    bytes behind us. -/
def characters : (fuel index : Nat) → (done : List Char) → List UInt8 → Except Fault (List Char)
  | _, _, done, [] => .ok done.reverse
  | 0, index, _, _ :: _ => .error (.incomplete index)
  | fuel + 1, index, done, b :: bytes =>
    match character b bytes with
    | .error none => .error (.incomplete index)
    | .error (some length) => .error (.invalid length index)
    | .ok step => characters fuel (index + step.taken) (Char.ofNat step.code :: done) step.rest

/-- The text that a byte sequence holds, or its first fault. A sequence has no more characters than
    bytes, so the fuel is never used up. -/
def decode (bytes : List UInt8) : Except Fault String :=
  (characters bytes.length 0 [] bytes).map String.ofList

end GoalWatch.Text.Utf8
