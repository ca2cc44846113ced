/-
Hexadecimal texts.

* `Hex.bytes` — the bytes of an even number of digits.
* `Hex.denoted` — the bytes of a text written with or without a prefix.
-/

import Mathlib.Tactic.Common

namespace EvmBabble.Library.Hex

/-- The value of a digit, in either case. -/
def digit (letter : Char) : Option Nat :=
  if '0' ≤ letter ∧ letter ≤ '9' then some (letter.toNat - 48)
  else if 'a' ≤ letter ∧ letter ≤ 'f' then some (letter.toNat - 87)
  else if 'A' ≤ letter ∧ letter ≤ 'F' then some (letter.toNat - 55)
  else none

/-- The bytes of a list of digits; there must be an even number of them. -/
def bytes : List Char → Option (List UInt8)
  | [] => some []
  | [_] => none
  | high :: low :: rest => (digit high).bind fun upper => (digit low).bind fun lower =>
    (bytes rest).map fun later => UInt8.ofNat (16 * upper + lower) :: later

/-- A text of bytes has an even number of digits. -/
theorem bytes_length : ∀ {letters : List Char} {data : List UInt8},
    bytes letters = some data → letters.length % 2 = 0
  | [], _, _ => rfl
  | [_], _, read => by cases read
  | _ :: _ :: rest, _, read => by
    obtain ⟨_, -, later⟩ := Option.bind_eq_some_iff.mp read
    obtain ⟨_, -, last⟩ := Option.bind_eq_some_iff.mp later
    obtain ⟨_, tail, -⟩ := Option.map_eq_some_iff.mp last
    have even := bytes_length tail
    rw [List.length_cons, List.length_cons]
    omega

/-- What is behind the prefix, if there is one. -/
def unprefixed : List Char → List Char
  | '0' :: 'x' :: rest => rest
  | '0' :: 'X' :: rest => rest
  | letters => letters

/-- A text that begins with a prefix. -/
def Prefixed (text : String) : Prop := unprefixed text.toList ≠ text.toList

instance (text : String) : Decidable (Prefixed text) := inferInstanceAs (Decidable (_ ≠ _))

/-- The bytes of a valid text, written with or without a prefix. -/
def denoted (text : String) : Option (List UInt8) := bytes (unprefixed text.toList)

/-- A text without a prefix is its digits. -/
theorem denoted_plain {text : String} (plain : ¬ Prefixed text) : denoted text = bytes text.toList := by
  rw [denoted, not_not.mp plain]

end EvmBabble.Library.Hex
