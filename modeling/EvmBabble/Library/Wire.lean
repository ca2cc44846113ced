/-
Self-delimiting byte formats.

A `Wire` writes values as bytes and reads one value off the front of a byte list; its law says that
reading gives back what was written and leaves what follows. Formats are built from numbers, fixed
chunks, pairs, options, lists and changes of representation, so each carries its own round trip.
-/

import Mathlib.Data.List.Basic
import Mathlib.Tactic.Common

namespace EvmBabble.Library

/-- A byte format with its round trip. -/
structure Wire (α : Type) where
  write : α → List UInt8
  read : List UInt8 → Option (α × List UInt8)
  read_write : ∀ value rest, read (write value ++ rest) = some (value, rest)

namespace Wire

variable {α β : Type}

/-- The value of a byte list that holds nothing else. -/
def readAll (wire : Wire α) (bytes : List UInt8) : Option α :=
  match wire.read bytes with
  | some (value, []) => some value
  | _ => none

theorem readAll_write (wire : Wire α) (value : α) : wire.readAll (wire.write value) = some value := by
  have back := wire.read_write value []
  rw [List.append_nil] at back
  rw [readAll, back]

/-- Another representation of the same values. -/
def via (wire : Wire α) (pack : α → β) (unpack : β → α) (back : ∀ value, pack (unpack value) = value) :
    Wire β where
  write value := wire.write (unpack value)
  read bytes := (wire.read bytes).map fun found => (pack found.1, found.2)
  read_write value rest := by rw [wire.read_write, Option.map_some, back]

/-- One value after another. -/
def both (first : Wire α) (second : Wire β) : Wire (α × β) where
  write value := first.write value.1 ++ second.write value.2
  read bytes := (first.read bytes).bind fun one =>
    (second.read one.2).map fun two => ((one.1, two.1), two.2)
  read_write value rest := by
    rw [List.append_assoc, first.read_write, Option.bind_some, second.read_write]
    rfl

/-! ### Numbers -/

/-- Base 128, the low digit first; a digit of 128 or more says that another one follows. -/
def digits : Nat → Nat → List UInt8
  | 0, _ => [0]
  | fuel + 1, number =>
    if number < 128 then [UInt8.ofNat number]
    else UInt8.ofNat (number % 128 + 128) :: digits fuel (number / 128)

def ofDigits : List UInt8 → Option (Nat × List UInt8)
  | [] => none
  | digit :: rest =>
    if digit.toNat < 128 then some (digit.toNat, rest)
    else (ofDigits rest).map fun found => (digit.toNat - 128 + 128 * found.1, found.2)

theorem ofDigits_digits (fuel number : Nat) (enough : number ≤ fuel) (rest : List UInt8) :
    ofDigits (digits fuel number ++ rest) = some (number, rest) := by
  induction fuel generalizing number with
  | zero =>
    obtain rfl : number = 0 := Nat.le_zero.mp enough
    rfl
  | succ fuel ih =>
    rw [digits]
    split
    · next small =>
      have value : (UInt8.ofNat number).toNat = number := by
        rw [UInt8.toNat_ofNat']
        omega
      rw [List.singleton_append, ofDigits, value, if_pos small]
    · next large =>
      have value : (UInt8.ofNat (number % 128 + 128)).toNat = number % 128 + 128 := by
        rw [UInt8.toNat_ofNat']
        omega
      rw [List.cons_append, ofDigits, value, if_neg (by omega), ih (number / 128) (by omega)]
      simp only [Option.map_some, Option.some.injEq, Prod.mk.injEq, and_true]
      omega

def nat : Wire Nat where
  write number := digits number number
  read := ofDigits
  read_write number rest := ofDigits_digits number number (Nat.le_refl _) rest

/-- Integers, the sign in the lowest bit. -/
def int : Wire Int :=
  nat.via (fun code => if code % 2 = 0 then (code / 2 : Nat) else -((code / 2 : Nat) + 1 : Int))
    (fun value => if 0 ≤ value then 2 * value.toNat else 2 * (-value - 1).toNat + 1)
    (by
      intro value
      by_cases sign : 0 ≤ value
      · simp only [sign, if_true]
        rw [if_pos (by omega)]
        omega
      · simp only [sign, if_false]
        rw [if_neg (by omega)]
        omega)

def bool : Wire Bool :=
  nat.via (fun code => code != 0) (fun value => if value then 1 else 0) (by decide)

/-! ### Bytes, options and lists -/

/-- A byte list behind its length. -/
def bytes : Wire (List UInt8) where
  write data := nat.write data.length ++ data
  read list := (nat.read list).map fun found => (found.2.take found.1, found.2.drop found.1)
  read_write data rest := by
    rw [List.append_assoc, nat.read_write, Option.map_some, List.take_left, List.drop_left]

def option (wire : Wire α) : Wire (Option α) where
  write
    | none => nat.write 0
    | some value => nat.write 1 ++ wire.write value
  read list := (nat.read list).bind fun found =>
    if found.1 = 0 then some (none, found.2)
    else (wire.read found.2).map fun inner => (some inner.1, inner.2)
  read_write value rest := by
    cases value with
    | none =>
      rw [nat.read_write]
      rfl
    | some value =>
      rw [List.append_assoc, nat.read_write, Option.bind_some, if_neg Nat.one_ne_zero,
        wire.read_write]
      rfl

/-- So many values in a row. -/
def readMany (wire : Wire α) : Nat → List UInt8 → Option (List α × List UInt8)
  | 0, list => some ([], list)
  | count + 1, list => (wire.read list).bind fun found =>
    (wire.readMany count found.2).map fun later => (found.1 :: later.1, later.2)

theorem readMany_write (wire : Wire α) (values : List α) (rest : List UInt8) :
    wire.readMany values.length (values.flatMap wire.write ++ rest) = some (values, rest) := by
  induction values with
  | nil => rfl
  | cons value values ih =>
    rw [List.flatMap_cons, List.append_assoc, List.length_cons, readMany, wire.read_write,
      Option.bind_some, ih]
    rfl

/-- A list behind its length. -/
def list (wire : Wire α) : Wire (List α) where
  write values := nat.write values.length ++ values.flatMap wire.write
  read bytes := (nat.read bytes).bind fun found => wire.readMany found.1 found.2
  read_write values rest := by
    rw [List.append_assoc, nat.read_write, Option.bind_some, readMany_write]

end Wire

end EvmBabble.Library
