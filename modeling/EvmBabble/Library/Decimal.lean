/-
Decimal digits, the first one first.

* `Decimal.value` — the number that digits write.
* `Decimal.digits` — the digits of a number, without a leading zero.
* `value_significant` — the digits without the zeros at both ends, and the place they had.
-/

import Mathlib.Data.List.DropRight
import Mathlib.Data.Nat.Digits.Lemmas
import Mathlib.Tactic.Ring

namespace EvmBabble.Library.Decimal

instance neZero_ten : NeZero 10 := ⟨by decide⟩

/-- The number that digits write. -/
def value (digits : List (Fin 10)) : ℕ := Nat.ofDigits 10 (digits.reverse.map Fin.val)

@[simp] theorem value_nil : value [] = 0 := rfl

theorem value_append (front back : List (Fin 10)) :
    value (front ++ back) = value front * 10 ^ back.length + value back := by
  rw [value, List.reverse_append, List.map_append, Nat.ofDigits_append, List.length_map,
    List.length_reverse, add_comm, mul_comm]
  rfl

theorem value_single (digit : Fin 10) : value [digit] = digit := Nat.ofDigits_singleton

theorem value_cons (digit : Fin 10) (rest : List (Fin 10)) :
    value (digit :: rest) = digit * 10 ^ rest.length + value rest := by
  rw [← List.singleton_append, value_append, value_single]

theorem value_lt (digits : List (Fin 10)) : value digits < 10 ^ digits.length := by
  induction digits with
  | nil => exact Nat.one_pos
  | cons digit rest ih =>
    rw [value_cons, List.length_cons, pow_succ]
    have small := digit.isLt
    nlinarith

/-- A number is at least as large as its first digit makes it. -/
theorem value_ge {digit : Fin 10} (rest : List (Fin 10)) (leading : digit ≠ 0) :
    10 ^ rest.length ≤ value (digit :: rest) := by
  rw [value_cons]
  have positive : 1 ≤ (digit : ℕ) := Nat.one_le_iff_ne_zero.mpr fun zero => leading (Fin.ext zero)
  nlinarith [Nat.zero_le (value rest), Nat.one_le_pow rest.length 10 (by decide)]

/-! ### Zeros -/

theorem value_dropWhile (digits : List (Fin 10)) : value (digits.dropWhile (· = 0)) = value digits := by
  induction digits with
  | nil => rfl
  | cons digit rest ih =>
    by_cases zero : digit = 0
    · rw [List.dropWhile_cons_of_pos (by simpa using zero), ih, value_cons, zero, Fin.val_zero,
        zero_mul, zero_add]
    · rw [List.dropWhile_cons_of_neg (by simpa using zero)]

theorem length_zeros (digits : List (Fin 10)) :
    digits.length = (digits.takeWhile (· = 0)).length + (digits.dropWhile (· = 0)).length := by
  rw [← List.length_append, List.takeWhile_append_dropWhile]

theorem dropWhile_leading {digits rest : List (Fin 10)} {digit : Fin 10}
    (same : digits.dropWhile (· = 0) = digit :: rest) : digit ≠ 0 := by
  have first := List.head_dropWhile_not (decide <| · = (0 : Fin 10)) (same ▸ List.cons_ne_nil _ _)
  simp only [same, List.head_cons] at first
  exact of_decide_eq_false first

/-- How large a number is, by its digits behind the zeros. -/
theorem value_leading {digits : List (Fin 10)} (positive : value digits ≠ 0) :
    ∃ length, (digits.dropWhile (· = 0)).length = length + 1 ∧
      10 ^ length ≤ value digits ∧ value digits < 10 ^ (length + 1) := by
  have body := value_dropWhile digits
  cases same : digits.dropWhile (· = 0) with
  | nil =>
    rw [same] at body
    exact absurd body.symm positive
  | cons digit rest =>
    rw [← body, same]
    exact ⟨rest.length, List.length_cons, value_ge rest (dropWhile_leading same), value_lt _⟩

/-- Zeros at the end count for the places they take. -/
theorem value_rdropWhile (digits : List (Fin 10)) :
    value digits = value (digits.rdropWhile (· = 0)) *
      10 ^ (digits.length - (digits.rdropWhile (· = 0)).length) := by
  induction digits using List.reverseRecOn with
  | nil => rfl
  | append_singleton front digit ih =>
    by_cases zero : digit = 0
    · have short : (front.rdropWhile (· = 0)).length ≤ front.length :=
        (List.rdropWhile_prefix _ _).length_le
      rw [List.rdropWhile_concat_pos _ _ _ (by simpa using zero), value_append, value_single, zero, ih,
        List.length_append, List.length_singleton, Nat.sub_add_comm short]
      exact (mul_assoc _ _ _).trans (congrArg (value _ * ·) (pow_succ 10 _).symm)
    · rw [List.rdropWhile_concat_neg _ _ _ (by simpa using zero), Nat.sub_self, pow_zero, mul_one]

/-- The digits without the zeros at both ends. -/
def significant (digits : List (Fin 10)) : List (Fin 10) :=
  (digits.dropWhile (· = 0)).rdropWhile (· = 0)

theorem significant_length (digits : List (Fin 10)) :
    (significant digits).length ≤ (digits.dropWhile (· = 0)).length :=
  (List.rdropWhile_prefix _ _).length_le

theorem value_significant (digits : List (Fin 10)) :
    value digits =
      value (significant digits) * 10 ^ ((digits.dropWhile (· = 0)).length - (significant digits).length) := by
  rw [← value_dropWhile digits, value_rdropWhile]
  rfl

theorem significant_ends {digits : List (Fin 10)} (positive : value digits ≠ 0) :
    (∃ digit ∈ (significant digits).head?, digit ≠ 0) ∧
      ∃ digit ∈ (significant digits).getLast?, digit ≠ 0 := by
  have body := value_dropWhile digits
  cases same : digits.dropWhile (· = 0) with
  | nil =>
    rw [same] at body
    exact absurd body.symm positive
  | cons digit rest =>
    have leading := dropWhile_leading same
    have filled : significant digits ≠ [] := by
      intro none
      rw [significant, same, List.rdropWhile_eq_nil_iff] at none
      exact leading (of_decide_eq_true (none digit List.mem_cons_self))
    obtain ⟨zeros, whole⟩ := List.rdropWhile_prefix (decide <| · = (0 : Fin 10)) (digits.dropWhile (· = 0))
    rw [same] at whole
    have first : (significant digits).head? = some digit := by
      rw [significant, same]
      cases front : (digit :: rest).rdropWhile (· = 0) with
      | nil => exact absurd (by rw [significant, same, front]) filled
      | cons found back =>
        rw [front] at whole
        cases whole
        rfl
    refine ⟨⟨digit, first, leading⟩, (significant digits).getLast filled,
      List.getLast?_eq_some_getLast filled, ?_⟩
    intro zero
    exact List.rdropWhile_last_not _ _ filled (decide_eq_true zero)

/-- Zeros around digits that begin and end with another one are found. -/
theorem significant_of {digits : List (Fin 10)} (first : ∃ digit ∈ digits.head?, digit ≠ 0)
    (last : ∃ digit ∈ digits.getLast?, digit ≠ 0) (front back : ℕ) :
    (List.replicate front 0 ++ (digits ++ List.replicate back 0)).takeWhile (· = 0) =
        List.replicate front 0 ∧
      significant (List.replicate front 0 ++ (digits ++ List.replicate back 0)) = digits := by
  obtain ⟨head, starts, leading⟩ := first
  obtain ⟨end', stops, closing⟩ := last
  have zeros : ∀ digit ∈ List.replicate front (0 : Fin 10), decide (digit = 0) = true :=
    fun digit among => decide_eq_true (List.eq_of_mem_replicate among)
  cases digits with
  | nil => cases starts
  | cons digit rest =>
    cases starts
    refine ⟨?_, ?_⟩
    · rw [List.takeWhile_append_of_pos zeros, List.cons_append,
        List.takeWhile_cons_of_neg (by simpa using leading), List.append_nil]
    · rw [significant, List.dropWhile_append_of_pos zeros, List.cons_append,
        List.dropWhile_cons_of_neg (by simpa using leading), ← List.cons_append]
      induction back with
      | zero =>
        rw [List.replicate_zero, List.append_nil, List.rdropWhile_eq_self_iff]
        intro filled
        rw [List.getLast?_eq_some_getLast filled] at stops
        cases stops
        simpa using closing
      | succ back ih =>
        rw [List.replicate_succ', ← List.append_assoc, List.rdropWhile_concat_pos _ _ _ (by simp), ih]

/-! ### The digits of a number -/

/-- The digits of a number; zero has one. -/
def digits (n : ℕ) : List (Fin 10) :=
  if n = 0 then [0] else (Nat.digits 10 n).reverse.map (Fin.ofNat 10)

theorem value_digits (n : ℕ) : value (digits n) = n := by
  unfold digits
  split
  · next zero => exact (value_single 0).trans zero.symm
  · have same : (Nat.digits 10 n).map (Fin.val ∘ Fin.ofNat 10) = Nat.digits 10 n := by
      conv_rhs => rw [← List.map_id (Nat.digits 10 n)]
      exact List.map_congr_left fun digit among =>
        Nat.mod_eq_of_lt (Nat.digits_lt_base (by decide) among)
    rw [value, ← List.map_reverse, List.reverse_reverse, List.map_map, same, Nat.ofDigits_digits]

theorem digits_ne_nil (n : ℕ) : digits n ≠ [] := by
  unfold digits
  split
  · exact List.cons_ne_nil _ _
  · next positive => simpa using Nat.digits_ne_nil_iff_ne_zero.mpr positive

end EvmBabble.Library.Decimal
