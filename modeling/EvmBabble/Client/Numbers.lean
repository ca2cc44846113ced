/-
What `json-bigint.js` reads of a numeral.

* `parse_number` — **what a numeral is read as**: a `BigNumber` is exact, a number is the nearest one, and
  of the integers only one is read as another.
* `goNumeral` — the integers as the API writes them, and what they are read as.
-/

import EvmBabble.Client.Stringify

namespace EvmBabble.JsonBig

open Library

/-! ### Numbers -/

/-- The value that a numeral writes. -/
def Numeral.value (n : Numeral) : ℚ := signed n.negative n.magnitude

/-- What a number stands for. -/
def JsNumber.value : JsNumber → Option ℚ
  | .number q => some q
  | .big b => b.value

theorem holds_nat {k : ℕ} (small : k ≤ 9007199254740992) : binary64.Holds k := by
  rcases small.lt_or_eq with less | same
  · exact ⟨k, 0, less, by decide, by rw [zpow_zero, mul_one]⟩
  · exact ⟨1, 53, by decide, by decide, by rw [same]; norm_num⟩

theorem rounded_nat {k : ℕ} (small : k ≤ 9007199254740992) : binary64.rounded k = k := by
  rcases Nat.eq_zero_or_pos k with rfl | positive
  · exact_mod_cast rounded_zero
  · exact rounded_held (holds_nat small) (by exact_mod_cast positive)

theorem rounded_between : binary64.rounded 9007199254740993 = 9007199254740992 := by
  decide +kernel

/-- A numeral of an integer is read exactly, apart from one size. -/
theorem read_nat {n : Numeral} (valid : n.Valid) {k : ℕ} (same : n.magnitude = k)
    (fits : n.magnitude < 2 ^ 1024 - 2 ^ 970) :
    ∃ x, n.read = some x ∧
      (k ≠ 9007199254740993 → x.value = some n.value) ∧
      (k = 9007199254740993 → x = .number (signed n.negative 9007199254740992)) := by
  have accepted : ¬ (¬ n.Valid ∨ 2 ^ 1024 - 2 ^ 970 ≤ n.magnitude) := by
    rw [not_or, not_not, not_le]
    exact ⟨valid, fits⟩
  by_cases large : 9007199254740993 < n.magnitude
  · have read : n.read = some (.big n.bigNumber) := by rw [read_eq, if_neg accepted, if_pos large]
    obtain ⟨canonical, -⟩ := read_read read
    refine ⟨_, read, fun _ => bigNumber_value canonical, ?_⟩
    rintro rfl
    rw [same] at large
    exact absurd large (by norm_num)
  · refine ⟨_, by rw [read_eq, if_neg accepted, if_neg large], ?_, ?_⟩
    · intro other
      have small : k ≤ 9007199254740992 := by
        rw [same, not_lt] at large
        have bound : k ≤ 9007199254740993 := by exact_mod_cast large
        omega
      show some (signed n.negative (binary64.rounded n.magnitude)) = _
      rw [same, rounded_nat small, Numeral.value, same]
    · rintro rfl
      rw [same]
      exact congrArg (fun q => JsNumber.number (signed n.negative q)) (by exact_mod_cast rounded_between)

/-- Which numerals of integers are read exactly. -/
theorem read_exact_iff {n : Numeral} (valid : n.Valid) {k : ℕ} (same : n.magnitude = k)
    (fits : n.magnitude < 2 ^ 1024 - 2 ^ 970) :
    ∃ x, n.read = some x ∧ (x.value = some n.value ↔ k ≠ 9007199254740993) := by
  obtain ⟨x, read, others, one⟩ := read_nat valid same fits
  refine ⟨x, read, ?_, others⟩
  rintro found rfl
  rw [one rfl, Numeral.value, same] at found
  have sizes := congrArg abs (Option.some.inj found)
  rw [abs_signed (by norm_num), abs_signed (Nat.cast_nonneg _)] at sizes
  norm_num at sizes

theorem white_blank : White [unit ' '] := by
  intro c among
  cases List.mem_singleton.mp among
  exact UInt16.le_refl _

/-- A text that is one numeral. -/
theorem parse_numeral {n : Numeral} (begins : n.Begins) :
    json_parse n.text =
      match n.read with
      | some x => .ok (.number x)
      | none => .error (.error ⟨units "Bad number", n.text.length + 1⟩) := by
  cases read : n.read with
  | some x =>
    exact spells_parse ⟨[], n.text, [], white_nil, .number begins read, white_nil, (List.append_nil _).symm⟩
  | none =>
    obtain ⟨c, rest, same, starts⟩ := numeral_opens begins
    have scanned : Scan.numeral ⟨1, n.text ++ []⟩ = _ := numeral_scans starts_nil 1 n
    rw [List.append_nil] at scanned
    have skips : Scan.white ⟨0, unit ' ' :: n.text⟩ = ⟨1, n.text⟩ := by
      rw [same]
      exact white_scans white_blank (starts_cons (opens_numeral starts).1) 0
    have number : Scan.number ⟨1, n.text⟩ = .error (.error ⟨units "Bad number", n.text.length + 1⟩) := by
      rw [Scan.number, scanned, read, Nat.add_comm]
      rfl
    rw [json_parse, value, skips, same, dispatch_number _ starts, ← same, number]
    rfl

/-- **What a text that is one numeral is read as.** A `BigNumber` is exact and a number is a nearest one; of
the integers only that of size 9007199254740993 is read as another. -/
theorem parse_number {n : Numeral} (begins : n.Begins) :
    (n.Valid ∧ n.magnitude < 2 ^ 1024 - 2 ^ 970 →
      ∃ x, json_parse n.text = .ok (.number x) ∧
        (9007199254740993 < n.magnitude → ∃ b, x = .big b ∧ b.value = some n.value) ∧
        (n.magnitude ≤ 9007199254740993 → ∃ d, x = .number (signed n.negative d) ∧ binary64.Holds d ∧
          ∀ other, binary64.Holds other → |d - n.magnitude| ≤ |other - n.magnitude|) ∧
        ∀ k : ℕ, n.magnitude = k → (x.value = some n.value ↔ k ≠ 9007199254740993)) ∧
    (¬ (n.Valid ∧ n.magnitude < 2 ^ 1024 - 2 ^ 970) →
      json_parse n.text = .error (.error ⟨units "Bad number", n.text.length + 1⟩)) := by
  have positive := magnitude_nonneg n
  constructor
  · rintro ⟨valid, fits⟩
    have accepted : ¬ (¬ n.Valid ∨ 2 ^ 1024 - 2 ^ 970 ≤ n.magnitude) := by
      rw [not_or, not_not, not_le]
      exact ⟨valid, fits⟩
    have exact_iff : ∀ x, n.read = some x → ∀ k : ℕ, n.magnitude = k →
        (x.value = some n.value ↔ k ≠ 9007199254740993) := by
      intro x read k same
      obtain ⟨x', read', one⟩ := read_exact_iff valid same fits
      cases read.symm.trans read'
      exact one
    by_cases large : 9007199254740993 < n.magnitude
    · have read : n.read = some (.big n.bigNumber) := by rw [read_eq, if_neg accepted, if_pos large]
      refine ⟨_, by rw [parse_numeral begins, read], fun _ => ⟨_, rfl, bigNumber_value (read_read read).1⟩,
        fun small => absurd large (not_lt.mpr small), exact_iff _ read⟩
    · have read : n.read = some (.number (signed n.negative (binary64.rounded n.magnitude))) := by
        rw [read_eq, if_neg accepted, if_neg large]
      refine ⟨_, by rw [parse_numeral begins, read], fun above => absurd above large,
        fun _ => ⟨_, rfl, ?_⟩, exact_iff _ read⟩
      rcases positive.eq_or_lt with zero | positive
      · rw [← zero, rounded_zero]
        exact ⟨holds_zero, fun other _ => by rw [sub_self, abs_zero]; exact abs_nonneg _⟩
      · exact ⟨holds_rounded positive, fun other held => rounded_nearest held positive⟩
  · intro refused
    have none : n.read = none := by
      rw [read_eq, if_pos]
      by_contra accepted
      rw [not_or, not_not, not_le] at accepted
      exact refused accepted
    rw [parse_numeral begins, none]

/-! ### Integers of the API -/

/-- An integer, as `big.Int` and `strconv` write it. -/
def goNumeral (n : ℤ) : Numeral := ⟨decide (n < 0), Decimal.digits n.natAbs, none, none⟩

theorem goNumeral_begins (n : ℤ) : (goNumeral n).Begins := .inr (Decimal.digits_ne_nil _)

theorem goNumeral_valid (n : ℤ) : (goNumeral n).Valid :=
  ⟨fun none => Decimal.digits_ne_nil _ (List.append_eq_nil_iff.mp none).1, fun exponent found => by cases found⟩

theorem goNumeral_magnitude (n : ℤ) : (goNumeral n).magnitude = (n.natAbs : ℕ) := by
  have digits : (goNumeral n).digits = Decimal.digits n.natAbs := List.append_nil _
  rw [Numeral.magnitude, digits, Decimal.value_digits]
  exact mul_one _

theorem goNumeral_value (n : ℤ) : (goNumeral n).value = (n : ℚ) := by
  rw [Numeral.value, goNumeral_magnitude]
  rw [Nat.cast_natAbs]
  show (if decide (n < 0) = true then -((|n| : ℤ) : ℚ) else ((|n| : ℤ) : ℚ)) = n
  split
  · next minus => rw [abs_of_neg (of_decide_eq_true minus), Int.cast_neg, neg_neg]
  · next plus => rw [abs_of_nonneg (not_lt.mp fun minus => plus (decide_eq_true minus))]

/-- An integer that is not too large to be a number at all. -/
def Sized (n : ℤ) : Prop := ((n.natAbs : ℕ) : ℚ) < 2 ^ 1024 - 2 ^ 970

theorem sized_of_lt {n : ℤ} (small : n.natAbs < 2 ^ 64) : Sized n := by
  have wide : (2 : ℚ) ^ 64 + 2 ^ 970 ≤ 2 ^ 1024 := by
    exact_mod_cast (by decide +kernel : (2 : ℕ) ^ 64 + 2 ^ 970 ≤ 2 ^ 1024)
  have bound : (n.natAbs : ℚ) < 2 ^ 64 := by exact_mod_cast small
  exact lt_of_lt_of_le bound (le_sub_iff_add_le.mpr wide)

theorem goNumeral_read {n : ℤ} (sized : Sized n) :
    ∃ x, (goNumeral n).read = some x ∧ (x.value = some (n : ℚ) ↔ n.natAbs ≠ 9007199254740993) := by
  have fits : (goNumeral n).magnitude < 2 ^ 1024 - 2 ^ 970 := by
    rw [goNumeral_magnitude]
    exact sized
  have exact_iff := read_exact_iff (goNumeral_valid n) (goNumeral_magnitude n) fits
  rwa [goNumeral_value] at exact_iff

namespace Sample

/-- An integer that no number is. -/
theorem parse_number_between :
    ∃ x, json_parse (goNumeral 9007199254740993).text = .ok (.number x) ∧
      ¬ x.value = some (goNumeral 9007199254740993).value := by
  have fits : (goNumeral 9007199254740993).Valid ∧ (goNumeral 9007199254740993).magnitude < 2 ^ 1024 - 2 ^ 970 := by
    refine ⟨goNumeral_valid _, ?_⟩
    rw [goNumeral_magnitude]
    exact sized_of_lt (by decide)
  obtain ⟨x, read, -, -, exact_iff⟩ := (parse_number (goNumeral_begins 9007199254740993)).1 fits
  exact ⟨x, read, fun same => (exact_iff 9007199254740993 (goNumeral_magnitude _)).mp same rfl⟩

end Sample

end EvmBabble.JsonBig
