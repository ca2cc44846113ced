/-
Rounding to a binary floating-point format, to the nearest number and to the even one of two.

* `nearestEven` — the integer nearest to a rational.
* `Format.Holds`, `Format.rounded` — the numbers of a format, and the one that stands for a rational.
* `rounded_nearest` — no number of the format is nearer.
* `rounded_held` — the numbers of the format stand for themselves.
* `rounded_lt_iff`, `lt_rounded_iff` — what rounds to less, or to more, than a power of two.

Only magnitudes are rounded, and the exponents have no greatest one.
-/

import Mathlib.Algebra.Order.Field.Power
import Mathlib.Data.Int.Log
import Mathlib.Data.Rat.Floor
import Mathlib.Tactic.Linarith
import Mathlib.Tactic.FieldSimp
import Mathlib.Tactic.Positivity

namespace EvmBabble.Library

/-! ### The nearest integer -/

/-- The nearest integer, and the even one of two that are equally near. -/
def nearestEven (q : ℚ) : ℤ :=
  if q - ⌊q⌋ < 1 / 2 then ⌊q⌋
  else if 1 / 2 < q - ⌊q⌋ then ⌊q⌋ + 1
  else if ⌊q⌋ % 2 = 0 then ⌊q⌋ else ⌊q⌋ + 1

/-- The nearest integer is the one below or the one above. -/
theorem nearestEven_cases (q : ℚ) :
    nearestEven q = ⌊q⌋ ∧ q - ⌊q⌋ ≤ 1 / 2 ∨ nearestEven q = ⌊q⌋ + 1 ∧ 1 / 2 ≤ q - ⌊q⌋ := by
  unfold nearestEven
  split_ifs with below above even
  · exact .inl ⟨rfl, below.le⟩
  · exact .inr ⟨rfl, above.le⟩
  · exact .inl ⟨rfl, not_lt.mp above⟩
  · exact .inr ⟨rfl, not_lt.mp below⟩

/-- No integer is nearer. -/
theorem nearestEven_nearest (q : ℚ) (n : ℤ) : |(nearestEven q : ℚ) - q| ≤ |(n : ℚ) - q| := by
  have low := Int.floor_le q
  have high := Int.lt_floor_add_one q
  rcases le_or_gt n ⌊q⌋ with under | beyond
  · have under : (n : ℚ) ≤ ⌊q⌋ := by exact_mod_cast under
    rw [abs_of_nonpos (by linarith : (n : ℚ) - q ≤ 0)]
    rcases nearestEven_cases q with ⟨same, half⟩ | ⟨same, half⟩
    · rw [same, abs_of_nonpos (by linarith)]
      linarith
    · rw [same, Int.cast_add, Int.cast_one, abs_of_nonneg (by linarith)]
      linarith
  · have beyond : (⌊q⌋ : ℚ) + 1 ≤ n := by exact_mod_cast beyond
    rw [abs_of_nonneg (by linarith : (0 : ℚ) ≤ n - q)]
    rcases nearestEven_cases q with ⟨same, half⟩ | ⟨same, half⟩
    · rw [same, abs_of_nonpos (by linarith)]
      linarith
    · rw [same, Int.cast_add, Int.cast_one, abs_of_nonneg (by linarith)]
      linarith

theorem nearestEven_int (n : ℤ) : nearestEven (n : ℚ) = n := by
  have near := nearestEven_nearest (n : ℚ) n
  rw [sub_self, abs_zero] at near
  have same : (nearestEven (n : ℚ) : ℚ) - n = 0 := abs_eq_zero.mp (le_antisymm near (abs_nonneg _))
  exact_mod_cast sub_eq_zero.mp same

theorem nearestEven_nonneg {q : ℚ} (positive : 0 ≤ q) : 0 ≤ nearestEven q := by
  have low : 0 ≤ ⌊q⌋ := Int.floor_nonneg.mpr positive
  rcases nearestEven_cases q with ⟨same, -⟩ | ⟨same, -⟩ <;> omega

/-- Half a step below an even number goes up to it. -/
theorem nearestEven_lt_iff {n : ℤ} (even : n % 2 = 0) (q : ℚ) :
    nearestEven q < n ↔ q < n - 1 / 2 := by
  have low := Int.floor_le q
  have high := Int.lt_floor_add_one q
  rcases lt_trichotomy (⌊q⌋ + 1) n with below | same | above
  · have under : (⌊q⌋ : ℚ) + 1 + 1 ≤ n := by exact_mod_cast below
    refine iff_of_true ?_ (by linarith)
    rcases nearestEven_cases q with ⟨same, -⟩ | ⟨same, -⟩ <;> omega
  · have here : (n : ℚ) = ⌊q⌋ + 1 := by exact_mod_cast same.symm
    have odd : ¬ ⌊q⌋ % 2 = 0 := by omega
    unfold nearestEven
    split_ifs with below above
    · exact iff_of_true (by omega) (by linarith)
    · exact iff_of_false (by omega) (by linarith)
    · exact iff_of_false (by omega) (by linarith)
  · have beyond : (n : ℚ) ≤ ⌊q⌋ := by exact_mod_cast Int.lt_add_one_iff.mp above
    refine iff_of_false ?_ (by linarith)
    rcases nearestEven_cases q with ⟨same, -⟩ | ⟨same, -⟩ <;> omega

/-- Half a step above an even number goes down to it. -/
theorem lt_nearestEven_iff {n : ℤ} (even : n % 2 = 0) (q : ℚ) :
    n < nearestEven q ↔ n + 1 / 2 < q := by
  have low := Int.floor_le q
  have high := Int.lt_floor_add_one q
  rcases lt_trichotomy ⌊q⌋ n with below | same | above
  · have under : (⌊q⌋ : ℚ) + 1 ≤ n := by exact_mod_cast below
    refine iff_of_false ?_ (by linarith)
    rcases nearestEven_cases q with ⟨same, -⟩ | ⟨same, -⟩ <;> omega
  · have here : (n : ℚ) = ⌊q⌋ := by exact_mod_cast same.symm
    have even : ⌊q⌋ % 2 = 0 := by omega
    unfold nearestEven
    split_ifs with below above
    · exact iff_of_false (by omega) (by linarith)
    · exact iff_of_true (by omega) (by linarith)
    · exact iff_of_false (by omega) (by linarith)
  · have beyond : (n : ℚ) + 1 ≤ ⌊q⌋ := by exact_mod_cast above
    refine iff_of_true ?_ (by linarith)
    rcases nearestEven_cases q with ⟨same, -⟩ | ⟨same, -⟩ <;> omega

/-! ### A format -/

/-- How many binary digits a number has, and the least exponent of its last one. -/
structure Format where
  precision : ℕ
  least : ℤ
  room : 1 < precision

namespace Format

variable (F : Format)

/-- The numbers of the format. -/
def Holds (d : ℚ) : Prop :=
  ∃ (m : ℕ) (e : ℤ), m < 2 ^ F.precision ∧ F.least ≤ e ∧ d = m * 2 ^ e

/-- The exponent of the last digit that a number of this size keeps. -/
def place (q : ℚ) : ℤ := max (Int.log 2 q + 1 - F.precision) F.least

def rounded (q : ℚ) : ℚ := nearestEven (q / 2 ^ F.place q) * 2 ^ F.place q

end Format

variable {F : Format} {q d : ℚ}

theorem pow_split (e place : ℤ) : (2 : ℚ) ^ e = 2 ^ (e - place) * 2 ^ place := by
  rw [← zpow_add₀ two_ne_zero, sub_add_cancel]

theorem pow_halved (F : Format) : (2 : ℚ) ^ F.precision = 2 * 2 ^ (F.precision - 1) := by
  conv_lhs => rw [← Nat.sub_add_cancel F.room.le, pow_succ]
  ring

/-- Counted in steps of the last place, no integer is nearer. -/
theorem rounded_steps (q : ℚ) (n : ℤ) : |F.rounded q - q| ≤ |n * 2 ^ F.place q - q| := by
  have positive : (0 : ℚ) < 2 ^ F.place q := by positivity
  have scaled : ∀ x : ℚ, |x * 2 ^ F.place q - q| = |x - q / 2 ^ F.place q| * 2 ^ F.place q := by
    intro x
    rw [← abs_of_pos positive, ← abs_mul, abs_of_pos positive, sub_mul, div_mul_cancel₀ _ positive.ne']
  rw [Format.rounded, scaled, scaled]
  exact mul_le_mul_of_nonneg_right (nearestEven_nearest _ n) positive.le

/-- A number of the format is a whole number of steps, or it lies below the leading digit. -/
theorem holds_steps (held : F.Holds d) (positive : 0 < q) :
    (∃ n : ℤ, d = n * 2 ^ F.place q) ∨
      ∃ n : ℤ, d ≤ n * 2 ^ F.place q ∧ n * 2 ^ F.place q ≤ q := by
  obtain ⟨m, e, fits, deep, rfl⟩ := held
  rcases le_or_gt (F.place q) e with coarse | fine
  · left
    obtain ⟨k, same⟩ := Int.eq_ofNat_of_zero_le (sub_nonneg.mpr coarse)
    refine ⟨m * 2 ^ k, ?_⟩
    rw [pow_split e (F.place q), same, ← mul_assoc]
    push_cast
    rw [zpow_natCast]
  · right
    have leading : F.place q = Int.log 2 q + 1 - F.precision := by
      unfold Format.place at fine ⊢
      omega
    have room := F.room
    refine ⟨2 ^ (F.precision - 1), ?_, ?_⟩
    · have below : (m : ℚ) ≤ 2 ^ F.precision := by exact_mod_cast fits.le
      have halved : (2 : ℚ) ^ F.precision * 2 ^ e = 2 ^ (F.precision - 1) * 2 ^ (e + 1) := by
        rw [zpow_add_one₀ two_ne_zero, pow_halved F]
        ring
      calc (m : ℚ) * 2 ^ e ≤ 2 ^ F.precision * 2 ^ e := by gcongr
        _ = 2 ^ (F.precision - 1) * 2 ^ (e + 1) := halved
        _ ≤ 2 ^ (F.precision - 1) * 2 ^ F.place q := by
          gcongr
          · exact one_le_two
          · exact fine
        _ = ((2 ^ (F.precision - 1) : ℤ) : ℚ) * 2 ^ F.place q := by push_cast; rfl
    · have log : ((2 ^ (F.precision - 1) : ℤ) : ℚ) * 2 ^ F.place q = 2 ^ Int.log 2 q := by
        push_cast
        rw [← zpow_natCast, ← zpow_add₀ two_ne_zero, leading]
        congr 1
        omega
      rw [log]
      exact_mod_cast Int.zpow_log_le_self one_lt_two positive

/-- **No number of the format is nearer.** -/
theorem rounded_nearest (held : F.Holds d) (positive : 0 < q) : |F.rounded q - q| ≤ |d - q| := by
  rcases holds_steps held positive with ⟨n, rfl⟩ | ⟨n, below, under⟩
  · exact rounded_steps q n
  · apply (rounded_steps q n).trans
    rw [abs_of_nonpos (by linarith), abs_of_nonpos (by linarith)]
    linarith

/-- A number of the format stands for itself. -/
theorem rounded_held (held : F.Holds q) (positive : 0 < q) : F.rounded q = q := by
  have near := rounded_nearest held positive
  rw [sub_self, abs_zero] at near
  exact sub_eq_zero.mp (abs_eq_zero.mp (le_antisymm near (abs_nonneg _)))

/-- Rounding does not pass a number of the format. -/
theorem rounded_le (held : F.Holds d) (positive : 0 < q) (below : q ≤ d) : F.rounded q ≤ d := by
  have near := rounded_nearest held positive
  rw [abs_of_nonneg (by linarith : 0 ≤ d - q)] at near
  have := le_abs_self (F.rounded q - q)
  linarith

theorem le_rounded (held : F.Holds d) (positive : 0 < q) (above : d ≤ q) : d ≤ F.rounded q := by
  have near := rounded_nearest held positive
  rw [abs_of_nonpos (by linarith : d - q ≤ 0)] at near
  have := neg_le_abs (F.rounded q - q)
  linarith

theorem rounded_zero : F.rounded 0 = 0 := by
  rw [Format.rounded, zero_div, ← Int.cast_zero, nearestEven_int, Int.cast_zero, zero_mul]

/-! ### Powers of two -/

theorem holds_pow {k : ℤ} (deep : F.least ≤ k) : F.Holds (2 ^ k) :=
  ⟨1, k, Nat.one_lt_two_pow (Nat.ne_of_gt (Nat.lt_of_succ_lt F.room)), deep, by rw [Nat.cast_one, one_mul]⟩

/-- The last place of the numbers between two powers of two. -/
theorem place_eq {k : ℤ} (deep : F.least ≤ k + 1 - F.precision) (low : 2 ^ k ≤ q) (high : q < 2 ^ (k + 1)) :
    F.place q = k + 1 - F.precision := by
  have positive : (0 : ℚ) < q := lt_of_lt_of_le (by positivity) low
  have under : k ≤ Int.log 2 q :=
    (Int.zpow_le_iff_le_log one_lt_two positive).mp (by exact_mod_cast low)
  have beyond : Int.log 2 q < k + 1 :=
    (Int.lt_zpow_iff_log_lt one_lt_two positive).mp (by exact_mod_cast high)
  unfold Format.place
  omega

/-- Between two powers of two, a number is rounded by how many steps it holds. -/
theorem rounded_eq {k : ℤ} (deep : F.least ≤ k + 1 - F.precision) (low : 2 ^ k ≤ q) (high : q < 2 ^ (k + 1)) :
    F.rounded q = nearestEven (q / 2 ^ (k + 1 - F.precision)) * 2 ^ (k + 1 - F.precision) := by
  rw [Format.rounded, place_eq deep low high]

theorem even_pow {k : ℕ} (positive : 0 < k) : (2 : ℤ) ^ k % 2 = 0 := by
  obtain ⟨j, rfl⟩ := Nat.exists_eq_add_one.mpr positive
  rw [pow_succ, Int.mul_emod_left]

/-- **What rounds to less than a power of two** stays half a step below it. -/
theorem rounded_lt_iff {k : ℤ} (deep : F.least ≤ k - F.precision) (positive : 0 < q) :
    F.rounded q < 2 ^ k ↔ q < 2 ^ k - 2 ^ (k - F.precision - 1) := by
  have room := F.room
  have doubled : (2 : ℚ) ^ k = 2 * 2 ^ (k - 1) := by rw [← zpow_one_add₀ two_ne_zero]; congr 1; omega
  have half : (0 : ℚ) < 2 ^ (k - F.precision - 1) := by positivity
  rcases lt_or_ge q (2 ^ (k - 1)) with small | low
  · have under : F.rounded q ≤ 2 ^ (k - 1) := rounded_le (holds_pow (by omega)) positive small.le
    have part : (2 : ℚ) ^ (k - F.precision - 1) ≤ 2 ^ (k - 1) := by
      gcongr
      · exact one_le_two
      · omega
    exact iff_of_true (by linarith) (by linarith)
  rcases lt_or_ge q (2 ^ k) with high | large
  · have step : (0 : ℚ) < 2 ^ (k - F.precision) := by positivity
    have whole : (2 : ℚ) ^ k = ((2 ^ F.precision : ℤ) : ℚ) * 2 ^ (k - F.precision) := by
      push_cast
      rw [← zpow_natCast, ← zpow_add₀ two_ne_zero]
      congr 1
      omega
    have halved : (2 : ℚ) ^ (k - F.precision - 1) = 1 / 2 * 2 ^ (k - F.precision) := by
      rw [zpow_sub_one₀ two_ne_zero]
      ring
    have rounded := rounded_eq (F := F) (k := k - 1) (by omega) low (by rwa [sub_add_cancel])
    rw [sub_add_cancel] at rounded
    rw [rounded, whole, halved, mul_lt_mul_iff_left₀ step, Int.cast_lt,
      nearestEven_lt_iff (even_pow (Nat.lt_of_succ_lt room)), ← sub_mul, div_lt_iff₀ step]
  · have beyond : 2 ^ k ≤ F.rounded q := le_rounded (holds_pow (by omega)) positive large
    exact iff_of_false (by linarith) (by linarith)

/-- **What rounds to more than a power of two** lies more than half a step above it. -/
theorem lt_rounded_iff {k : ℤ} (deep : F.least ≤ k + 1 - F.precision) (positive : 0 < q) :
    2 ^ k < F.rounded q ↔ 2 ^ k + 2 ^ (k - F.precision) < q := by
  have room := F.room
  have doubled : (2 : ℚ) ^ (k + 1) = 2 * 2 ^ k := by rw [zpow_add_one₀ two_ne_zero]; ring
  have half : (0 : ℚ) < 2 ^ (k - F.precision) := by positivity
  rcases lt_or_ge q (2 ^ k) with small | low
  · have under : F.rounded q ≤ 2 ^ k := rounded_le (holds_pow (by omega)) positive small.le
    exact iff_of_false (by linarith) (by linarith)
  rcases lt_or_ge q (2 ^ (k + 1)) with high | large
  · have step : (0 : ℚ) < 2 ^ (k + 1 - F.precision) := by positivity
    have whole : (2 : ℚ) ^ k = ((2 ^ (F.precision - 1) : ℤ) : ℚ) * 2 ^ (k + 1 - F.precision) := by
      push_cast
      rw [← zpow_natCast, ← zpow_add₀ two_ne_zero]
      congr 1
      omega
    have halved : (2 : ℚ) ^ (k - F.precision) = 1 / 2 * 2 ^ (k + 1 - F.precision) := by
      rw [add_sub_right_comm, zpow_add_one₀ two_ne_zero]
      ring
    rw [rounded_eq deep low high, whole, halved, mul_lt_mul_iff_left₀ step, Int.cast_lt,
      lt_nearestEven_iff (even_pow (by omega)), ← add_mul, lt_div_iff₀ step]
  · have beyond : 2 ^ (k + 1) ≤ F.rounded q := le_rounded (holds_pow (by omega)) positive large
    have part : (2 : ℚ) ^ (k - F.precision) < 2 ^ k := by
      gcongr
      · exact one_lt_two
      · omega
    have positive : (0 : ℚ) < 2 ^ k := by positivity
    exact iff_of_true (by linarith) (by linarith)

/-! ### What is rounded to -/

/-- Rounding ends in the format. -/
theorem holds_rounded (positive : 0 < q) : F.Holds (F.rounded q) := by
  have step : (0 : ℚ) < 2 ^ F.place q := by positivity
  obtain ⟨n, same⟩ := Int.eq_ofNat_of_zero_le (nearestEven_nonneg (div_pos positive step).le)
  have deep : F.least ≤ F.place q := le_max_right _ _
  have under : n ≤ 2 ^ F.precision := by
    have size : q / 2 ^ F.place q < ((2 ^ F.precision : ℤ) : ℚ) := by
      have covered : Int.log 2 q + 1 ≤ F.precision + F.place q := by
        unfold Format.place
        omega
      have room : ((2 ^ F.precision : ℤ) : ℚ) * 2 ^ F.place q = 2 ^ (F.precision + F.place q) := by
        push_cast
        rw [zpow_add₀ two_ne_zero, zpow_natCast]
      rw [div_lt_iff₀ step, room]
      have below := (Int.lt_zpow_iff_log_lt one_lt_two positive).mpr (Int.lt_of_lt_of_le (Int.lt_succ _) covered)
      exact_mod_cast below
    have floor := Int.floor_lt.mpr size
    have fits : (n : ℤ) ≤ 2 ^ F.precision := by
      rcases nearestEven_cases (q / 2 ^ F.place q) with ⟨low, -⟩ | ⟨low, -⟩ <;> omega
    exact_mod_cast fits
  have value : F.rounded q = n * 2 ^ F.place q := by
    rw [Format.rounded, same]
    rfl
  rcases under.lt_or_eq with fits | full
  · exact ⟨n, F.place q, fits, deep, value⟩
  · refine ⟨2 ^ (F.precision - 1), F.place q + 1, ?_, by omega, ?_⟩
    · exact Nat.pow_lt_pow_right one_lt_two (Nat.sub_lt (Nat.lt_of_succ_lt F.room) one_pos)
    · rw [value, full, zpow_add_one₀ two_ne_zero]
      push_cast
      rw [pow_halved F]
      ring

end EvmBabble.Library
