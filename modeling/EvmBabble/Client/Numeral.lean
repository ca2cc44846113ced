/-
The numbers of `public/javascripts/json-bigint.js`: what `number` of `json_parse` scans and reads, and the
constructor and `toString` of `BigNumber`.

A string is the list of its code units. Of a number, the sign of zero is not kept.

* `Scan.numeral`, `numeral_reads`, `numeral_scans` — a numeral is scanned as far as it goes.
* `Numeral.number` — `+string`: the nearest number of 64 bits.
* `bigNumber_value` — a `BigNumber` has the value that its numeral writes.
* `read_eq` — which numerals become a `BigNumber`, and which are refused.
* `numeral_bigNumber`, `toText_read` — what `toString` of a `BigNumber` writes is read back.
-/

import EvmBabble.Library.Decimal
import EvmBabble.Library.Rounding

namespace EvmBabble.JsonBig

open Library

/-! ### Text -/

/-- A string, as its code units. -/
abbrev Text := List UInt16

/-- The code unit of a character. -/
def unit (c : Char) : UInt16 := c.val.toUInt16

def units (s : String) : Text := s.toList.map unit

/-- `at` and `ch`: the current character is the first one that is left, and there is none at the end. -/
structure Scan where
  index : Nat
  left : Text

def Scan.ch (s : Scan) : Option UInt16 := s.left.head?

/-- `next` without a character. -/
def Scan.next (s : Scan) : Scan := ⟨s.index + 1, s.left.tail⟩

/-! ### Numerals -/

def digitUnit (digit : Fin 10) : UInt16 := unit '0' + UInt16.ofNat digit

/-- `ch >= '0' && ch <= '9'`. -/
def digitOf (c : UInt16) : Option (Fin 10) :=
  if unit '0' ≤ c ∧ c ≤ unit '9' then some (Fin.ofNat 10 (c - unit '0').toNat) else none

inductive Sign
  | unsigned
  | plus
  | minus
deriving DecidableEq

/-- What follows an `e`, or an `E`. -/
structure Exponent where
  capital : Bool
  sign : Sign
  digits : List (Fin 10)
deriving DecidableEq

/-- What `number` collects in `string`, in its parts. -/
structure Numeral where
  negative : Bool
  whole : List (Fin 10)
  fraction : Option (List (Fin 10))
  exponent : Option Exponent
deriving DecidableEq

def Sign.text : Sign → Text
  | .unsigned => []
  | .plus => [unit '+']
  | .minus => [unit '-']

def Exponent.text (exponent : Exponent) : Text :=
  unit (if exponent.capital then 'E' else 'e') :: exponent.sign.text ++ exponent.digits.map digitUnit

def minusText (negative : Bool) : Text := if negative then [unit '-'] else []

def fractionText : Option (List (Fin 10)) → Text
  | none => []
  | some digits => unit '.' :: digits.map digitUnit

def exponentText : Option Exponent → Text
  | none => []
  | some exponent => exponent.text

def Numeral.text (n : Numeral) : Text :=
  minusText n.negative ++ (n.whole.map digitUnit ++ (fractionText n.fraction ++ exponentText n.exponent))

/-! ### Scanning -/

def digitsFrom (index : Nat) : Text → List (Fin 10) × Scan
  | [] => ([], ⟨index, []⟩)
  | c :: rest =>
    match digitOf c with
    | none => ([], ⟨index, c :: rest⟩)
    | some digit => (digit :: (digitsFrom (index + 1) rest).1, (digitsFrom (index + 1) rest).2)

/-- `while (ch >= '0' && ch <= '9')`. -/
def Scan.digits (s : Scan) : List (Fin 10) × Scan := digitsFrom s.index s.left

def Scan.minus (s : Scan) : Bool × Scan :=
  if s.ch = some (unit '-') then (true, s.next) else (false, s)

def Scan.fraction (s : Scan) : Option (List (Fin 10)) × Scan :=
  if s.ch = some (unit '.') then (some s.next.digits.1, s.next.digits.2) else (none, s)

def Scan.sign (s : Scan) : Sign × Scan :=
  if s.ch = some (unit '-') then (.minus, s.next)
  else if s.ch = some (unit '+') then (.plus, s.next)
  else (.unsigned, s)

def Scan.exponent (s : Scan) : Option Exponent × Scan :=
  if s.ch = some (unit 'e') ∨ s.ch = some (unit 'E') then
    let sign := s.next.sign
    (some ⟨decide (s.ch = some (unit 'E')), sign.1, sign.2.digits.1⟩, sign.2.digits.2)
  else (none, s)

/-- The part of `number` that collects `string`. -/
def Scan.numeral (s : Scan) : Numeral × Scan :=
  let minus := s.minus
  let whole := minus.2.digits
  let fraction := whole.2.fraction
  let exponent := fraction.2.exponent
  (⟨minus.1, whole.1, fraction.1, exponent.1⟩, exponent.2)

/-! ### Values -/

/-- `isValid`: there is a digit, and an exponent has one. -/
def Numeral.Valid (n : Numeral) : Prop :=
  n.whole ++ n.fraction.getD [] ≠ [] ∧ ∀ exponent ∈ n.exponent, exponent.digits ≠ []

instance (n : Numeral) : Decidable n.Valid :=
  inferInstanceAs (Decidable (_ ∧ ∀ exponent ∈ n.exponent, exponent.digits ≠ []))

def Exponent.value (exponent : Exponent) : ℤ :=
  match exponent.sign with
  | .minus => -Decimal.value exponent.digits
  | _ => Decimal.value exponent.digits

/-- What `+n.slice(i + 1)` gives behind the `e`, and zero without one. -/
def Numeral.power (n : Numeral) : ℤ := (n.exponent.map Exponent.value).getD 0

/-- The digits, with the point taken out. -/
def Numeral.digits (n : Numeral) : List (Fin 10) := n.whole ++ n.fraction.getD []

/-- The size that a numeral writes. -/
def Numeral.magnitude (n : Numeral) : ℚ :=
  Decimal.value n.digits * 10 ^ (n.power - (n.fraction.getD []).length)

def signed (negative : Bool) (q : ℚ) : ℚ := if negative then -q else q

/-- The numbers of 64 bits. -/
def binary64 : Format := ⟨53, -1074, by decide⟩

/-- `+string`, when it is finite. -/
def Numeral.number (n : Numeral) : Option ℚ :=
  if n.Valid ∧ binary64.rounded n.magnitude < 2 ^ 1024 then
    some (signed n.negative (binary64.rounded n.magnitude))
  else none

/-- A `BigNumber`: sign, exponent and coefficient; an infinite one has only a sign. -/
inductive BigNumber
  | infinite (negative : Bool)
  | finite (negative : Bool) (e : ℤ) (c : List (Fin 10))
deriving DecidableEq

def MAX_EXP : ℤ := 1000000000

def MIN_EXP : ℤ := -1000000000

/-- `e`, which counts from the first digit that is not zero. -/
def Numeral.leadingExponent (n : Numeral) : ℤ :=
  n.whole.length + n.power - ((n.digits.takeWhile (· = 0)).length + 1)

/-- The constructor `BigNumber`, on a string that `isValid` accepts. -/
def Numeral.bigNumber (n : Numeral) : BigNumber :=
  if MAX_EXP < n.leadingExponent then .infinite n.negative
  else if (n.digits.takeWhile (· = 0)).length = n.digits.length ∨ n.leadingExponent < MIN_EXP then
    .finite n.negative 0 [0]
  else .finite n.negative n.leadingExponent (Decimal.significant n.digits)

/-- What a `BigNumber` stands for. -/
def BigNumber.value : BigNumber → Option ℚ
  | .infinite _ => none
  | .finite negative e c => some (signed negative (Decimal.value c * 10 ^ (e + 1 - c.length)))

def TO_EXP_NEG : ℤ := -7

def TO_EXP_POS : ℤ := 21

/-- The numeral that `toString` (without a base) and `format` write of a finite `BigNumber`. -/
def BigNumber.numeral (negative : Bool) (e : ℤ) (c : List (Fin 10)) : Numeral :=
  if e ≤ TO_EXP_NEG ∨ TO_EXP_POS ≤ e then
    ⟨negative && c.head? ≠ some 0, c.take 1, if 1 < c.length then some (c.drop 1) else none,
      some ⟨false, if e < 0 then .minus else .plus, Decimal.digits e.natAbs⟩⟩
  else if e < 0 then ⟨negative, [0], some (List.replicate (-e - 1).toNat 0 ++ c), none⟩
  else if 0 < e then
    if c.length < e + 1 then ⟨negative, c ++ List.replicate (e + 1 - c.length).toNat 0, none, none⟩
    else if e + 1 < c.length then
      ⟨negative, c.take (e + 1).toNat, some (c.drop (e + 1).toNat), none⟩
    else ⟨negative, c, none, none⟩
  else if 1 < c.length then ⟨negative, c.take 1, some (c.drop 1), none⟩
  else ⟨negative && c.head? ≠ some 0, c, none, none⟩

/-- `toString`, without a base. -/
def BigNumber.toText : BigNumber → Text
  | .infinite negative => minusText negative ++ units "Infinity"
  | .finite negative e c => (BigNumber.numeral negative e c).text

/-- A number, or a `BigNumber`. -/
inductive JsNumber
  | number (q : ℚ)
  | big (b : BigNumber)
deriving DecidableEq

/-- What `number` returns for a numeral; a number that is not finite is refused. -/
def Numeral.read (n : Numeral) : Option JsNumber :=
  n.number.map fun q =>
    if 9007199254740992 < q ∨ q < -9007199254740992 then .big n.bigNumber else .number q

/-! ### What is scanned -/

/-- A part of the text was passed over. -/
def Scan.Reads (s : Scan) (text : Text) (after : Scan) : Prop :=
  s.left = text ++ after.left ∧ after.index = s.index + text.length

theorem Scan.Reads.refl (s : Scan) : s.Reads [] s := ⟨rfl, rfl⟩

theorem Scan.Reads.append {s between after : Scan} {front back : Text} (first : s.Reads front between)
    (second : between.Reads back after) : s.Reads (front ++ back) after := by
  refine ⟨?_, ?_⟩
  · rw [first.1, second.1, List.append_assoc]
  · rw [second.2, first.2, List.length_append, Nat.add_assoc]

theorem Scan.Reads.eq {index : Nat} {text rest : Text} {after : Scan}
    (reads : Scan.Reads ⟨index, text ++ rest⟩ text after) : after = ⟨index + text.length, rest⟩ := by
  obtain ⟨position, left⟩ := after
  cases List.append_cancel_left reads.1
  exact congrArg (Scan.mk · left) reads.2

theorem reads_next {s : Scan} {c : UInt16} (here : s.ch = some c) : s.Reads [c] s.next := by
  obtain ⟨index, left⟩ := s
  cases left with
  | nil => cases here
  | cons first rest =>
    cases here
    exact ⟨rfl, rfl⟩

theorem digitOf_digitUnit (digit : Fin 10) : digitOf (digitUnit digit) = some digit := by
  revert digit
  decide

theorem digitUnit_of {c : UInt16} {digit : Fin 10} (read : digitOf c = some digit) :
    c = digitUnit digit := by
  unfold digitOf at read
  split at read
  · next within =>
    have low : 48 ≤ c.toNat := UInt16.le_iff_toNat_le.mp within.1
    have high : c.toNat ≤ 57 := UInt16.le_iff_toNat_le.mp within.2
    have shift : (c - unit '0').toNat = c.toNat - 48 := UInt16.toNat_sub_of_le _ _ within.1
    cases read
    apply UInt16.toNat_inj.mp
    have small : (c.toNat - 48) % 10 = c.toNat - 48 := Nat.mod_eq_of_lt (by omega)
    have zero : (unit '0').toNat = 48 := rfl
    show c.toNat = (unit '0' + UInt16.ofNat ((c - unit '0').toNat % 10)).toNat
    rw [shift, small, UInt16.toNat_add, UInt16.toNat_ofNat', zero]
    omega
  · cases read

theorem reads_digitsFrom (index : Nat) (left : Text) :
    Scan.Reads ⟨index, left⟩ ((digitsFrom index left).1.map digitUnit) (digitsFrom index left).2 := by
  induction left generalizing index with
  | nil => exact .refl _
  | cons c rest ih =>
    unfold digitsFrom
    split
    · exact .refl _
    · next digit read =>
      rw [digitUnit_of read]
      exact (reads_next (s := ⟨index, digitUnit digit :: rest⟩) rfl).append (ih (index + 1))

theorem reads_digits (s : Scan) : s.Reads (s.digits.1.map digitUnit) s.digits.2 :=
  reads_digitsFrom s.index s.left

theorem reads_minus (s : Scan) : s.Reads (minusText s.minus.1) s.minus.2 := by
  unfold Scan.minus
  split
  · next here => exact reads_next here
  · exact .refl s

theorem reads_fraction (s : Scan) : s.Reads (fractionText s.fraction.1) s.fraction.2 := by
  unfold Scan.fraction
  split
  · next here => exact (reads_next here).append (reads_digits s.next)
  · exact .refl s

theorem reads_sign (s : Scan) : s.Reads s.sign.1.text s.sign.2 := by
  unfold Scan.sign
  split
  · next here => exact reads_next here
  · split
    · next here => exact reads_next here
    · exact .refl s

theorem reads_exponent (s : Scan) : s.Reads (exponentText s.exponent.1) s.exponent.2 := by
  unfold Scan.exponent
  split
  · next here =>
    have mark : s.ch = some (unit (if decide (s.ch = some (unit 'E')) then 'E' else 'e')) := by
      rcases here with small | capital
      · rw [small]
        rfl
      · rw [capital]
        rfl
    exact (reads_next mark).append ((reads_sign s.next).append (reads_digits s.next.sign.2))
  · exact .refl s

/-- A numeral is a part of the text. -/
theorem numeral_reads (s : Scan) : s.Reads s.numeral.1.text s.numeral.2 :=
  (reads_minus s).append ((reads_digits _).append ((reads_fraction _).append (reads_exponent _)))

/-! ### As far as it goes -/

/-- What a text begins with, if it is not empty. -/
def Starts (p : UInt16 → Prop) (text : Text) : Prop := ∀ c ∈ text.head?, p c

theorem starts_append {p : UInt16 → Prop} {front back : Text} (first : Starts p front)
    (second : Starts p back) : Starts p (front ++ back) := by
  cases front with
  | nil => exact second
  | cons c rest => exact first

theorem starts_digits {p : UInt16 → Prop} (each : ∀ digit, p (digitUnit digit)) (digits : List (Fin 10)) :
    Starts p (digits.map digitUnit) := by
  intro c first
  rw [List.head?_map] at first
  obtain ⟨digit, -, rfl⟩ := Option.map_eq_some_iff.mp first
  exact each digit

/-- A numeral does not go on with this. -/
def Beyond (c : UInt16) : Prop :=
  digitOf c = none ∧ c ≠ unit '.' ∧ c ≠ unit 'e' ∧ c ≠ unit 'E' ∧ c ≠ unit '+' ∧ c ≠ unit '-'

/-- What is scanned of a text says where the scan ends. -/
theorem scans_of {α : Type} {index : Nat} {text rest : Text} {scanned : α × Scan} {result : α}
    (same : scanned.1 = result) (reads : Scan.Reads ⟨index, text ++ rest⟩ text scanned.2) :
    scanned = (result, ⟨index + text.length, rest⟩) :=
  Prod.ext same reads.eq

theorem digits_scans {rest : Text} (ends : Starts (digitOf · = none) rest) (index : Nat)
    (digits : List (Fin 10)) :
    Scan.digits ⟨index, digits.map digitUnit ++ rest⟩ =
      (digits, ⟨index + (digits.map digitUnit).length, rest⟩) := by
  have same : ∀ index, (digitsFrom index (digits.map digitUnit ++ rest)).1 = digits := by
    induction digits with
    | nil =>
      intro index
      cases rest with
      | nil => rfl
      | cons c rest =>
        show (digitsFrom index (c :: rest)).1 = []
        rw [digitsFrom, ends c rfl]
    | cons digit digits ih =>
      intro index
      show (digitsFrom index (digitUnit digit :: (digits.map digitUnit ++ rest))).1 = _
      rw [digitsFrom, digitOf_digitUnit]
      exact congrArg _ (ih (index + 1))
  have reads := reads_digitsFrom index (digits.map digitUnit ++ rest)
  rw [same index] at reads
  exact scans_of (same index) reads

theorem minus_scans {rest : Text} (other : Starts (· ≠ unit '-') rest) (index : Nat) (negative : Bool) :
    Scan.minus ⟨index, minusText negative ++ rest⟩ =
      (negative, ⟨index + (minusText negative).length, rest⟩) := by
  cases negative with
  | true => rfl
  | false =>
    show Scan.minus ⟨index, rest⟩ = (false, ⟨index, rest⟩)
    unfold Scan.minus
    split
    · next here => exact absurd rfl (other _ here)
    · rfl

theorem fraction_scans {rest : Text} (ends : Starts (digitOf · = none) rest)
    (other : Starts (· ≠ unit '.') rest) (index : Nat) (fraction : Option (List (Fin 10))) :
    Scan.fraction ⟨index, fractionText fraction ++ rest⟩ =
      (fraction, ⟨index + (fractionText fraction).length, rest⟩) := by
  have same : (Scan.fraction ⟨index, fractionText fraction ++ rest⟩).1 = fraction := by
    cases fraction with
    | none =>
      show (Scan.fraction ⟨index, rest⟩).1 = none
      unfold Scan.fraction
      split
      · next here => exact absurd rfl (other _ here)
      · rfl
    | some digits =>
      show some (Scan.digits ⟨index + 1, digits.map digitUnit ++ rest⟩).1 = some digits
      rw [digits_scans ends]
  have reads := reads_fraction ⟨index, fractionText fraction ++ rest⟩
  rw [same] at reads
  exact scans_of same reads

theorem sign_scans {rest : Text} (other : Starts (fun c => c ≠ unit '+' ∧ c ≠ unit '-') rest) (index : Nat)
    (sign : Sign) :
    Scan.sign ⟨index, sign.text ++ rest⟩ = (sign, ⟨index + sign.text.length, rest⟩) := by
  cases sign with
  | unsigned =>
    show Scan.sign ⟨index, rest⟩ = (.unsigned, ⟨index, rest⟩)
    unfold Scan.sign
    split
    · next here => exact absurd rfl (other _ here).2
    · split
      · next here => exact absurd rfl (other _ here).1
      · rfl
  | plus => rfl
  | minus => rfl

theorem Starts.mono {p q : UInt16 → Prop} {text : Text} (starts : Starts p text) (weaker : ∀ c, p c → q c) :
    Starts q text :=
  fun c first => weaker c (starts c first)

theorem exponent_scans {rest : Text} (beyond : Starts Beyond rest) (index : Nat)
    (exponent : Option Exponent) :
    Scan.exponent ⟨index, exponentText exponent ++ rest⟩ =
      (exponent, ⟨index + (exponentText exponent).length, rest⟩) := by
  have same : (Scan.exponent ⟨index, exponentText exponent ++ rest⟩).1 = exponent := by
    cases exponent with
    | none =>
      show (Scan.exponent ⟨index, rest⟩).1 = none
      unfold Scan.exponent
      split
      · next here =>
        rcases here with small | capital
        · exact absurd rfl (beyond _ small).2.2.1
        · exact absurd rfl (beyond _ capital).2.2.2.1
      · rfl
    | some exponent =>
      obtain ⟨capital, sign, digits⟩ := exponent
      have unsigned : Starts (fun c => c ≠ unit '+' ∧ c ≠ unit '-') (digits.map digitUnit ++ rest) :=
        starts_append (starts_digits (by decide) digits) (beyond.mono fun c away => away.2.2.2.2)
      have ends : Starts (digitOf · = none) rest := beyond.mono fun c away => away.1
      have behind := sign_scans unsigned (index + 1) sign
      have last := digits_scans ends (index + 1 + sign.text.length) digits
      have parts : exponentText (some ⟨capital, sign, digits⟩) ++ rest =
          unit (if capital then 'E' else 'e') :: (sign.text ++ (digits.map digitUnit ++ rest)) :=
        congrArg (List.cons _) (List.append_assoc _ _ _)
      have scanned : (Scan.exponent ⟨index, unit (if capital then 'E' else 'e') ::
          (sign.text ++ (digits.map digitUnit ++ rest))⟩).1 =
            some ⟨capital, (Scan.sign ⟨index + 1, sign.text ++ (digits.map digitUnit ++ rest)⟩).1,
              (Scan.sign ⟨index + 1, sign.text ++ (digits.map digitUnit ++ rest)⟩).2.digits.1⟩ := by
        cases capital <;> rfl
      rw [parts, scanned, behind, last]
  have reads := reads_exponent ⟨index, exponentText exponent ++ rest⟩
  rw [same] at reads
  exact scans_of same reads

/-- **A numeral is scanned as far as it goes**, whatever follows that does not go on with it. -/
theorem numeral_scans {rest : Text} (beyond : Starts Beyond rest) (index : Nat) (n : Numeral) :
    Scan.numeral ⟨index, n.text ++ rest⟩ = (n, ⟨index + n.text.length, rest⟩) := by
  have exponent : Starts (fun c => digitOf c = none ∧ c ≠ unit '.' ∧ c ≠ unit '-')
      (exponentText n.exponent ++ rest) := by
    refine starts_append ?_ (beyond.mono fun c away => ⟨away.1, away.2.1, away.2.2.2.2.2⟩)
    cases n.exponent with
    | none => exact fun c first => by cases first
    | some exponent =>
      intro c first
      cases first
      cases exponent.capital <;> decide
  have fraction : Starts (fun c => digitOf c = none ∧ c ≠ unit '-')
      (fractionText n.fraction ++ (exponentText n.exponent ++ rest)) := by
    refine starts_append ?_ (exponent.mono fun c away => ⟨away.1, away.2.2⟩)
    cases n.fraction with
    | none => exact fun c first => by cases first
    | some digits =>
      intro c first
      cases first
      decide
  have whole : Starts (· ≠ unit '-')
      (n.whole.map digitUnit ++ (fractionText n.fraction ++ (exponentText n.exponent ++ rest))) :=
    starts_append (starts_digits (by decide) n.whole) (fraction.mono fun c away => away.2)
  have same : (Scan.numeral ⟨index, n.text ++ rest⟩).1 = n := by
    have parts : n.text ++ rest = minusText n.negative ++ (n.whole.map digitUnit ++
        (fractionText n.fraction ++ (exponentText n.exponent ++ rest))) := by
      simp only [Numeral.text, List.append_assoc]
    simp only [parts, Scan.numeral, minus_scans whole, digits_scans (fraction.mono fun c away => away.1),
      fraction_scans (exponent.mono fun c away => away.1) (exponent.mono fun c away => away.2.1),
      exponent_scans beyond]
  have reads := numeral_reads ⟨index, n.text ++ rest⟩
  rw [same] at reads
  exact scans_of same reads

/-! ### The value of a `BigNumber` -/

theorem scale_pos (n : Numeral) : (0 : ℚ) < 10 ^ (n.power - (n.fraction.getD []).length : ℤ) := by
  positivity

theorem magnitude_nonneg (n : Numeral) : 0 ≤ n.magnitude :=
  mul_nonneg (Nat.cast_nonneg _) (scale_pos n).le

theorem value_ne_zero {n : Numeral} (positive : 0 < n.magnitude) : Decimal.value n.digits ≠ 0 := by
  intro zero
  rw [Numeral.magnitude, zero, Nat.cast_zero, zero_mul] at positive
  exact absurd positive (lt_irrefl 0)

/-- It is the exponent of the first digit that counts. -/
theorem magnitude_leading {n : Numeral} (positive : 0 < n.magnitude) :
    (10 : ℚ) ^ n.leadingExponent ≤ n.magnitude ∧ n.magnitude < 10 ^ (n.leadingExponent + 1) := by
  have size : n.digits.length = n.whole.length + (n.fraction.getD []).length := List.length_append
  have parts := Decimal.length_zeros n.digits
  obtain ⟨length, long, low, high⟩ := Decimal.value_leading (value_ne_zero positive)
  have exponent : n.leadingExponent = length + (n.power - (n.fraction.getD []).length) := by
    unfold Numeral.leadingExponent
    omega
  rw [exponent]
  constructor
  · rw [zpow_add₀ (by norm_num), zpow_natCast]
    exact mul_le_mul_of_nonneg_right (by exact_mod_cast low) (scale_pos n).le
  · rw [add_right_comm, zpow_add₀ (by norm_num), ← Nat.cast_add_one, zpow_natCast]
    exact mul_lt_mul_of_pos_right (by exact_mod_cast high) (scale_pos n)

/-- The digits that count, with a sign and an exponent in range. -/
def BigNumber.Canonical : BigNumber → Prop
  | .infinite _ => False
  | .finite _ e c => (∃ digit ∈ c.head?, digit ≠ 0) ∧ (∃ digit ∈ c.getLast?, digit ≠ 0) ∧
      MIN_EXP ≤ e ∧ e ≤ MAX_EXP

/-- A canonical `BigNumber` is what the last branch of the constructor makes. -/
theorem bigNumber_leading {n : Numeral} (canonical : n.bigNumber.Canonical) :
    n.bigNumber = .finite n.negative n.leadingExponent (Decimal.significant n.digits) ∧
      (n.digits.takeWhile (· = 0)).length ≠ n.digits.length := by
  unfold Numeral.bigNumber at canonical ⊢
  split at canonical
  · exact canonical.elim
  · next bounded =>
    rw [if_neg bounded]
    split at canonical
    · obtain ⟨⟨digit, first, leading⟩, -⟩ := canonical
      cases first
      exact absurd rfl leading
    · next deep => exact ⟨if_neg deep, fun all => deep (.inl all)⟩

/-- **A `BigNumber` has the value that its numeral writes**, unless it overflowed or is zero. -/
theorem bigNumber_value {n : Numeral} (canonical : n.bigNumber.Canonical) :
    n.bigNumber.value = some (signed n.negative n.magnitude) := by
  have size : n.digits.length = n.whole.length + (n.fraction.getD []).length := List.length_append
  have parts := Decimal.length_zeros n.digits
  have short := Decimal.significant_length n.digits
  obtain ⟨made, some⟩ := bigNumber_leading canonical
  have exponent : n.leadingExponent + 1 - (Decimal.significant n.digits).length =
      ((n.digits.dropWhile (· = 0)).length - (Decimal.significant n.digits).length : ℕ) +
        (n.power - (n.fraction.getD []).length) := by
    unfold Numeral.leadingExponent
    omega
  rw [made, BigNumber.value, exponent, zpow_add₀ (by norm_num), zpow_natCast, ← mul_assoc, Numeral.magnitude]
  conv_rhs => rw [Decimal.value_significant n.digits]
  push_cast
  rfl

/-- A `BigNumber` of a size in range is canonical. -/
theorem bigNumber_canonical {n : Numeral} {low high : ℤ} (above : 10 ^ low ≤ n.magnitude)
    (below : n.magnitude < 10 ^ high) (deep : MIN_EXP ≤ low) (bounded : high ≤ MAX_EXP) :
    n.bigNumber.Canonical := by
  have positive : 0 < n.magnitude := lt_of_lt_of_le (by positivity) above
  obtain ⟨lower, upper⟩ := magnitude_leading positive
  have least : low < n.leadingExponent + 1 :=
    (zpow_lt_zpow_iff_right₀ (by norm_num)).mp (above.trans_lt upper)
  have most : n.leadingExponent < high :=
    (zpow_lt_zpow_iff_right₀ (by norm_num)).mp (lower.trans_lt below)
  have parts := Decimal.length_zeros n.digits
  obtain ⟨length, long, -, -⟩ := Decimal.value_leading (value_ne_zero positive)
  obtain ⟨first, last⟩ := Decimal.significant_ends (value_ne_zero positive)
  rw [Numeral.bigNumber, if_neg (by omega), if_neg (by omega)]
  exact ⟨first, last, by omega, by omega⟩

/-! ### What is read -/

theorem rounded_finite {q : ℚ} (positive : 0 ≤ q) :
    binary64.rounded q < 2 ^ 1024 ↔ q < 2 ^ 1024 - 2 ^ 970 := by
  rcases positive.eq_or_lt with zero | positive
  · rw [← zero, rounded_zero, sub_pos]
    exact iff_of_true (by positivity) (pow_lt_pow_right₀ one_lt_two (by decide))
  · have exponent : (1024 : ℤ) - (binary64.precision : ℤ) - 1 = 970 := rfl
    rw [← zpow_ofNat, ← zpow_ofNat, ← exponent]
    exact rounded_lt_iff (by decide) positive

theorem rounded_large {q : ℚ} (positive : 0 ≤ q) :
    9007199254740992 < binary64.rounded q ↔ 9007199254740993 < q := by
  rcases positive.eq_or_lt with zero | positive
  · rw [← zero, rounded_zero]
    norm_num
  · have spread : 2 ^ (53 : ℤ) < binary64.rounded q ↔ 2 ^ (53 : ℤ) + 2 ^ (53 - 53 : ℤ) < q :=
      lt_rounded_iff (by decide) positive
    norm_num at spread
    exact spread

theorem rounded_nonneg {q : ℚ} (positive : 0 ≤ q) : 0 ≤ binary64.rounded q :=
  mul_nonneg (by exact_mod_cast nearestEven_nonneg (div_nonneg positive (by positivity))) (by positivity)

/-- Only the size of a number decides whether it becomes a `BigNumber`. -/
theorem signed_large {q : ℚ} (positive : 0 ≤ q) (negative : Bool) :
    9007199254740992 < signed negative q ∨ signed negative q < -9007199254740992 ↔ 9007199254740992 < q := by
  cases negative with
  | false =>
    show 9007199254740992 < q ∨ q < -9007199254740992 ↔ _
    exact or_iff_left (by linarith)
  | true =>
    show 9007199254740992 < -q ∨ -q < -9007199254740992 ↔ _
    rw [neg_lt_neg_iff]
    exact or_iff_right (by linarith)

/-- **What a numeral is read as.** -/
theorem read_eq (n : Numeral) :
    n.read =
      if ¬ n.Valid ∨ 2 ^ 1024 - 2 ^ 970 ≤ n.magnitude then none
      else if 9007199254740993 < n.magnitude then some (.big n.bigNumber)
      else some (.number (signed n.negative (binary64.rounded n.magnitude))) := by
  have positive := magnitude_nonneg n
  unfold Numeral.read Numeral.number
  simp only [rounded_finite positive]
  split
  · next accepted =>
    rw [if_neg (by rintro (invalid | large); exacts [invalid accepted.1, absurd accepted.2 (not_lt.mpr large)])]
    show some (if _ then _ else _) = _
    simp only [signed_large (rounded_nonneg positive), rounded_large positive]
    split <;> rfl
  · next refused =>
    rw [if_pos (by
      by_contra fits
      rw [not_or, not_not, not_le] at fits
      exact refused fits)]
    rfl

/-! ### `toString` and back -/

/-- Zeros around the coefficient do not matter to the constructor. -/
theorem bigNumber_of {n : Numeral} {e : ℤ} {c : List (Fin 10)} {front back : ℕ}
    (canonical : (BigNumber.finite n.negative e c).Canonical)
    (digits : n.digits = List.replicate front 0 ++ (c ++ List.replicate back 0))
    (exponent : n.whole.length + n.power - (front + 1) = e) : n.bigNumber = .finite n.negative e c := by
  obtain ⟨first, last, low, high⟩ := canonical
  obtain ⟨zeros, core⟩ := Decimal.significant_of first last front back
  have leading : n.leadingExponent = e := by
    rw [Numeral.leadingExponent, digits, zeros, List.length_replicate, exponent]
  have filled : 0 < c.length := by
    obtain ⟨digit, starts, -⟩ := first
    exact List.length_pos_of_mem (List.mem_of_mem_head? starts)
  have size : n.digits.length = front + (c.length + back) := by
    rw [digits, List.length_append, List.length_append, List.length_replicate, List.length_replicate]
  have part : (n.digits.takeWhile (· = 0)).length = front := by rw [digits, zeros, List.length_replicate]
  rw [Numeral.bigNumber, leading, if_neg (by omega), if_neg (by omega), digits, core]

theorem fraction_drop (c : List (Fin 10)) :
    (if 1 < c.length then some (c.drop 1) else none : Option (List (Fin 10))).getD [] = c.drop 1 := by
  split
  · rfl
  · next short => exact (List.drop_eq_nil_of_le (Nat.not_lt.mp short)).symm

/-- The exponent that `format` writes. -/
theorem format_power (e : ℤ) :
    Exponent.value ⟨false, if e < 0 then .minus else .plus, Decimal.digits e.natAbs⟩ = e := by
  unfold Exponent.value
  split
  · next minus =>
    have below : e < 0 := by
      by_contra above
      rw [if_neg above] at minus
      cases minus
    rw [Decimal.value_digits]
    omega
  · next other =>
    have above : ¬ e < 0 := by
      intro below
      exact other (if_pos below)
    rw [Decimal.value_digits]
    omega

/-- **What `toString` writes is read back**: the constructor gives the same `BigNumber`. -/
theorem numeral_bigNumber {negative : Bool} {e : ℤ} {c : List (Fin 10)}
    (canonical : (BigNumber.finite negative e c).Canonical) :
    (BigNumber.numeral negative e c).bigNumber = .finite negative e c ∧
      (BigNumber.numeral negative e c).Valid ∧ (BigNumber.numeral negative e c).whole ≠ [] := by
  have made : ∀ (n : Numeral) (front back : ℕ), n.negative = negative →
      n.digits = List.replicate front 0 ++ (c ++ List.replicate back 0) →
      n.whole.length + n.power - (front + 1) = e → n.whole ≠ [] →
      (∀ exponent ∈ n.exponent, exponent.digits ≠ []) →
      n.bigNumber = .finite negative e c ∧ n.Valid ∧ n.whole ≠ [] := by
    rintro n front back rfl digits exponent whole powers
    exact ⟨bigNumber_of canonical digits exponent,
      ⟨fun none => whole (List.append_eq_nil_iff.mp none).1, powers⟩, whole⟩
  have parts := canonical
  obtain ⟨⟨head, starts, leading⟩, -⟩ := parts
  cases c with
  | nil => cases starts
  | cons first rest =>
    cases starts
    have sign : (negative && decide ((head :: rest).head? ≠ some 0)) = negative := by simp [leading]
    have plain : ∀ {digits : List (Fin 10)}, digits = List.replicate 0 0 ++ (digits ++ List.replicate 0 0) := by
      simp
    unfold BigNumber.numeral
    rw [sign]
    by_cases outside : e ≤ TO_EXP_NEG ∨ TO_EXP_POS ≤ e
    · rw [if_pos outside]
      refine made _ 0 0 rfl ?_ ?_ (List.cons_ne_nil _ _) ?_
      · rw [Numeral.digits, fraction_drop]
        exact plain
      · have power := format_power e
        show ((1 : ℕ) : ℤ) + Exponent.value _ - _ = e
        omega
      · rintro _ ⟨⟩
        exact Decimal.digits_ne_nil _
    rw [if_neg outside]
    rcases lt_trichotomy e 0 with minus | zero | plus
    · rw [if_pos minus]
      refine made _ ((-e - 1).toNat + 1) 0 rfl ?_ ?_ (List.cons_ne_nil _ _) (by rintro _ ⟨⟩)
      · rw [List.replicate_succ, List.replicate_zero, List.append_nil]
        rfl
      · show ((1 : ℕ) : ℤ) + 0 - _ = e
        omega
    · rw [if_neg (by omega), if_neg (by omega)]
      by_cases more : 1 < (head :: rest).length
      · rw [if_pos more]
        refine made _ 0 0 rfl plain ?_ (List.cons_ne_nil _ _) (by rintro _ ⟨⟩)
        show ((1 : ℕ) : ℤ) + 0 - _ = e
        omega
      · rw [if_neg more]
        refine made _ 0 0 rfl ?_ ?_ (List.cons_ne_nil _ _) (by rintro _ ⟨⟩)
        · rw [Numeral.digits, Option.getD_none, List.append_nil]
          exact plain
        · rw [List.length_cons] at more
          show ((rest.length + 1 : ℕ) : ℤ) + 0 - _ = e
          omega
    · rw [if_neg (by omega), if_pos plus]
      by_cases wide : ((head :: rest).length : ℤ) < e + 1
      · rw [if_pos wide]
        refine made _ 0 (e + 1 - (head :: rest).length).toNat rfl ?_ ?_ (List.cons_ne_nil _ _) (by rintro _ ⟨⟩)
        · rw [Numeral.digits, Option.getD_none, List.append_nil]
          rfl
        · show ((((head :: rest) ++ List.replicate (e + 1 - (head :: rest).length).toNat 0).length : ℕ) : ℤ) + 0
            - _ = e
          rw [List.length_append, List.length_replicate]
          omega
      rw [if_neg wide]
      by_cases point : e + 1 < ((head :: rest).length : ℤ)
      · rw [if_pos point]
        refine made _ 0 0 rfl ?_ ?_ ?_ (by rintro _ ⟨⟩)
        · rw [Numeral.digits, Option.getD_some, List.take_append_drop]
          exact plain
        · show (((head :: rest).take (e + 1).toNat).length : ℤ) + 0 - _ = e
          rw [List.length_take]
          omega
        · intro none
          have := congrArg List.length none
          rw [List.length_take, List.length_nil] at this
          omega
      · rw [if_neg point]
        refine made _ 0 0 rfl ?_ ?_ (List.cons_ne_nil _ _) (by rintro _ ⟨⟩)
        · rw [Numeral.digits, Option.getD_none, List.append_nil]
          exact plain
        · show (((head :: rest).length : ℕ) : ℤ) + 0 - _ = e
          omega

/-! ### Numbers that were read -/

/-- What `number` can return. -/
def JsNumber.Read : JsNumber → Prop
  | .number q => |q| ≤ 9007199254740992 ∧ binary64.Holds |q|
  | .big b => b.Canonical ∧ ∃ v, b.value = some v ∧ 9007199254740993 < |v| ∧ |v| < 2 ^ 1024 - 2 ^ 970

theorem abs_signed {q : ℚ} (positive : 0 ≤ q) (negative : Bool) : |signed negative q| = q := by
  cases negative with
  | false => exact abs_of_nonneg positive
  | true => exact (abs_neg q).trans (abs_of_nonneg positive)

theorem holds_zero : binary64.Holds 0 := ⟨0, 0, by decide, by decide, by norm_num⟩

theorem read_read {n : Numeral} {x : JsNumber} (read : n.read = some x) : x.Read := by
  have positive := magnitude_nonneg n
  rw [read_eq] at read
  split at read
  · cases read
  · next accepted =>
    rw [not_or, not_not, not_le] at accepted
    split at read
    · next large =>
      cases read
      have canonical : n.bigNumber.Canonical := by
        have above : (10 : ℚ) ^ (0 : ℤ) ≤ n.magnitude := by
          rw [zpow_zero]
          linarith
        have below : n.magnitude < 10 ^ (309 : ℤ) := by
          have wide : (2 : ℚ) ^ 1024 < 10 ^ (309 : ℤ) := by
            rw [zpow_ofNat]
            exact_mod_cast (by decide +kernel : (2 : ℕ) ^ 1024 < 10 ^ 309)
          have part : (0 : ℚ) < 2 ^ 970 := by positivity
          exact accepted.2.trans ((sub_lt_self _ part).trans wide)
        exact bigNumber_canonical above below (by decide) (by decide)
      refine ⟨canonical, _, bigNumber_value canonical, ?_, ?_⟩
      · rwa [abs_signed positive]
      · rw [abs_signed positive]
        exact accepted.2
    · next small =>
      cases read
      have bound : binary64.rounded n.magnitude ≤ 9007199254740992 :=
        not_lt.mp fun large => small ((rounded_large positive).mp large)
      refine ⟨?_, ?_⟩
      · rwa [abs_signed (rounded_nonneg positive)]
      · rw [abs_signed (rounded_nonneg positive)]
        rcases positive.eq_or_lt with zero | positive
        · rw [← zero, rounded_zero]
          exact holds_zero
        · exact holds_rounded positive

/-- A numeral that `value` gives to `number`. -/
def Numeral.Begins (n : Numeral) : Prop := n.negative = true ∨ n.whole ≠ []

/-- `String(x)` of a number is a numeral that has this number as its value. -/
def ShowsNumbers (shown : ℚ → Numeral) : Prop :=
  ∀ q, |q| < 2 ^ 1024 → binary64.Holds |q| → (shown q).number = some q ∧ (shown q).Begins

/-- `String(value)` of a number, and `toString` of a `BigNumber`. -/
def JsNumber.toText (shown : ℚ → Numeral) : JsNumber → Text
  | .number q => (shown q).text
  | .big b => b.toText

/-- **A number that was read is written as a numeral** that is read as the same number. -/
theorem toText_read {shown : ℚ → Numeral} (shows : ShowsNumbers shown) {x : JsNumber} (made : x.Read) :
    ∃ n : Numeral, x.toText shown = n.text ∧ n.read = some x ∧ n.Begins := by
  cases x with
  | number q =>
    obtain ⟨small, held⟩ := made
    have finite : |q| < 2 ^ 1024 := by
      apply small.trans_lt
      exact_mod_cast (by decide +kernel : 9007199254740992 < 2 ^ 1024)
    obtain ⟨same, begins⟩ := shows q finite held
    obtain ⟨low, high⟩ := abs_le.mp small
    refine ⟨shown q, rfl, ?_, begins⟩
    rw [Numeral.read, same, Option.map_some, if_neg]
    rintro (above | below) <;> linarith
  | big b =>
    obtain ⟨canonical, v, value, large, fits⟩ := made
    cases b with
    | infinite negative => exact canonical.elim
    | finite negative e c =>
      obtain ⟨same, valid, whole⟩ := numeral_bigNumber canonical
      have written := bigNumber_value (same ▸ canonical)
      rw [same, value] at written
      have size : |v| = (BigNumber.numeral negative e c).magnitude := by
        rw [Option.some.inj written, abs_signed (magnitude_nonneg _)]
      refine ⟨_, rfl, ?_, .inr whole⟩
      rw [read_eq, if_neg, if_pos (size ▸ large), same]
      rw [not_or, not_not, not_le, ← size]
      exact ⟨valid, fits⟩

end EvmBabble.JsonBig
