/-
What the demo sends (`demo.js`), and what a node makes of it (`http_handlers.go`, `types.go`).

`json.Decoder` is a parameter of the service; what is used of it is what it makes of one flat object
(`decodeFields`), the one that is sent. So is the package json-bigint of the demo: it writes a flat object
as it stands, and the integers below 10^21, and no other number, as digits alone. Texts are of ASCII
characters, a byte each.

* `DemoRequest` — the objects that the functions of the demo build; some of them misspell `gas`.
* `WriteLaws`, `bundle_writes` — what is used of `stringify`; `goInt_toText` says of `json-bigint.js` which
  amounts in a `BigNumber` reach an integer of the API.
* `request_decoded` — what the node reads of a request.
* `request_arrives` — **a request is refused, or the node does what it asks for**, and tells its hash.
-/

import EvmBabble.Client.Accounts
import EvmBabble.Service.Intent

namespace EvmBabble.JsonBig

open Library

/-! ### Requests -/

/-- The requests of the demo: to whom, or to which contract, and with what. -/
inductive DemoRequest
  | transfer (recipient : Text) (amount : JsNumber)
  | deployContract (code : Text)
  | contribute (contract callData : Text) (amount : JsNumber)
  | checkGoalReached (contract callData : Text)
  | settle (contract callData : Text)

/-- `accounts[0].address`. -/
def firstAddress : Json → Option Json
  | .array (account :: _) => account.get "address"
  | _ => none

def numeric (q : ℚ) : Json := .number (.number q)

namespace DemoRequest

/-- `tx`. -/
def tx (sender : Json) : DemoRequest → List (Text × Json)
  | transfer recipient amount =>
    [(units "from", sender), (units "to", .string recipient), (units "value", .number amount)]
  | deployContract code =>
    [(units "from", sender), (units "gas", numeric 1000000), (units "gasPrice", numeric 0),
      (units "data", .string code)]
  | contribute contract callData amount =>
    [(units "from", sender), (units "to", .string contract), (units "gaz", numeric 1000000),
      (units "gazPrice", numeric 0), (units "value", .number amount), (units "data", .string callData)]
  | checkGoalReached contract callData =>
    [(units "from", sender), (units "value", numeric 0), (units "to", .string contract),
      (units "data", .string callData)]
  | settle contract callData =>
    [(units "from", sender), (units "to", .string contract), (units "gaz", numeric 1000000),
      (units "gazPrice", numeric 0), (units "value", numeric 0), (units "data", .string callData)]

/-- Where the request goes. -/
def ask : DemoRequest → Option Bytes → Ask
  | checkGoalReached _ _ => .call
  | _ => .tx

/-- `stx`, from the accounts that the node had listed; without them nothing is sent. -/
def stx (json : JsonBigint) (accs : Text) (request : DemoRequest) : Except Stop (Option Text) :=
  (controlledAccounts json accs).map fun accounts =>
    (accounts.bind firstAddress).map fun sender => json.stringify (.object none (request.tx sender))

end DemoRequest

/-- The bytes of a text of ASCII characters. -/
def asBytes (text : Text) : Bytes := text.map UInt16.toUInt8

def stringOf (text : Text) : String := String.ofList (text.map fun c => Char.ofNat c.toNat)

/-- `JSONbig.parse(res).txHash.replace("\"", "")`. -/
def sentHash (json : JsonBigint) (res : Text) : Except Stop (Option Text) :=
  (json.parse res).map fun v => (v.get "txHash").bind fun
    | .string hash => some (hash.erase (unit '"'))
    | _ => none

/-- `json.Marshal` of a `JsonTxRes`. -/
def marshalTxRes (hexHash : Hash → String) (hash : Hash) : Text :=
  units "\x7b\"txHash\":\"" ++ units (hexHash hash) ++ units "\"\x7d"

/-! ### Decoding -/

/-- The number that digits alone write. -/
def goNat (text : Text) : Option ℕ :=
  if text = [] then none else (text.mapM digitOf).map Decimal.value

/-- What a `*big.Int` of the API takes of a JSON number: digits, behind a minus sign or none. -/
def goInt (text : Text) : Option ℤ :=
  if text.head? = some (unit '-') then (goNat text.tail).map fun n : ℕ => -(n : ℤ)
  else (goNat text).map fun n : ℕ => (n : ℤ)

/-- A value in a flat object, as it is written. -/
inductive Literal
  | string (s : Text)
  | number (text : Text)

namespace Literal

def text : Literal → Text
  | string s => quoted s
  | number text => text

@[simp] def address (read : Text → Option Address) : Literal → Option Address
  | string s => read s
  | number _ => none

@[simp] def integer : Literal → Option ℤ
  | string _ => none
  | number text => goInt text

def unsigned : Literal → Option ℕ
  | string _ => none
  | number text => (goNat text).filter (· < 2 ^ 64)

@[simp] def data : Literal → Option String
  | string s => some (stringOf s)
  | number _ => none

end Literal

/-- A flat object, without white space. -/
def flatText (members : List (Text × Literal)) : Text :=
  unit '{' :: ([unit ','].intercalate (members.map fun member => quoted member.1 ++ unit ':' :: member.2.text) ++
    [unit '}'])

/-- A letter of a field's name, in either case. -/
def lower (c : UInt16) : UInt16 := if unit 'A' ≤ c ∧ c ≤ unit 'Z' then c + 32 else c

section Decoder

variable (read : Text → Option Address)

/-- A member with the name of a field fills it, and another one is passed over. -/
def decodeMember (args : SendTxArgs) (member : Text × Literal) : Option SendTxArgs :=
  let name := member.1.map lower
  if name = units "from" then (member.2.address read).map fun address => { args with sender := address }
  else if name = units "to" then (member.2.address read).map fun address => { args with recipient := some address }
  else if name = units "gas" then member.2.integer.map fun n => { args with gas := some n }
  else if name = units "gasprice" then member.2.integer.map fun n => { args with gasPrice := some n }
  else if name = units "value" then member.2.integer.map fun n => { args with value := some n }
  else if name = units "data" then member.2.data.map fun data => { args with data }
  else if name = units "nonce" then member.2.unsigned.map fun n => { args with nonce := some n }
  else some args

/-- `Decode` into a `SendTxArgs`, of a flat object. -/
def decodeFields (members : List (Text × Literal)) : Option SendTxArgs :=
  members.foldlM (decodeMember read) ⟨default, none, none, none, none, "", none⟩

/-- What is used of `json.Decoder`, `Address.UnmarshalJSON` and `big.Int.UnmarshalJSON`. -/
def Decodes (web : Web) (members : List (Text × Literal)) : Prop :=
  web.decodeArgs (asBytes (flatText members)) = decodeFields read members

end Decoder

/-! ### Amounts -/

theorem mapM_digits (digits : List (Fin 10)) : (digits.map digitUnit).mapM digitOf = some digits := by
  induction digits with
  | nil => rfl
  | cons digit digits ih =>
    rw [List.map_cons, List.mapM_cons, digitOf_digitUnit, ih]
    rfl

/-- Digits are read to their end only if nothing else follows. -/
theorem goNat_digits (digits : List (Fin 10)) {rest : Text} (other : Starts (digitOf · = none) rest) :
    goNat (digits.map digitUnit ++ rest) =
      if rest = [] ∧ digits ≠ [] then some (Decimal.value digits) else none := by
  cases rest with
  | nil =>
    rw [List.append_nil, goNat, mapM_digits]
    cases digits with
    | nil => rfl
    | cons digit digits => rfl
  | cons c rest =>
    have stops : (c :: rest).mapM digitOf = none := by
      rw [List.mapM_cons, other c rfl]
      rfl
    rw [goNat, List.mapM_append, mapM_digits, stops, if_neg (by simp), if_neg (by simp)]
    rfl

/-- Of the numerals, an integer field takes those without a point and without an exponent. -/
theorem goInt_text (n : Numeral) :
    goInt n.text =
      if n.fraction = none ∧ n.exponent = none ∧ n.whole ≠ [] then
        some (if n.negative then -(Decimal.value n.whole : ℤ) else Decimal.value n.whole)
      else none := by
  obtain ⟨negative, whole, fraction, exponent⟩ := n
  have other : Starts (fun c => digitOf c = none ∧ c ≠ unit '-') (fractionText fraction ++ exponentText exponent) := by
    apply starts_append
    · cases fraction with
      | none => exact starts_nil
      | some digits => exact starts_cons (by decide)
    · cases exponent with
      | none => exact starts_nil
      | some exponent =>
        have mark : ∀ capital : Bool, digitOf (unit (if capital then 'E' else 'e')) = none ∧
            unit (if capital then 'E' else 'e') ≠ unit '-' := by decide
        exact starts_cons (mark exponent.capital)
  have rest : fractionText fraction ++ exponentText exponent = [] ↔ fraction = none ∧ exponent = none := by
    cases fraction <;> cases exponent <;> simp [fractionText, exponentText, Exponent.text]
  have read := goNat_digits whole (other.mono fun c away => away.1)
  simp only [rest, and_assoc] at read
  have shapes : ∀ sign : ℕ → ℤ, ((if fraction = none ∧ exponent = none ∧ whole ≠ [] then
      some (Decimal.value whole) else none).map sign) =
        if fraction = none ∧ exponent = none ∧ whole ≠ [] then some (sign (Decimal.value whole)) else none := by
    intro sign
    split <;> rfl
  cases negative with
  | true =>
    have minus : (unit '-' :: (whole.map digitUnit ++ (fractionText fraction ++ exponentText exponent))).head? =
        some (unit '-') := rfl
    show goInt (unit '-' :: (whole.map digitUnit ++ (fractionText fraction ++ exponentText exponent))) = _
    rw [goInt, if_pos minus, List.tail_cons, read]
    exact shapes _
  | false =>
    have plus : (whole.map digitUnit ++ (fractionText fraction ++ exponentText exponent)).head? ≠ some (unit '-') :=
      fun minus => starts_append (starts_digits (by decide) whole) (other.mono fun c away => away.2) _ minus rfl
    show goInt (whole.map digitUnit ++ (fractionText fraction ++ exponentText exponent)) = _
    rw [goInt, if_neg plus, read]
    exact shapes _

theorem numeral_wide {negative : Bool} {e : ℤ} {c : List (Fin 10)}
    (plain : (BigNumber.numeral negative e c).exponent = none) : e < 21 := by
  unfold BigNumber.numeral at plain
  split at plain
  · cases plain
  · next inside =>
    unfold TO_EXP_NEG TO_EXP_POS at inside
    omega

theorem numeral_plain {negative : Bool} {e : ℤ} {c : List (Fin 10)} (low : 0 ≤ e) (high : e < 21) :
    (BigNumber.numeral negative e c).exponent = none ∧
      ((c.length : ℤ) ≤ e + 1 → (BigNumber.numeral negative e c).fraction = none) := by
  have inside : ¬ (e ≤ TO_EXP_NEG ∨ TO_EXP_POS ≤ e) := by
    unfold TO_EXP_NEG TO_EXP_POS
    omega
  unfold BigNumber.numeral
  rw [if_neg inside, if_neg (by omega)]
  split
  · split
    · exact ⟨rfl, fun _ => rfl⟩
    · split
      · next point => exact ⟨rfl, fun short => absurd point (by omega)⟩
      · exact ⟨rfl, fun _ => rfl⟩
  · split
    · next more => exact ⟨rfl, fun short => absurd more (by omega)⟩
    · exact ⟨rfl, fun _ => rfl⟩

theorem signed_cast (negative : Bool) (k : ℕ) :
    (((if negative then -(k : ℤ) else k) : ℤ) : ℚ) = signed negative k := by
  cases negative with
  | true => exact Int.cast_neg _
  | false => exact Int.cast_natCast k

theorem magnitude_integer {n : Numeral} (point : n.fraction = none) (plain : n.exponent = none) :
    n.magnitude = Decimal.value n.whole := by
  obtain ⟨negative, whole, fraction, exponent⟩ := n
  cases point
  cases plain
  have digits : Numeral.digits ⟨negative, whole, none, none⟩ = whole := List.append_nil _
  rw [Numeral.magnitude, digits]
  exact mul_one _

/-- Digits that do not end with a zero do not write a multiple of ten. -/
theorem value_last {c : List (Fin 10)} (last : ∃ digit ∈ c.getLast?, digit ≠ 0) {k m : ℕ} (positive : 0 < k) :
    Decimal.value c ≠ m * 10 ^ k := by
  obtain ⟨digit, ends, closing⟩ := last
  obtain ⟨front, rfl⟩ := List.getLast?_eq_some_iff.mp ends
  obtain ⟨j, rfl⟩ := Nat.exists_eq_add_one.mpr positive
  rw [Decimal.value_append, Decimal.value_single, List.length_singleton, pow_one, pow_succ, ← mul_assoc]
  intro same
  have small := digit.isLt
  exact closing (Fin.ext (by rw [Fin.val_zero]; omega))

section Written

variable {negative : Bool} {e : ℤ} {c : List (Fin 10)}

/-- The numeral that `toString` writes, and its size. -/
theorem numeral_sized (canonical : (BigNumber.finite negative e c).Canonical) {n : Numeral}
    (written : BigNumber.numeral negative e c = n) :
    (BigNumber.finite negative e c).value = some (signed n.negative n.magnitude) ∧ n.whole ≠ [] ∧
      n.magnitude = Decimal.value c * 10 ^ (e + 1 - c.length) ∧
      10 ^ e ≤ n.magnitude ∧ n.magnitude < 10 ^ (e + 1) := by
  subst written
  obtain ⟨same, -, whole⟩ := numeral_bigNumber canonical
  have value := bigNumber_value (same ▸ canonical)
  have leading := (bigNumber_leading (same ▸ canonical)).1
  rw [same] at value leading
  injection leading with sign exponent core
  have size : (BigNumber.numeral negative e c).magnitude = Decimal.value c * 10 ^ (e + 1 - c.length) := by
    have sizes := congrArg abs (Option.some.inj value)
    rw [abs_signed (magnitude_nonneg _), abs_signed (by positivity)] at sizes
    exact sizes.symm
  have filled : 0 < Decimal.value c := by
    obtain ⟨⟨head, starts, first⟩, -⟩ := canonical
    cases c with
    | nil => cases starts
    | cons digit rest =>
      cases starts
      exact Nat.lt_of_lt_of_le (Nat.pow_pos (by decide)) (Decimal.value_ge rest first)
  have positive : 0 < (BigNumber.numeral negative e c).magnitude := by
    rw [size]
    positivity
  obtain ⟨low, high⟩ := magnitude_leading positive
  rw [← exponent] at low high
  exact ⟨value, whole, size, low, high⟩

/-- An integer below 10^21 is written without a point and without an exponent. -/
theorem numeral_integral (canonical : (BigNumber.finite negative e c).Canonical) {v : ℤ}
    (amount : (BigNumber.finite negative e c).value = some (v : ℚ)) (small : |v| < 10 ^ 21) :
    (BigNumber.numeral negative e c).fraction = none ∧ (BigNumber.numeral negative e c).exponent = none := by
  obtain ⟨value, -, size, low, high⟩ := numeral_sized canonical rfl
  have positive : (0 : ℚ) < (BigNumber.numeral negative e c).magnitude := lt_of_lt_of_le (by positivity) low
  have sizes := congrArg abs (Option.some.inj (value.symm.trans amount))
  rw [abs_signed positive.le, ← Int.cast_abs] at sizes
  have wide : e < 21 := by
    have bound : (BigNumber.numeral negative e c).magnitude < 10 ^ (21 : ℤ) := by
      rw [sizes, zpow_ofNat]
      exact_mod_cast small
    exact (zpow_lt_zpow_iff_right₀ (by norm_num)).mp (low.trans_lt bound)
  have deep : 0 ≤ e := by
    have one : (1 : ℚ) ≤ (BigNumber.numeral negative e c).magnitude := by
      rw [sizes] at positive ⊢
      have some : 0 < |v| := by exact_mod_cast positive
      exact_mod_cast some
    have above : (10 : ℚ) ^ (0 : ℤ) < 10 ^ (e + 1) := by
      rw [zpow_zero]
      exact one.trans_lt high
    have := (zpow_lt_zpow_iff_right₀ (by norm_num : (1 : ℚ) < 10)).mp above
    omega
  obtain ⟨plain, point⟩ : (BigNumber.numeral negative e c).exponent = none ∧ _ := numeral_plain deep wide
  refine ⟨point ?_, plain⟩
  -- with a digit behind the point the value would be no integer
  by_contra long
  obtain ⟨k, more⟩ := Int.eq_ofNat_of_zero_le (show 0 ≤ (c.length : ℤ) - (e + 1) by omega)
  apply value_last canonical.2.1 (k := k) (m := v.natAbs) (by omega)
  have same : (Decimal.value c : ℚ) = ((v.natAbs : ℕ) : ℚ) * 10 ^ k := by
    rw [Nat.cast_natAbs, ← sizes, size, mul_assoc, ← zpow_natCast, ← zpow_add₀ (by norm_num), ← more]
    simp
  exact_mod_cast same

end Written

/-- **An amount in a `BigNumber` reaches the API** exactly if it is an integer and smaller than 10^21: from
there on it is written with an exponent. -/
theorem goInt_toText {b : BigNumber} (canonical : b.Canonical) (v : ℤ) :
    goInt b.toText = some v ↔ b.value = some (v : ℚ) ∧ |v| < 10 ^ 21 := by
  cases b with
  | infinite negative => exact canonical.elim
  | finite negative e c =>
    have integral := numeral_integral canonical (v := v)
    have wide : (BigNumber.numeral negative e c).exponent = none → e < 21 := numeral_wide
    generalize written : BigNumber.numeral negative e c = n at integral wide
    obtain ⟨value, whole, -, -, high⟩ := numeral_sized canonical written
    rw [BigNumber.toText, written, goInt_text]
    constructor
    · intro taken
      split at taken
      · next shape =>
        obtain ⟨point, plain, -⟩ := shape
        have amount : (v : ℚ) = signed n.negative n.magnitude := by
          rw [← Option.some.inj taken, magnitude_integer point plain]
          exact signed_cast _ _
        refine ⟨value.trans (congrArg some amount.symm), ?_⟩
        have sizes := congrArg abs amount
        rw [abs_signed (magnitude_nonneg n)] at sizes
        have bound : |(v : ℚ)| < 10 ^ (21 : ℤ) := by
          rw [sizes]
          exact high.trans_le (zpow_le_zpow_right₀ (by norm_num) (by have := wide plain; omega))
        rw [zpow_ofNat] at bound
        exact_mod_cast bound
      · cases taken
    · rintro ⟨amount, small⟩
      obtain ⟨point, plain⟩ := integral amount small
      rw [if_pos ⟨point, plain, whole⟩]
      have read : (v : ℚ) = signed n.negative n.magnitude := (Option.some.inj (value.symm.trans amount)).symm
      rw [magnitude_integer point plain] at read
      have same := read.trans (signed_cast n.negative (Decimal.value n.whole)).symm
      exact congrArg some (by exact_mod_cast same.symm)

/-! ### Amounts of a request -/

/-- The integer that a number stands for, below 10^21. -/
def JsNumber.integer (x : JsNumber) : Option ℤ :=
  x.value.bind fun q => if q.den = 1 ∧ |q.num| < 10 ^ 21 then some q.num else none

/-- A number that a program can hold, and a `BigNumber` that is none of the special ones. -/
def JsNumber.Finite : JsNumber → Prop
  | .number q => |q| < 2 ^ 1024 ∧ binary64.Holds |q|
  | .big b => b.Canonical

theorem integer_iff (x : JsNumber) (v : ℤ) :
    x.integer = some v ↔ x.value = some (v : ℚ) ∧ |v| < 10 ^ 21 := by
  unfold JsNumber.integer
  cases x.value with
  | none => simp
  | some q =>
    rw [Option.bind_some]
    constructor
    · intro taken
      split at taken
      · next integral =>
        cases taken
        exact ⟨congrArg some (Rat.coe_int_num_of_den_eq_one integral.1).symm, integral.2⟩
      · cases taken
    · rintro ⟨same, small⟩
      cases same
      exact if_pos ⟨rfl, small⟩

/-! ### What is read of a request -/

namespace DemoRequest

variable (read : Text → Option Address)

/-- What a request asks for. -/
def args (sender : Address) : DemoRequest → Option SendTxArgs
  | transfer recipient amount =>
    (read recipient).bind fun recipient => amount.integer.map fun value =>
      ⟨sender, some recipient, none, none, some value, "", none⟩
  | deployContract code => some ⟨sender, none, some 1000000, some 0, none, stringOf code, none⟩
  | contribute contract callData amount =>
    (read contract).bind fun contract => amount.integer.map fun value =>
      ⟨sender, some contract, none, none, some value, stringOf callData, none⟩
  | checkGoalReached contract callData | settle contract callData =>
    (read contract).map fun contract => ⟨sender, some contract, none, none, some 0, stringOf callData, none⟩

/-- The texts are hexadecimal, and the amounts finite. -/
def Proper : DemoRequest → Prop
  | transfer recipient amount => IsHex recipient ∧ amount.Finite
  | deployContract code => IsHex code
  | contribute contract callData amount => IsHex contract ∧ IsHex callData ∧ amount.Finite
  | checkGoalReached contract callData | settle contract callData => IsHex contract ∧ IsHex callData

end DemoRequest

/-- A value in a flat object. -/
@[simp] def Json.literal (numberText : JsNumber → Text) : Json → Literal
  | .string s => .string s
  | .number x => .number (numberText x)
  | _ => .number []

def DemoRequest.literals (json : JsonBigint) (sender : Text) (request : DemoRequest) : List (Text × Literal) :=
  (request.tx (.string sender)).map fun member => (member.1, member.2.literal json.numberText)

/-! ### The texts of a request -/

/-- A member of a flat object: its key is no index, and nothing in it is escaped. -/
def Flat (member : Text × Json) : Prop :=
  Unescaped member.1 ∧ indexOf member.1 = none ∧
    match member.2 with
    | .string s => Unescaped s
    | .number _ => True
    | _ => False

/-- What is used of `stringify`: a flat object is written as it stands, and a number as digits alone exactly
if it is an integer below 10^21. -/
structure JsonBigint.WriteLaws (json : JsonBigint) : Prop where
  stringify_flat : ∀ members, members ≠ [] → (members.map Prod.fst).Nodup →
    (∀ member ∈ members, Flat member) → json.stringify (.object none members) =
      flatText (members.map fun member => (member.1, member.2.literal json.numberText))
  numberText_integer : ∀ x : JsNumber, x.Finite → goInt (json.numberText x) = x.integer

theorem enumerate_names {α : Type} {members : List (Text × α)} (names : ∀ member ∈ members, indexOf member.1 = none) :
    enumerate members = members := by
  have none : members.filter (fun member => (indexOf member.1).isSome) = [] :=
    List.filter_eq_nil_iff.mpr fun member among => by simp [names member among]
  have all : members.filter (fun member => (indexOf member.1).isNone) = members :=
    List.filter_eq_self.mpr fun member among => by simp [names member among]
  rw [enumerate, none, all]
  rfl

/-- `json-bigint.js` writes a flat object as it stands. -/
theorem stringify_flat (shown : ℚ → Numeral) {members : List (Text × Json)} (some : members ≠ [])
    (flat : ∀ member ∈ members, Flat member) :
    stringify shown [] (.object none members) =
      flatText (members.map fun member => (member.1, member.2.literal (JsNumber.toText shown))) := by
  have order : enumerate (members.map fun member => (member.1, str shown [] [] member.2)) =
      members.map fun member => (member.1, str shown [] [] member.2) := by
    apply enumerate_names
    intro member among
    obtain ⟨source, present, rfl⟩ := List.mem_map.mp among
    exact (flat source present).2.1
  have each : ∀ member ∈ members, quote member.1 ++ [unit ':'] ++ str shown [] [] member.2 =
      quoted member.1 ++ unit ':' :: (member.2.literal (JsNumber.toText shown)).text := by
    rintro ⟨key, v⟩ among
    obtain ⟨name, -, value⟩ := flat _ among
    rw [quote_plain name, List.append_assoc]
    cases v with
    | string s =>
      show _ ++ ([unit ':'] ++ quote s) = _
      rw [quote_plain value]
      rfl
    | number x => rfl
    | null | bool | array | object => exact value.elim
  show wrap '{' '}' [] [] ((enumerate (strMembers shown [] [] members)).map fun member =>
    quote member.1 ++ [unit ':'] ++ member.2) = _
  rw [strMembers_eq, order, List.map_map, wrap, if_neg (by simpa using some), if_pos rfl, flatText, List.map_map]
  congr 3
  exact List.map_congr_left each

/-- `String(x)` writes the integers below 10^21, and no other number, as digits alone. -/
def ShowsIntegers (shown : ℚ → Numeral) : Prop :=
  ∀ q, |q| < 2 ^ 1024 → binary64.Holds |q| → ∀ v : ℤ, goInt (shown q).text = some v ↔ q = v ∧ |v| < 10 ^ 21

/-- What an integer field takes of a number that `json-bigint.js` wrote. -/
theorem goInt_amount {shown : ℚ → Numeral} (shows : ShowsIntegers shown) {x : JsNumber} (finite : x.Finite) :
    goInt (x.toText shown) = x.integer := by
  ext v
  rw [integer_iff]
  cases x with
  | number q =>
    refine (shows q finite.1 finite.2 v).trans (and_congr_left fun _ => ?_)
    simp [JsNumber.value]
  | big b => exact goInt_toText finite v

theorem bundle_writes {shown : ℚ → Numeral} (shows : ShowsIntegers shown) : (bundle shown).WriteLaws where
  stringify_flat _ some _ flat := stringify_flat shown some flat
  numberText_integer _ finite := goInt_amount shows finite

/-- The keys that the demo uses. -/
def demoKeys : List String := ["from", "to", "gas", "gasPrice", "gaz", "gazPrice", "value", "data"]

/-- The members that the demo sends are flat. -/
theorem request_flat {request : DemoRequest} (proper : request.Proper) {sender : Text} (hex : IsHex sender) :
    ∀ member ∈ request.tx (.string sender), Flat member := by
  have plain : demoKeys.all (fun key => (units key).all fun c => !escapable c) := by decide
  have names : demoKeys.all fun key => (indexOf (units key)).isNone := by decide
  have named : ∀ key ∈ demoKeys, Unescaped (units key) ∧ indexOf (units key) = none := by
    simp only [List.all_eq_true, Bool.not_eq_true', Option.isNone_iff_eq_none] at plain names
    exact fun key among => ⟨plain key among, names key among⟩
  have text : ∀ {key : String} {s : Text}, key ∈ demoKeys → IsHex s → Flat (units key, .string s) :=
    fun {key} _ among hex => ⟨(named key among).1, (named key among).2, hex_unescaped hex⟩
  have amount : ∀ {key : String} {x : JsNumber}, key ∈ demoKeys → Flat (units key, .number x) :=
    fun {key} _ among => ⟨(named key among).1, (named key among).2, trivial⟩
  cases request with
  | transfer recipient x =>
    simp only [DemoRequest.tx, List.forall_mem_cons]
    exact ⟨text (by decide) hex, text (by decide) proper.1, amount (by decide), by simp⟩
  | deployContract code =>
    simp only [DemoRequest.tx, numeric, List.forall_mem_cons]
    exact ⟨text (by decide) hex, amount (by decide), amount (by decide), text (by decide) proper, by simp⟩
  | contribute contract callData x =>
    simp only [DemoRequest.tx, numeric, List.forall_mem_cons]
    exact ⟨text (by decide) hex, text (by decide) proper.1, amount (by decide), amount (by decide), amount (by decide),
      text (by decide) proper.2.1, by simp⟩
  | checkGoalReached contract callData =>
    simp only [DemoRequest.tx, numeric, List.forall_mem_cons]
    exact ⟨text (by decide) hex, amount (by decide), text (by decide) proper.1, text (by decide) proper.2, by simp⟩
  | settle contract callData =>
    simp only [DemoRequest.tx, numeric, List.forall_mem_cons]
    exact ⟨text (by decide) hex, text (by decide) proper.1, amount (by decide), amount (by decide), amount (by decide),
      text (by decide) proper.2, by simp⟩

/-! ### The fields of a request -/

section Fields

variable (read : Text → Option Address) (args : SendTxArgs) (literal : Literal)

@[simp] theorem decode_from : decodeMember read args (units "from", literal) =
    (literal.address read).map fun address => { args with sender := address } := rfl

@[simp] theorem decode_to : decodeMember read args (units "to", literal) =
    (literal.address read).map fun address => { args with recipient := some address } := rfl

@[simp] theorem decode_gas : decodeMember read args (units "gas", literal) =
    literal.integer.map fun n => { args with gas := some n } := rfl

@[simp] theorem decode_gasPrice : decodeMember read args (units "gasPrice", literal) =
    literal.integer.map fun n => { args with gasPrice := some n } := rfl

@[simp] theorem decode_value : decodeMember read args (units "value", literal) =
    literal.integer.map fun n => { args with value := some n } := rfl

@[simp] theorem decode_data : decodeMember read args (units "data", literal) =
    literal.data.map fun data => { args with data } := rfl

/-- A misspelled name is passed over. -/
@[simp] theorem decode_gaz : decodeMember read args (units "gaz", literal) = some args := rfl

@[simp] theorem decode_gazPrice : decodeMember read args (units "gazPrice", literal) = some args := rfl

end Fields

theorem goInt_constant {json : JsonBigint} (writes : json.WriteLaws) {k : ℕ} (small : k ≤ 9007199254740992) :
    goInt (json.numberText (.number k)) = some (k : ℤ) := by
  have size : |(k : ℚ)| = k := abs_of_nonneg (Nat.cast_nonneg k)
  have finite : JsNumber.Finite (.number k) := by
    refine ⟨?_, by rw [size]; exact holds_nat small⟩
    rw [size]
    exact_mod_cast small.trans_lt (by decide +kernel : 9007199254740992 < 2 ^ 1024)
  rw [writes.numberText_integer _ finite, integer_iff]
  refine ⟨by simp [JsNumber.value], ?_⟩
  rw [Nat.abs_cast]
  exact_mod_cast small.trans_lt (by decide)

/-- **What the node reads of a request.** -/
theorem request_decoded {read : Text → Option Address} {json : JsonBigint} (writes : json.WriteLaws)
    {request : DemoRequest} (proper : request.Proper) {sender : Address} {text : Text}
    (found : read text = some sender) :
    decodeFields read (request.literals json text) = request.args read sender := by
  have million := goInt_constant writes (show 1000000 ≤ 9007199254740992 by decide)
  have zero := goInt_constant writes (show 0 ≤ 9007199254740992 by decide)
  rw [Nat.cast_ofNat] at million
  rw [Nat.cast_zero] at zero
  cases request with
  | transfer recipient amount =>
    have taken := writes.numberText_integer _ proper.2
    simp [decodeFields, DemoRequest.literals, DemoRequest.tx, DemoRequest.args, found, taken]
    cases read recipient <;> cases amount.integer <;> rfl
  | deployContract code =>
    simp [decodeFields, DemoRequest.literals, DemoRequest.tx, DemoRequest.args, numeric, found, million, zero]
  | contribute contract callData amount =>
    have taken := writes.numberText_integer _ proper.2.2
    simp [decodeFields, DemoRequest.literals, DemoRequest.tx, DemoRequest.args, numeric, found, taken]
    cases read contract <;> cases amount.integer <;> rfl
  | checkGoalReached contract callData =>
    simp [decodeFields, DemoRequest.literals, DemoRequest.tx, DemoRequest.args, numeric, found, zero]
    cases read contract <;> rfl
  | settle contract callData =>
    simp [decodeFields, DemoRequest.literals, DemoRequest.tx, DemoRequest.args, numeric, found, zero]
    cases read contract <;> rfl

/-! ### A request at a node -/

section Node

variable {World : Type} (geth : Geth World) (web : Web) (keyStore : KeyStore) (s : State World)

/-- The message of a call of the demo. -/
def callMessage (args : SendTxArgs) : Message :=
  { args.message 0 (web.fromHex args.data) with nonce := 0, checkNonce := false }

/-- A request that the node does: the message of the arguments is what the handler runs, or it is submitted
under the hash that the client is told, unless it is refused. -/
def Arrives (json : JsonBigint) (hexHash : Hash → String) (args : SendTxArgs) : Ask → Prop
  | .call body => executes geth web keyStore s (.call body) = [callMessage web args] ∧
      Runs geth web keyStore s (.call body) (callMessage web args)
  | .tx body =>
    Denied geth web keyStore s (.tx body) ∨
      ∃ t data, transactionHandler geth web keyStore s body =
          ⟨s, [data], [], .response (.json (.txRes (geth.txHash t)))⟩ ∧
        geth.readMessage data =
          .ok (t, args.message (s.getNonce geth args.sender) (web.fromHex args.data)) ∧
        sentHash json (marshalTxRes hexHash (geth.txHash t)) = .ok (some (units (hexHash (geth.txHash t))))

variable {geth web keyStore s}

/-- A request that cannot be decoded is refused. -/
theorem undecoded_refused {ask : Ask} (refused : ask.body.bind web.decodeArgs = none) :
    handle geth web keyStore s ask.request = .answer s (.httpError .decodingArgs) := by
  cases ask with
  | tx body =>
    show transactionHandler geth web keyStore s body = _
    rw [transactionHandler, show body.bind web.decodeArgs = none from refused]
  | call body =>
    show callHandler geth web s body = _
    rw [callHandler, show body.bind web.decodeArgs = none from refused]

/-- The answer to a submission as a document. -/
theorem marshalTxRes_doc (hexHash : Hash → String) (hash : Hash) :
    marshalTxRes hexHash hash = (Doc.object [(units "txHash", .string (units (hexHash hash)))]).text := by
  have first : units "\x7b\"txHash\":\"" = unit '{' :: (quoted (units "txHash") ++ [unit ':', unit '"']) := by
    decide
  have last : units "\"\x7d" = [unit '"', unit '}'] := rfl
  rw [marshalTxRes, first, last]
  simp [Doc.text, memberTexts, quoted]

/-- The hash that the client reads is the one that it is told. -/
theorem sentHash_read {json : JsonBigint} (parses : json.ParseLaws) {hexHash : Hash → String}
    (text : ∀ hash, IsHex (units (hexHash hash))) (hash : Hash) :
    sentHash json (marshalTxRes hexHash hash) = .ok (some (units (hexHash hash))) := by
  have key : Unescaped (units "txHash") := by decide
  have own : proto ∉ [units "txHash"] := by decide
  have plain : (Doc.object [(units "txHash", .string (units (hexHash hash)))]).Plain :=
    ⟨List.nodup_singleton _, own, key, hex_unescaped (text hash), trivial⟩
  have unmarked : unit '"' ∉ units (hexHash hash) := by
    intro among
    rcases text hash _ among with same | digit
    · exact absurd same (by decide)
    · exact absurd digit (by decide)
  rw [sentHash, marshalTxRes_doc, parses.parse_text _ plain]
  show Except.ok (some ((units (hexHash hash)).erase (unit '"'))) = _
  rw [List.erase_of_not_mem unmarked]

/-- What the handlers do with a request that was decoded. -/
theorem decoded_arrives (codec : geth.CodecLaws) (signing : SigningLaws geth web keyStore)
    {json : JsonBigint} (parses : json.ParseLaws) {hexHash : Hash → String}
    (text : ∀ hash, IsHex (units (hexHash hash))) {ask : Ask} {args : SendTxArgs}
    (decoded : ask.body.bind web.decodeArgs = some args) :
    Arrives geth web keyStore s json hexHash args ask := by
  cases ask with
  | call body => exact callHandler_hands geth keyStore s decoded
  | tx body =>
    rcases transactionHandler_cases geth web keyStore s body with
      ⟨error, denied⟩ | ⟨found, t, data, same, prepared, encoded, sent⟩
    · left
      have answered : handle geth web keyStore s (Ask.tx body).request = .answer s (.httpError error) := denied
      refine ⟨?_, ?_, ?_⟩
      · rw [answered]
        exact ⟨rfl, error, rfl⟩
      · rw [executes, answered]
        rfl
      · rw [answered]
        rfl
    · right
      obtain rfl := Option.some.inj (same.symm.trans decoded)
      exact ⟨t, data, sent, prepared_message codec signing prepared encoded, sentHash_read parses text _⟩

theorem ask_body (request : DemoRequest) (body : Option Bytes) : (request.ask body).body = body := by
  cases request <;> rfl

theorem args_sender {read : Text → Option Address} {sender : Address} {request : DemoRequest} {args : SendTxArgs}
    (found : request.args read sender = some args) : args.sender = sender := by
  cases request with
  | deployContract code =>
    cases found
    rfl
  | transfer recipient amount | contribute recipient callData amount =>
    obtain ⟨address, -, found⟩ := Option.bind_eq_some_iff.mp found
    obtain ⟨value, -, rfl⟩ := Option.map_eq_some_iff.mp found
    rfl
  | checkGoalReached contract callData | settle contract callData =>
    obtain ⟨address, -, rfl⟩ := Option.map_eq_some_iff.mp found
    rfl

/-- A request is sent in the name of the first account of a node. -/
theorem stx_sent {hex : Address → String} (text : HexText hex) {json : JsonBigint}
    (parses : json.ParseLaws) {account : JsonAccount} {others : List JsonAccount}
    (finite : ∀ one ∈ account :: others, FiniteAccount one) (request : DemoRequest) :
    request.stx json (marshalAccounts hex (account :: others)) =
      .ok (some (json.stringify (.object none (request.tx (.string (units (hex account.address))))))) := by
  rw [DemoRequest.stx, controlledAccounts, list_read text parses finite]
  rfl

/-- The names of the members of a request differ. -/
theorem request_names (request : DemoRequest) (sender : Json) : ((request.tx sender).map Prod.fst).Nodup := by
  cases request with
  | transfer recipient amount =>
    show [units "from", units "to", units "value"].Nodup
    decide
  | deployContract code =>
    show [units "from", units "gas", units "gasPrice", units "data"].Nodup
    decide
  | contribute contract callData amount =>
    show [units "from", units "to", units "gaz", units "gazPrice", units "value", units "data"].Nodup
    decide
  | checkGoalReached contract callData =>
    show [units "from", units "value", units "to", units "data"].Nodup
    decide
  | settle contract callData =>
    show [units "from", units "to", units "gaz", units "gazPrice", units "value", units "data"].Nodup
    decide

end Node

namespace Sample

/-! ### A transfer of the small chain -/

theorem exactNumeral_integers : ShowsIntegers exactNumeral := by
  intro q finite held v
  have den := holds_den held
  have whole : (exactNumeral q).whole ≠ [] := Decimal.digits_ne_nil _
  rw [goInt_text]
  by_cases plain : Nat.log 2 q.den = 0 ∧ q.num.natAbs < 10 ^ 21
  · have one : q.den = 1 := by rw [← den, plain.1, pow_zero]
    have amount : (if (exactNumeral q).negative then -(Decimal.value (exactNumeral q).whole : ℤ)
        else Decimal.value (exactNumeral q).whole) = q.num := by
      have digits : (exactNumeral q).whole = Decimal.digits (q.num.natAbs * 5 ^ Nat.log 2 q.den) := rfl
      have sign : (exactNumeral q).negative = decide (q < 0) := rfl
      rw [digits, sign, Decimal.value_digits, plain.1, pow_zero, mul_one]
      have order : q < 0 ↔ q.num < 0 := Rat.num_neg.symm
      simp only [order, decide_eq_true_eq]
      split <;> omega
    rw [if_pos ⟨rfl, if_pos plain, whole⟩, amount, Option.some_inj]
    constructor
    · rintro rfl
      refine ⟨(Rat.coe_int_num_of_den_eq_one one).symm, ?_⟩
      rw [Int.abs_eq_natAbs]
      exact_mod_cast plain.2
    · rintro ⟨same, -⟩
      rw [same, Rat.num_intCast]
  · have exponent : ¬ (exactNumeral q).exponent = none := by
      show ¬ (if _ then none else some _) = none
      rw [if_neg plain]
      rintro ⟨⟩
    rw [if_neg fun parts => exponent parts.2.1]
    refine iff_of_false (by rintro ⟨⟩) ?_
    rintro ⟨rfl, small⟩
    refine plain ⟨by simp, ?_⟩
    rw [Rat.num_intCast]
    rw [Int.abs_eq_natAbs] at small
    exact_mod_cast small

/-- `Address.UnmarshalJSON`. -/
def readAddress : Text → Option Address
  | zero :: mark :: digits =>
    if [zero, mark] = units "0x" then
      (Hex.bytes (digits.map fun c => Char.ofNat c.toNat)).bind fun data =>
        if data.length = 20 then some (.ofBytes 20 data) else none
    else none
  | _ => none

theorem bytes_digitsOf (data : Bytes) : Hex.bytes (data.flatMap digitsOf) = some data := by
  have digits : ∀ k < 16, Hex.digit (Nat.digitChar k) = some k := by decide
  induction data with
  | nil => rfl
  | cons byte data ih =>
    have below := byte.toNat_lt
    have whole : 16 * (byte.toNat / 16) + byte.toNat % 16 = byte.toNat := Nat.div_add_mod _ _
    rw [List.flatMap_cons, digitsOf, List.cons_append, List.cons_append, List.nil_append, Hex.bytes,
      digits _ (by omega), digits _ (by omega), ih]
    show some (UInt8.ofNat (16 * (byte.toNat / 16) + byte.toNat % 16) :: data) = _
    rw [whole, UInt8.ofNat_toNat]

theorem readAddress_hexOf (address : Address) : readAddress (units (hexOf address)) = some address := by
  have letters : ∀ k < 16, Char.ofNat (unit (Nat.digitChar k)).toNat = Nat.digitChar k := by decide
  have digits : ∀ data : Bytes,
      ((data.flatMap digitsOf).map unit).map (fun c => Char.ofNat c.toNat) = data.flatMap digitsOf := by
    intro data
    induction data with
    | nil => rfl
    | cons byte data ih =>
      have below := byte.toNat_lt
      rw [List.flatMap_cons, List.map_append, List.map_append, ih]
      simp [digitsOf, letters _ (show byte.toNat / 16 < 16 by omega), letters _ (show byte.toNat % 16 < 16 by omega)]
  have text : units (hexOf address) = unit '0' :: unit 'x' :: (address.bytes.flatMap digitsOf).map unit := by
    rw [units, hexOf, String.toList_ofList]
    rfl
  rw [text, readAddress, if_pos (by decide), digits, bytes_digitsOf, Option.bind_some, if_pos address.length_eq,
    FixedBytes.ofBytes_bytes]

def transfer : DemoRequest := .transfer (units (hexOf Sample.bob)) (.number 5)

end Sample

end EvmBabble.JsonBig
