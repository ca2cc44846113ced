/-
The parser that the page of the demo server loads (`json_parse` in `public/javascripts/json-bigint.js`, from
`views/layouts/single.hbs`), without a reviver. The programs under node.js require the package json-bigint
instead. The call stack has no limit here: in a browser, thousands of brackets in one another end with a
RangeError.

`value` is a place holder in the source as well: `array` and `object` take it as a parameter. The
functions that call each other, and the loops of `array` and `object`, take the number of rounds they
may still go.

An assignment to `__proto__` sets the prototype of an object, as long as the object inherits from
`Object.prototype`.

* `string`, `number`, `word`, `array`, `object`, `value`, `json_parse` — the functions of the source.
* `JsError` — what `error` throws.
-/

import EvmBabble.Client.Numeral

namespace EvmBabble.JsonBig

open Library

/-! ### Values and errors -/

/-- A value. An object has a prototype, none if it is `Object.prototype`, and its own members. -/
inductive Json
  | null
  | bool (b : Bool)
  | number (x : JsNumber)
  | string (s : Text)
  | array (values : List Json)
  | object (prototype : Option Json) (members : List (Text × Json))

/-- What `error` throws, apart from the text of the whole parse. -/
structure JsError where
  message : Text
  index : Nat
deriving DecidableEq

/-- A parse ends early with an error, or when its rounds are used up. -/
inductive Stop
  | error (e : JsError)
  | fuel
deriving DecidableEq

def Scan.error {α : Type} (s : Scan) (message : Text) : Except Stop α :=
  .error (.error ⟨message, s.index⟩)

/-- The current character as a string, which is empty at the end. -/
def Scan.here (s : Scan) : Text := s.ch.toList

/-- `next` with a character. -/
def Scan.expect (s : Scan) (c : Char) : Except Stop Scan :=
  if s.ch = some (unit c) then .ok s.next
  else s.error (units "Expected '" ++ [unit c] ++ units "' instead of '" ++ s.here ++ units "'")

/-! ### White space, words and numbers -/

def whiteFrom (index : Nat) : Text → Scan
  | [] => ⟨index, []⟩
  | c :: rest => if c ≤ unit ' ' then whiteFrom (index + 1) rest else ⟨index, c :: rest⟩

def Scan.white (s : Scan) : Scan := whiteFrom s.index s.left

/-- One `next` after another. -/
def Scan.letters (s : Scan) : List Char → Except Stop Scan
  | [] => .ok s
  | c :: rest => do (← s.expect c).letters rest

def Scan.word (s : Scan) : Except Stop (Json × Scan) :=
  if s.ch = some (unit 't') then do return (.bool true, ← s.letters ['t', 'r', 'u', 'e'])
  else if s.ch = some (unit 'f') then do return (.bool false, ← s.letters ['f', 'a', 'l', 's', 'e'])
  else if s.ch = some (unit 'n') then do return (.null, ← s.letters ['n', 'u', 'l', 'l'])
  else s.error (units "Unexpected '" ++ s.here ++ units "'")

def Scan.number (s : Scan) : Except Stop (Json × Scan) :=
  match s.numeral.1.read with
  | none => s.numeral.2.error (units "Bad number")
  | some x => .ok (.number x, s.numeral.2)

/-! ### Strings -/

def escapee (c : UInt16) : Option UInt16 :=
  if c = unit '"' then some (unit '"')
  else if c = unit '\\' then some (unit '\\')
  else if c = unit '/' then some (unit '/')
  else if c = unit 'b' then some 8
  else if c = unit 'f' then some 12
  else if c = unit 'n' then some 10
  else if c = unit 'r' then some 13
  else if c = unit 't' then some 9
  else none

/-- `parseInt` of one character in base 16. -/
def hexDigit (c : UInt16) : Option Nat :=
  if unit '0' ≤ c ∧ c ≤ unit '9' then some (c.toNat - 48)
  else if unit 'a' ≤ c ∧ c ≤ unit 'f' then some (c.toNat - 87)
  else if unit 'A' ≤ c ∧ c ≤ unit 'F' then some (c.toNat - 55)
  else none

/-- Where the loop of `string` stands; behind `\u`, how many digits come after the next one, and
`uffff`. -/
inductive Mode
  | plain
  | escaped
  | hex (after : Nat) (uffff : Nat)

/-- The loop of `string`, before a call of `next` that reads the first character of what is unread. A
digit that is none ends the code, and is passed over by the next call. -/
def stringFrom (index : Nat) : Mode → Text → Text → Except Stop (Text × Scan)
  | .hex _ _, _, [] => Scan.error ⟨index + 2, []⟩ (units "Bad string")
  | _, _, [] => Scan.error ⟨index + 1, []⟩ (units "Bad string")
  | .plain, string, c :: rest =>
    if c = unit '"' then .ok (string, ⟨index + 2, rest⟩)
    else if c = unit '\\' then stringFrom (index + 1) .escaped string rest
    else stringFrom (index + 1) .plain (string ++ [c]) rest
  | .escaped, string, c :: rest =>
    if c = unit 'u' then stringFrom (index + 1) (.hex 3 0) string rest
    else
      match escapee c with
      | some plain => stringFrom (index + 1) .plain (string ++ [plain]) rest
      | none => Scan.error ⟨index + 1, c :: rest⟩ (units "Bad string")
  | .hex after uffff, string, c :: rest =>
    match hexDigit c, after with
    | some digit, more + 1 => stringFrom (index + 1) (.hex more (uffff * 16 + digit)) string rest
    | some digit, 0 =>
      stringFrom (index + 1) .plain (string ++ [UInt16.ofNat (uffff * 16 + digit)]) rest
    | none, _ => stringFrom (index + 1) .plain (string ++ [UInt16.ofNat uffff]) rest

def Scan.string (s : Scan) : Except Stop (Text × Scan) :=
  if s.ch = some (unit '"') then stringFrom s.index .plain [] s.left.tail
  else s.error (units "Bad string")

/-! ### Arrays, objects and values -/

section Nested

variable (value : Scan → Except Stop (Json × Scan))

/-- The loop of `array`. -/
def arrayFrom : Nat → List Json → Scan → Except Stop (List Json × Scan)
  | 0, _, _ => .error .fuel
  | rounds + 1, array, s =>
    if s.ch = none then s.error (units "Bad array")
    else do
      let (v, s) ← value s
      if s.white.ch = some (unit ']') then return (array ++ [v], s.white.next)
      else arrayFrom rounds (array ++ [v]) (← s.white.expect ',').white

def Scan.array (s : Scan) : Except Stop (Json × Scan) :=
  if s.ch = some (unit '[') then
    if s.next.white.ch = some (unit ']') then .ok (.array [], s.next.white.next)
    else do
      let (array, s) ← arrayFrom value (s.left.length + 1) [] s.next.white
      return (.array array, s)
  else s.error (units "Bad array")

def proto : Text := units "__proto__"

/-- An object, while its members are parsed. -/
structure Object where
  prototype : Option Json
  members : List (Text × Json)

def Object.keys (object : Object) : List Text := object.members.map Prod.fst

/-- Whether a value inherits from `Object.prototype`. -/
def Json.rooted : Json → Bool
  | .null => false
  | .object (some prototype) _ => prototype.rooted
  | _ => true

/-- Whether `__proto__` takes a value: an object, with arrays and `BigNumber`s, or null. -/
def Json.isPrototype : Json → Bool
  | .null | .array _ | .object _ _ | .number (.big _) => true
  | _ => false

/-- `object[key] = value`. -/
def Object.assign (object : Object) (key : Text) (v : Json) : Object :=
  if key = proto ∧ object.prototype.all Json.rooted then
    if v.isPrototype then { object with prototype := some v } else object
  else { object with members := object.members ++ [(key, v)] }

/-- The loop of `object`. -/
def objectFrom : Nat → Object → Scan → Except Stop (Object × Scan)
  | 0, _, _ => .error .fuel
  | rounds + 1, object, s =>
    if s.ch = none then s.error (units "Bad object")
    else do
      let (key, s) ← s.string
      let s ← s.white.expect ':'
      if key ∈ object.keys then
        s.error (units "Duplicate key \"" ++ key ++ units "\"")
      else do
        let (v, s) ← value s
        if s.white.ch = some (unit '}') then return (object.assign key v, s.white.next)
        else objectFrom rounds (object.assign key v) (← s.white.expect ',').white

def Scan.object (s : Scan) : Except Stop (Json × Scan) :=
  if s.ch = some (unit '{') then
    if s.next.white.ch = some (unit '}') then .ok (.object none [], s.next.white.next)
    else do
      let (object, s) ← objectFrom value (s.left.length + 1) ⟨none, []⟩ s.next.white
      return (.object object.prototype object.members, s)
  else s.error (units "Bad object")

/-- `value`, behind its white space. -/
def Scan.dispatch (s : Scan) : Except Stop (Json × Scan) :=
  if s.ch = some (unit '{') then s.object value
  else if s.ch = some (unit '[') then s.array value
  else if s.ch = some (unit '"') then do
    let (string, s) ← s.string
    return (.string string, s)
  else if s.ch = some (unit '-') then s.number
  else if (s.ch.bind digitOf).isSome then s.number
  else s.word

end Nested

def value : Nat → Scan → Except Stop (Json × Scan)
  | 0, _ => .error .fuel
  | depth + 1, s => s.white.dispatch (value depth)

/-- The parse function: it starts at a blank before the text. -/
def json_parse (source : Text) : Except Stop Json := do
  let (result, s) ← value (source.length + 2) ⟨0, unit ' ' :: source⟩
  if s.white.ch.isSome then s.white.error (units "Syntax error")
  else return result

end EvmBabble.JsonBig
