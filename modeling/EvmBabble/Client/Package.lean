/-
The package json-bigint, as the programs under node.js require it (`demo.js`, `routes/index.js`).

Its sources are not in the repository, so the package is a parameter. What is used of its `parse` is that
it reads JSON as it is documented to: a document as a program writes it, without white space and without
escapes, gives the value that it describes. The build that the page of the demo server loads is one such
package.

* `Doc` — documents, their texts and what they describe.
* `JsonBigint`, `ParseLaws` — the package, and what is used of `parse`.
* `bundle_parses` — `json-bigint.js` reads all documents; `bundle_exact_iff` says which integers it reads as
  themselves.
-/

import EvmBabble.Client.Numbers

namespace EvmBabble.JsonBig

open Library

/-! ### Documents -/

/-- A JSON document as a program writes it. -/
inductive Doc
  | null
  | string (s : Text)
  | integer (n : ℤ)
  | array (list : List Doc)
  | object (members : List (Text × Doc))

/-- Nothing in a text has to be escaped. -/
def Unescaped (text : Text) : Prop := ∀ c ∈ text, escapable c = false

-- Over the units of the text, not over all units there are.
instance unescapedDecidable (text : Text) : Decidable (Unescaped text) := List.decidableBAll _ text

mutual

/-- The text of a document. -/
def Doc.text : Doc → Text
  | .null => units "null"
  | .string s => quoted s
  | .integer n => (goNumeral n).text
  | .array list => unit '[' :: ([unit ','].intercalate (docTexts list) ++ [unit ']'])
  | .object members => unit '{' :: ([unit ','].intercalate (memberTexts members) ++ [unit '}'])

def docTexts : List Doc → List Text
  | [] => []
  | doc :: list => doc.text :: docTexts list

def memberTexts : List (Text × Doc) → List Text
  | [] => []
  | (key, doc) :: members => (quoted key ++ unit ':' :: doc.text) :: memberTexts members

end

section Values

-- what an integer is read as
variable (integer : ℤ → JsNumber)

mutual

/-- The value that a document describes. -/
def Doc.value : Doc → Json
  | .null => .null
  | .string s => .string s
  | .integer n => .number (integer n)
  | .array list => .array (docValues list)
  | .object members => .object none (memberValues members)

def docValues : List Doc → List Json
  | [] => []
  | doc :: list => doc.value :: docValues list

def memberValues : List (Text × Doc) → List (Text × Json)
  | [] => []
  | (key, doc) :: members => (key, doc.value) :: memberValues members

end

theorem docValues_map (list : List Doc) : docValues integer list = list.map (Doc.value integer) := by
  induction list with
  | nil => rfl
  | cons doc list ih => rw [docValues, ih, List.map_cons]

theorem memberValues_keys (members : List (Text × Doc)) :
    (memberValues integer members).map Prod.fst = members.map Prod.fst := by
  induction members with
  | nil => rfl
  | cons member members ih => rw [memberValues, List.map_cons, List.map_cons, ih]

end Values

theorem docTexts_map (list : List Doc) : docTexts list = list.map Doc.text := by
  induction list with
  | nil => rfl
  | cons doc list ih => rw [docTexts, ih, List.map_cons]

mutual

/-- A document that stands for itself: nothing is escaped, the integers are numbers at all for the clients,
and the keys of an object differ and none of them is `__proto__`. -/
def Doc.Plain : Doc → Prop
  | .null => True
  | .string s => Unescaped s
  | .integer n => Sized n
  | .array list => PlainDocs list
  | .object members => (members.map Prod.fst).Nodup ∧ proto ∉ members.map Prod.fst ∧ PlainMembers members

def PlainDocs : List Doc → Prop
  | [] => True
  | doc :: list => doc.Plain ∧ PlainDocs list

def PlainMembers : List (Text × Doc) → Prop
  | [] => True
  | (key, doc) :: members => Unescaped key ∧ doc.Plain ∧ PlainMembers members

end

theorem plainDocs_iff {list : List Doc} : PlainDocs list ↔ ∀ doc ∈ list, doc.Plain := by
  induction list with
  | nil => exact iff_of_true trivial (List.forall_mem_nil _)
  | cons doc list ih => rw [PlainDocs, List.forall_mem_cons, ih]

/-! ### The package -/

/-- `parse`, `stringify`, and how it reads an integer and writes a number. -/
structure JsonBigint where
  parse : Text → Except Stop Json
  stringify : Json → Text
  integer : ℤ → JsNumber
  numberText : JsNumber → Text

namespace JsonBigint

variable (json : JsonBigint)

/-- An integer that is read as itself. -/
def Exact (n : ℤ) : Prop := (json.integer n).value = some (n : ℚ)

/-- What is used of `parse`: a document gives the value that it describes. -/
structure ParseLaws : Prop where
  parse_text : ∀ doc : Doc, doc.Plain → json.parse doc.text = .ok (doc.value json.integer)

end JsonBigint

/-! ### The build under `public/javascripts` -/

/-- `json-bigint.js`, with a text for each number. -/
def bundle (shown : ℚ → Numeral) : JsonBigint where
  parse := json_parse
  stringify := stringify shown []
  integer n := ((goNumeral n).read).getD (.number 0)
  numberText := JsNumber.toText shown

/-- A text without marks stands for itself. -/
theorem plain_spells {text : Text} (plain : ∀ c ∈ text, c ≠ unit '"' ∧ c ≠ unit '\\') : SpellsBody text text := by
  induction text with
  | nil => exact .nil
  | cons c text ih =>
    obtain ⟨marks, escapes⟩ := plain c List.mem_cons_self
    exact .plain marks escapes (ih fun d among => plain d (List.mem_cons_of_mem _ among))

theorem unescaped_spells {text : Text} (unescaped : Unescaped text) : SpellsBody text text := by
  refine plain_spells fun c among => ⟨?_, ?_⟩
  · rintro rfl
    exact absurd (unescaped _ among) (by decide)
  · rintro rfl
    exact absurd (unescaped _ among) (by decide)

/-- Nothing is escaped in a text without special characters. -/
theorem quote_plain {text : Text} (plain : Unescaped text) : quote text = quoted text := by
  have same : text.flatMap quoteUnit = text := by
    induction text with
    | nil => rfl
    | cons c text ih =>
      rw [List.flatMap_cons, ih fun d among => plain d (List.mem_cons_of_mem _ among), quoteUnit,
        plain c List.mem_cons_self]
      rfl
  rw [quote, same]

section Bundle

variable (shown : ℚ → Numeral)

theorem bundle_integer {n : ℤ} (sized : Sized n) : (goNumeral n).read = some ((bundle shown).integer n) := by
  obtain ⟨x, read, -⟩ := goNumeral_read sized
  show _ = some (((goNumeral n).read).getD _)
  rw [read, Option.getD_some]

/-- Which integers `json-bigint.js` reads as themselves. -/
theorem bundle_exact_iff {n : ℤ} (sized : Sized n) :
    (bundle shown).Exact n ↔ n.natAbs ≠ 9007199254740993 := by
  obtain ⟨x, read, exact_iff⟩ := goNumeral_read sized
  rw [JsonBigint.Exact, ← Option.some.inj (read.symm.trans (bundle_integer shown sized))]
  exact exact_iff

mutual

/-- Documents are spelled. -/
theorem doc_spells : ∀ {doc : Doc}, doc.Plain → Spells (doc.value (bundle shown).integer) doc.text
  | .null, _ => .null
  | .string _, unescaped => .string (unescaped_spells unescaped)
  | .integer n, sized => .number (goNumeral_begins n) (bundle_integer shown sized)
  | .array [], _ => .emptyArray white_nil
  | .array (doc :: list), plain => by
    have joined := elements_join (docs_spell plain) white_nil white_nil white_nil (List.cons_ne_nil _ _)
    exact .array joined
  | .object [], _ => .emptyObject white_nil
  | .object (member :: members), ⟨distinct, own, plain⟩ => by
    have joined : SpellsMembers ⟨none, []⟩
        ⟨none, [] ++ memberValues (bundle shown).integer (member :: members)⟩ _ :=
      members_join (members_spell plain) white_nil white_nil white_nil white_nil (List.cons_ne_nil _ _)
        (by rwa [List.nil_append, memberValues_keys]) (by rwa [memberValues_keys])
    exact .object joined

theorem docs_spell : ∀ {list : List Doc}, PlainDocs list →
    List.Forall₂ Spells (docValues (bundle shown).integer list) (docTexts list)
  | [], _ => .nil
  | _ :: _, ⟨plain, others⟩ => .cons (doc_spells plain) (docs_spell others)

theorem members_spell : ∀ {members : List (Text × Doc)}, PlainMembers members →
    List.Forall₂ (Names []) (memberValues (bundle shown).integer members) (memberTexts members)
  | [], _ => .nil
  | (_, _) :: _, ⟨named, plain, others⟩ =>
    .cons ⟨_, doc_spells plain, by rw [quote_plain named]; rfl⟩ (members_spell others)

end

/-- **`json-bigint.js` reads every document** as the value that it describes. -/
theorem bundle_parses : (bundle shown).ParseLaws where
  parse_text _ plain := spells_parse
    ⟨[], _, [], white_nil, doc_spells shown plain, white_nil, (List.append_nil _).symm⟩

end Bundle

end EvmBabble.JsonBig
