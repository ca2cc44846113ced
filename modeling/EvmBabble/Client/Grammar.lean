/-
What the parser of `json-bigint.js` accepts, as a grammar.

It is that of JSON, and more: white space is every character up to the blank, numbers may begin with
zeros and leave out the digits on one side of the point, strings hold any characters, and a code
behind `\u` may be cut short by a character that is passed over. Keys do not repeat, apart from
`__proto__`, which sets the prototype of an object.

* `Spells` — a text spells a value.
* `parse_spells`, `spells_parse` — each direction.
* `parse_ends` — no parse uses up its rounds.
* `parse_iff` — **the parser accepts the texts that the grammar spells**, with the values it gives them.
-/

import EvmBabble.Client.JsonParse

namespace EvmBabble.JsonBig

open Library

/-! ### The grammar -/

/-- White space: the blank and every character below it. -/
def White (text : Text) : Prop := ∀ c ∈ text, c ≤ unit ' '

/-- The number that hexadecimal digits go on to write. -/
def hexValue (uffff : Nat) : Text → Option Nat
  | [] => some uffff
  | c :: rest => (hexDigit c).bind fun digit => hexValue (uffff * 16 + digit) rest

/-- What stands between the quotation marks. -/
inductive SpellsBody : Text → Text → Prop
  | nil : SpellsBody [] []
  | plain {c : UInt16} {string text : Text} (marks : c ≠ unit '"') (escapes : c ≠ unit '\\')
      (rest : SpellsBody string text) : SpellsBody (c :: string) (c :: text)
  | escape {c plain : UInt16} {string text : Text} (stands : escapee c = some plain)
      (rest : SpellsBody string text) : SpellsBody (plain :: string) (unit '\\' :: c :: text)
  | code {digits string text : Text} {uffff : Nat} (four : digits.length = 4)
      (read : hexValue 0 digits = some uffff) (rest : SpellsBody string text) :
      SpellsBody (UInt16.ofNat uffff :: string) (unit '\\' :: unit 'u' :: (digits ++ text))
  | short {digits string text : Text} {c : UInt16} {uffff : Nat} (few : digits.length < 4)
      (read : hexValue 0 digits = some uffff) (other : hexDigit c = none) (rest : SpellsBody string text) :
      SpellsBody (UInt16.ofNat uffff :: string) (unit '\\' :: unit 'u' :: (digits ++ c :: text))

/-- A string literal around its body. -/
def quoted (body : Text) : Text := unit '"' :: (body ++ [unit '"'])

mutual

/-- A text spells a value. -/
inductive Spells : Json → Text → Prop
  | null : Spells .null (units "null")
  | true : Spells (.bool true) (units "true")
  | false : Spells (.bool false) (units "false")
  | number {n : Numeral} {x : JsNumber} (begins : n.Begins) (read : n.read = some x) :
      Spells (.number x) n.text
  | string {string body : Text} (spelled : SpellsBody string body) : Spells (.string string) (quoted body)
  | emptyArray {w : Text} (white : White w) : Spells (.array []) (unit '[' :: (w ++ [unit ']']))
  | array {values : List Json} {text : Text} (elements : SpellsElements values text) :
      Spells (.array values) (unit '[' :: text)
  | emptyObject {w : Text} (white : White w) : Spells (.object none []) (unit '{' :: (w ++ [unit '}']))
  | object {object : Object} {text : Text} (spelled : SpellsMembers ⟨none, []⟩ object text) :
      Spells (.object object.prototype object.members) (unit '{' :: text)

/-- The values of an array, up to its end. -/
inductive SpellsElements : List Json → Text → Prop
  | last {v : Json} {w text w' : Text} (before : White w) (spelled : Spells v text) (after : White w') :
      SpellsElements [v] (w ++ (text ++ (w' ++ [unit ']'])))
  | more {v : Json} {values : List Json} {w text w' rest : Text} (before : White w) (spelled : Spells v text)
      (after : White w') (others : SpellsElements values rest) :
      SpellsElements (v :: values) (w ++ (text ++ (w' ++ unit ',' :: rest)))

/-- The members of an object that are still to come, up to its end, with what they make of it. -/
inductive SpellsMembers : Object → Object → Text → Prop
  | last {object : Object} {key body : Text} {v : Json} {w w₁ w₂ text w' : Text}
      (fresh : key ∉ object.keys) (before : White w) (named : SpellsBody key body)
      (white : White w₁) (white' : White w₂) (spelled : Spells v text) (after : White w') :
      SpellsMembers object (object.assign key v)
        (w ++ (quoted body ++ (w₁ ++ unit ':' :: (w₂ ++ (text ++ (w' ++ [unit '}']))))))
  | more {object whole : Object} {key body : Text} {v : Json} {w w₁ w₂ text w' rest : Text}
      (fresh : key ∉ object.keys) (before : White w) (named : SpellsBody key body)
      (white : White w₁) (white' : White w₂) (spelled : Spells v text) (after : White w')
      (others : SpellsMembers (object.assign key v) whole rest) :
      SpellsMembers object whole
        (w ++ (quoted body ++ (w₁ ++ unit ':' :: (w₂ ++ (text ++ (w' ++ unit ',' :: rest))))))

end

/-- A whole text spells a value, with white space around. -/
def SpellsText (v : Json) (source : Text) : Prop :=
  ∃ w text w', White w ∧ Spells v text ∧ White w' ∧ source = w ++ (text ++ w')

/-! ### How a text begins -/

/-- The first character of a value. -/
def Opens (c : UInt16) : Prop :=
  ¬ c ≤ unit ' ' ∧ c ≠ unit ']' ∧ c ≠ unit '}'

instance (c : UInt16) : Decidable (Opens c) := inferInstanceAs (Decidable (_ ∧ _ ∧ _))

/-- A numeral begins with a minus sign or a digit. -/
theorem numeral_opens {n : Numeral} (begins : n.Begins) :
    ∃ c rest, n.text = c :: rest ∧ (c = unit '-' ∨ (digitOf c).isSome) := by
  obtain ⟨negative, whole, fraction, exponent⟩ := n
  cases negative with
  | true => exact ⟨unit '-', _, rfl, .inl rfl⟩
  | false =>
    cases whole with
    | nil => rcases begins with minus | filled <;> contradiction
    | cons digit whole =>
      exact ⟨digitUnit digit, _, rfl, .inr (by rw [digitOf_digitUnit]; rfl)⟩

theorem opens_numeral {c : UInt16} (starts : c = unit '-' ∨ (digitOf c).isSome) : Opens c := by
  have each : ∀ digit, Opens (digitUnit digit) := by decide
  rcases starts with rfl | digit
  · decide
  · obtain ⟨digit, read⟩ := Option.isSome_iff_exists.mp digit
    rw [digitUnit_of read]
    exact each digit

/-- What is spelled begins neither with white space nor with a closing mark. -/
theorem spells_opens {v : Json} {text : Text} (spelled : Spells v text) :
    ∃ c rest, text = c :: rest ∧ Opens c := by
  cases spelled with
  | null => exact ⟨unit 'n', _, rfl, by decide⟩
  | true => exact ⟨unit 't', _, rfl, by decide⟩
  | false => exact ⟨unit 'f', _, rfl, by decide⟩
  | number begins read =>
    obtain ⟨c, rest, same, starts⟩ := numeral_opens begins
    exact ⟨c, rest, same, opens_numeral starts⟩
  | string spelled => exact ⟨unit '"', _, rfl, by decide⟩
  | emptyArray white => exact ⟨unit '[', _, rfl, by decide⟩
  | array elements => exact ⟨unit '[', _, rfl, by decide⟩
  | emptyObject white => exact ⟨unit '{', _, rfl, by decide⟩
  | object spelled => exact ⟨unit '{', _, rfl, by decide⟩

/-! ### What is read, piece by piece -/

/-- A sequence that succeeds has succeeded in both parts. -/
theorem bind_ok {ε α β : Type} {first : Except ε α} {next : α → Except ε β} {result : β}
    (done : first >>= next = .ok result) : ∃ value, first = .ok value ∧ next value = .ok result := by
  cases first with
  | error e => cases done
  | ok value => exact ⟨value, rfl, done⟩

theorem white_nil : White [] := fun _ among => by cases among

theorem starts_nil {p : UInt16 → Prop} : Starts p [] := fun _ first => by cases first

theorem white_append {w w' : Text} (first : White w) (second : White w') : White (w ++ w') := by
  intro c among
  rcases List.mem_append.mp among with front | back
  · exact first c front
  · exact second c back

/-- `white` reads all the white space there is. -/
theorem reads_white (s : Scan) :
    ∃ w, White w ∧ s.Reads w s.white ∧ Starts (¬ · ≤ unit ' ') s.white.left := by
  obtain ⟨index, left⟩ := s
  unfold Scan.white
  dsimp only
  induction left generalizing index with
  | nil => exact ⟨[], white_nil, .refl _, starts_nil⟩
  | cons c rest ih =>
    unfold whiteFrom
    split
    · next blank =>
      obtain ⟨w, white, reads, starts⟩ := ih (index + 1)
      refine ⟨c :: w, ?_, (reads_next (s := ⟨index, c :: rest⟩) rfl).append reads, starts⟩
      intro d among
      rcases List.mem_cons.mp among with rfl | later
      · exact blank
      · exact white d later
    · next dark =>
      refine ⟨[], white_nil, .refl _, ?_⟩
      intro d first
      cases first
      exact dark

theorem expect_reads {s after : Scan} {c : Char} (done : s.expect c = .ok after) :
    s.Reads [unit c] after := by
  unfold Scan.expect at done
  split at done
  · next here =>
    cases done
    exact reads_next here
  · cases done

/-- The letters of a word are read one by one. -/
theorem letters_reads {s after : Scan} {letters : List Char} (done : s.letters letters = .ok after) :
    s.Reads (letters.map unit) after := by
  induction letters generalizing s with
  | nil =>
    cases done
    exact .refl after
  | cons c rest ih =>
    obtain ⟨between, first, later⟩ := bind_ok done
    exact (expect_reads first).append (ih later)

/-- What has been read of a code, or of an escape, when the loop of `string` stands in a mode. -/
inductive Pending : Mode → Text → Prop
  | plain : Pending .plain []
  | escaped : Pending .escaped [unit '\\']
  | hex {after uffff : Nat} {digits : Text} (count : digits.length + after = 3)
      (read : hexValue 0 digits = some uffff) : Pending (.hex after uffff) (unit '\\' :: unit 'u' :: digits)

/-- Hexadecimal digits are read from left to right. -/
theorem hexValue_append {front back : Text} {first uffff : Nat} (read : hexValue first front = some uffff) :
    hexValue first (front ++ back) = hexValue uffff back := by
  induction front generalizing first with
  | nil =>
    cases read
    rfl
  | cons c rest ih =>
    obtain ⟨digit, here, later⟩ := Option.bind_eq_some_iff.mp read
    rw [List.cons_append, hexValue, here]
    exact ih later

/-- The loop of `string` reads what is spelled up to the closing mark. -/
theorem stringFrom_spells {unread : Text} {index : Nat} {mode : Mode} {before string pending : Text} {s : Scan}
    (stands : Pending mode pending) (done : stringFrom index mode before unread = .ok (string, s)) :
    ∃ text body, unread = text ++ unit '"' :: s.left ∧ s.index = index + text.length + 2 ∧
      string = before ++ body ∧ SpellsBody body (pending ++ text) := by
  induction unread generalizing index mode before pending with
  | nil =>
    cases mode <;> cases done
  | cons c rest ih =>
    have later : ∀ {mode : Mode} {more pending : Text}, Pending mode pending →
        stringFrom (index + 1) mode (before ++ more) rest = .ok (string, s) →
        ∃ text body, c :: rest = c :: text ++ unit '"' :: s.left ∧ s.index = index + (c :: text).length + 2 ∧
          string = before ++ (more ++ body) ∧ SpellsBody body (pending ++ text) := by
      intro mode more pending stands done
      obtain ⟨text, body, left, position, whole, spelled⟩ := ih stands done
      refine ⟨text, body, congrArg (c :: ·) left, ?_, ?_, spelled⟩
      · rw [position, List.length_cons]
        omega
      · rw [whole, List.append_assoc]
    cases stands with
    | plain =>
      unfold stringFrom at done
      split at done
      · next closes =>
        cases done
        exact ⟨[], [], by rw [closes]; rfl, rfl, (List.append_nil _).symm, .nil⟩
      · next marks =>
        split at done
        · next escapes =>
          rw [← List.append_nil before] at done
          obtain ⟨text, body, left, position, whole, spelled⟩ := later .escaped done
          exact ⟨c :: text, body, left, position, whole, by rw [escapes]; exact spelled⟩
        · next escapes =>
          obtain ⟨text, body, left, position, whole, spelled⟩ := later .plain done
          exact ⟨c :: text, c :: body, left, position, whole, .plain marks escapes spelled⟩
    | escaped =>
      unfold stringFrom at done
      split at done
      · next unicode =>
        rw [← List.append_nil before] at done
        have start : Pending (.hex 3 0) [unit '\\', unit 'u'] := .hex rfl rfl
        obtain ⟨text, body, left, position, whole, spelled⟩ := later start done
        exact ⟨c :: text, body, left, position, whole, by rw [unicode]; exact spelled⟩
      · split at done
        · next plain stands =>
          obtain ⟨text, body, left, position, whole, spelled⟩ := later .plain done
          exact ⟨c :: text, plain :: body, left, position, whole, .escape stands spelled⟩
        · cases done
    | @hex after uffff digits count read =>
      unfold stringFrom at done
      split at done
      · next digit more here =>
        rw [← List.append_nil before] at done
        have next : Pending (.hex more (uffff * 16 + digit)) (unit '\\' :: unit 'u' :: (digits ++ [c])) := by
          refine .hex ?_ ?_
          · rw [List.length_append, List.length_singleton]
            omega
          · rw [hexValue_append read, hexValue, here]
            rfl
        obtain ⟨text, body, left, position, whole, spelled⟩ := later next done
        refine ⟨c :: text, body, left, position, whole, ?_⟩
        rw [List.cons_append, List.cons_append, List.append_assoc] at spelled
        exact spelled
      · next digit here =>
        obtain ⟨text, body, left, position, whole, spelled⟩ := later .plain done
        refine ⟨c :: text, UInt16.ofNat (uffff * 16 + digit) :: body, left, position, whole, ?_⟩
        have four : (digits ++ [c]).length = 4 := by
          rw [List.length_append, List.length_singleton]
          omega
        have code : hexValue 0 (digits ++ [c]) = some (uffff * 16 + digit) := by
          rw [hexValue_append read, hexValue, here]
          rfl
        have spelled := SpellsBody.code four code spelled
        rw [List.append_assoc] at spelled
        exact spelled
      · next here =>
        obtain ⟨text, body, left, position, whole, spelled⟩ := later .plain done
        exact ⟨c :: text, UInt16.ofNat uffff :: body, left, position, whole,
          .short (by omega) read here spelled⟩

/-- A string that was read was spelled. -/
theorem string_spells {s after : Scan} {string : Text} (done : s.string = .ok (string, after)) :
    ∃ body, SpellsBody string body ∧ s.Reads (quoted body) after := by
  obtain ⟨index, left⟩ := s
  unfold Scan.string at done
  split at done
  · next here =>
    obtain ⟨text, body, unread, position, whole, spelled⟩ := stringFrom_spells .plain done
    cases left with
    | nil => cases here
    | cons c rest =>
      cases here
      have whole : string = body := whole
      have unread : rest = text ++ unit '"' :: after.left := unread
      refine ⟨text, whole ▸ spelled, ?_, ?_⟩
      · show unit '"' :: rest = unit '"' :: (text ++ [unit '"']) ++ after.left
        rw [unread, List.cons_append, List.append_assoc]
        rfl
      · rw [position, quoted, List.length_cons, List.length_append, List.length_singleton]
        exact Nat.add_assoc _ _ _
  · cases done

/-! ### What is read is spelled -/

/-- What a `value` reads is spelled, behind white space. -/
def Sound (value : Scan → Except Stop (Json × Scan)) : Prop :=
  ∀ s v after, value s = .ok (v, after) → ∃ w text, White w ∧ Spells v text ∧ s.Reads (w ++ text) after

/-- White space in front of an element belongs to it. -/
theorem elements_white {values : List Json} {w text : Text} (white : White w)
    (elements : SpellsElements values text) : SpellsElements values (w ++ text) := by
  cases elements with
  | last before spelled after =>
    rw [← List.append_assoc]
    exact .last (white_append white before) spelled after
  | more before spelled after others =>
    rw [← List.append_assoc]
    exact .more (white_append white before) spelled after others

/-- White space in front of a member belongs to it. -/
theorem members_white {object whole : Object} {w text : Text} (white : White w)
    (spelled : SpellsMembers object whole text) : SpellsMembers object whole (w ++ text) := by
  cases spelled with
  | last fresh before named white₁ white₂ spelled after =>
    rw [← List.append_assoc]
    exact .last fresh (white_append white before) named white₁ white₂ spelled after
  | more fresh before named white₁ white₂ spelled after others =>
    rw [← List.append_assoc]
    exact .more fresh (white_append white before) named white₁ white₂ spelled after others

section Nested

variable {value : Scan → Except Stop (Json × Scan)}

/-- The rounds of `array` read elements; by induction on the rounds. -/
theorem arrayFrom_spells (sound : Sound value) {rounds : Nat} {array values : List Json} {s after : Scan}
    (done : arrayFrom value rounds array s = .ok (values, after)) :
    ∃ more text, values = array ++ more ∧ SpellsElements more text ∧ s.Reads text after := by
  induction rounds generalizing array s with
  | zero => cases done
  | succ rounds ih =>
    unfold arrayFrom at done
    split at done
    · cases done
    · obtain ⟨⟨v, behind⟩, read, done⟩ := bind_ok done
      obtain ⟨w, text, white, spelled, reads⟩ := sound _ _ _ read
      obtain ⟨w', white', skips, -⟩ := reads_white behind
      dsimp only at done
      split at done
      · next closes =>
        cases done
        refine ⟨[v], _, rfl, .last white spelled white', ?_⟩
        rw [← List.append_assoc]
        exact reads.append (skips.append (reads_next closes))
      · obtain ⟨comma, expected, done⟩ := bind_ok done
        obtain ⟨more, rest, whole, elements, later⟩ := ih done
        obtain ⟨w₂, white₂, skips₂, -⟩ := reads_white comma
        refine ⟨v :: more, _, ?_, .more white spelled white' (elements_white white₂ elements), ?_⟩
        · rw [whole, List.append_assoc]
          rfl
        · rw [← List.append_assoc]
          exact reads.append (skips.append ((expect_reads expected).append (skips₂.append later)))

/-- An array that was read was spelled, empty or not. -/
theorem array_spells (sound : Sound value) {s after : Scan} {v : Json} (done : s.array value = .ok (v, after)) :
    ∃ text, Spells v text ∧ s.Reads text after := by
  unfold Scan.array at done
  obtain ⟨w, white, skips, -⟩ := reads_white s.next
  split at done
  · next opens =>
    split at done
    · next closes =>
      cases done
      exact ⟨_, .emptyArray white, (reads_next opens).append (skips.append (reads_next closes))⟩
    · obtain ⟨⟨values, behind⟩, read, done⟩ := bind_ok done
      cases done
      obtain ⟨more, text, whole, elements, reads⟩ := arrayFrom_spells sound read
      rw [List.nil_append] at whole
      cases whole
      exact ⟨_, .array (elements_white white elements), (reads_next opens).append (skips.append reads)⟩
  · cases done

/-- The rounds of `object` read members, with keys that the object does not have yet; by induction on the
rounds. -/
theorem objectFrom_spells (sound : Sound value) {rounds : Nat} {object whole : Object}
    {s after : Scan} (done : objectFrom value rounds object s = .ok (whole, after)) :
    ∃ text, SpellsMembers object whole text ∧ s.Reads text after := by
  induction rounds generalizing object s with
  | zero => cases done
  | succ rounds ih =>
    unfold objectFrom at done
    split at done
    · cases done
    · obtain ⟨⟨key, named⟩, read, done⟩ := bind_ok done
      obtain ⟨body, spelledKey, readsKey⟩ := string_spells read
      obtain ⟨colon, expected, done⟩ := bind_ok done
      obtain ⟨w₁, white₁, skips₁, -⟩ := reads_white named
      split at done
      · cases done
      · next fresh =>
        obtain ⟨⟨v, behind⟩, read, done⟩ := bind_ok done
        obtain ⟨w₂, text, white₂, spelled, reads⟩ := sound _ _ _ read
        obtain ⟨w', white', skips, -⟩ := reads_white behind
        have front : ∀ {more : Text} {last : Scan}, colon.Reads more last →
            s.Reads (quoted body ++ (w₁ ++ unit ':' :: more)) last :=
          fun later => readsKey.append (skips₁.append ((expect_reads expected).append later))
        dsimp only at done
        split at done
        · next closes =>
          cases done
          refine ⟨_, .last fresh white_nil spelledKey white₁ white₂ spelled white', front ?_⟩
          rw [← List.append_assoc]
          exact reads.append (skips.append (reads_next closes))
        · obtain ⟨comma, expected, done⟩ := bind_ok done
          obtain ⟨rest, others, later⟩ := ih done
          obtain ⟨w₃, white₃, skips₃, -⟩ := reads_white comma
          refine ⟨_, .more fresh white_nil spelledKey white₁ white₂ spelled white' (members_white white₃ others),
            front ?_⟩
          rw [← List.append_assoc]
          exact reads.append (skips.append ((expect_reads expected).append (skips₃.append later)))

/-- An object that was read was spelled, empty or not. -/
theorem object_spells (sound : Sound value) {s after : Scan} {v : Json} (done : s.object value = .ok (v, after)) :
    ∃ text, Spells v text ∧ s.Reads text after := by
  unfold Scan.object at done
  obtain ⟨w, white, skips, -⟩ := reads_white s.next
  split at done
  · next opens =>
    split at done
    · next closes =>
      cases done
      exact ⟨_, .emptyObject white, (reads_next opens).append (skips.append (reads_next closes))⟩
    · obtain ⟨⟨object, behind⟩, read, done⟩ := bind_ok done
      cases done
      obtain ⟨text, spelled, reads⟩ := objectFrom_spells sound read
      exact ⟨_, .object (members_white white spelled), (reads_next opens).append (skips.append reads)⟩
  · cases done

end Nested

/-- A word that was read is one of the three. -/
theorem word_spells {s after : Scan} {v : Json} (done : s.word = .ok (v, after)) :
    ∃ text, Spells v text ∧ s.Reads text after := by
  unfold Scan.word at done
  split at done
  · obtain ⟨behind, read, done⟩ := bind_ok done
    cases done
    exact ⟨_, .true, letters_reads read⟩
  · split at done
    · obtain ⟨behind, read, done⟩ := bind_ok done
      cases done
      exact ⟨_, .false, letters_reads read⟩
    · split at done
      · obtain ⟨behind, read, done⟩ := bind_ok done
        cases done
        exact ⟨_, .null, letters_reads read⟩
      · cases done

/-- A number that was read is that of a numeral. -/
theorem number_spells {s after : Scan} {v : Json} (begins : s.numeral.1.Begins)
    (done : s.number = .ok (v, after)) : ∃ text, Spells v text ∧ s.Reads text after := by
  unfold Scan.number at done
  split at done
  · cases done
  · next x read =>
    cases done
    exact ⟨_, .number begins read, numeral_reads s⟩

/-- A minus sign, or a digit, begins a numeral. -/
theorem numeral_begins {s : Scan} (starts : s.ch = some (unit '-') ∨ (s.ch.bind digitOf).isSome) :
    s.numeral.1.Begins := by
  rcases starts with minus | digit
  · left
    show s.minus.1 = true
    rw [Scan.minus, if_pos minus]
  · right
    obtain ⟨index, left⟩ := s
    cases left with
    | nil => cases digit
    | cons c rest =>
      obtain ⟨found, read⟩ := Option.isSome_iff_exists.mp digit
      have read : digitOf c = some found := read
      have other : ¬ Scan.ch ⟨index, c :: rest⟩ = some (unit '-') := by
        intro minus
        cases minus
        cases read
      show (Scan.minus ⟨index, c :: rest⟩).2.digits.1 ≠ []
      rw [Scan.minus, if_neg other, Scan.digits, digitsFrom, read]
      exact List.cons_ne_nil _ _

/-- Each branch of `value` reads what is spelled. -/
theorem dispatch_spells {value : Scan → Except Stop (Json × Scan)} (sound : Sound value) {s after : Scan}
    {v : Json} (done : s.dispatch value = .ok (v, after)) : ∃ text, Spells v text ∧ s.Reads text after := by
  unfold Scan.dispatch at done
  split at done
  · exact object_spells sound done
  · split at done
    · exact array_spells sound done
    · split at done
      · obtain ⟨⟨string, behind⟩, read, done⟩ := bind_ok done
        cases done
        obtain ⟨body, spelled, reads⟩ := string_spells read
        exact ⟨_, .string spelled, reads⟩
      · split at done
        · next minus => exact number_spells (numeral_begins (.inl minus)) done
        · split at done
          · next digit => exact number_spells (numeral_begins (.inr digit)) done
          · exact word_spells done

/-- **What is read is spelled.** -/
theorem value_sound (depth : Nat) : Sound (value depth) := by
  induction depth with
  | zero =>
    intro s v after done
    cases done
  | succ depth ih =>
    intro s v after done
    obtain ⟨w, white, skips, -⟩ := reads_white s
    obtain ⟨text, spelled, reads⟩ := dispatch_spells ih done
    exact ⟨w, text, white, spelled, skips.append reads⟩

/-- **What the parser accepts is spelled.** -/
theorem parse_spells {source : Text} {v : Json} (done : json_parse source = .ok v) : SpellsText v source := by
  obtain ⟨⟨result, s⟩, read, done⟩ := bind_ok done
  obtain ⟨w, text, white, spelled, reads⟩ := value_sound _ _ _ _ read
  obtain ⟨w', white', skips, -⟩ := reads_white s
  dsimp only at done
  split at done
  · cases done
  · next ends =>
    cases done
    have finished : s.white.left = [] := List.head?_eq_none_iff.mp (Option.not_isSome_iff_eq_none.mp ends)
    have whole : unit ' ' :: source = w ++ (text ++ w') := by
      have parts := reads.1
      rw [skips.1, finished, List.append_nil, List.append_assoc] at parts
      exact parts
    cases w with
    | nil =>
      obtain ⟨c, rest, rfl, opens⟩ := spells_opens spelled
      cases whole
      exact absurd (UInt16.le_refl (unit ' ')) opens.1
    | cons c w =>
      cases whole
      exact ⟨w, text, w', fun d among => white d (List.mem_cons_of_mem _ among), spelled, white', rfl⟩

/-! ### What is spelled is read, piece by piece -/

/-- `white` stops behind the white space. -/
theorem white_scans {w rest : Text} (white : White w) (starts : Starts (¬ · ≤ unit ' ') rest) (index : Nat) :
    Scan.white ⟨index, w ++ rest⟩ = ⟨index + w.length, rest⟩ := by
  show whiteFrom index (w ++ rest) = _
  induction w generalizing index with
  | nil =>
    cases rest with
    | nil => rfl
    | cons c rest => exact if_neg (starts c rfl)
  | cons c w ih =>
    have blank : c ≤ unit ' ' := white c List.mem_cons_self
    rw [List.cons_append, whiteFrom, if_pos blank, ih fun d among => white d (List.mem_cons_of_mem _ among),
      List.length_cons, Nat.add_assoc, Nat.add_comm 1]

theorem expect_scans (c : Char) (index : Nat) (rest : Text) :
    Scan.expect ⟨index, unit c :: rest⟩ c = .ok ⟨index + 1, rest⟩ :=
  if_pos rfl

/-- The letters of a word are accepted. -/
theorem letters_scans (letters : List Char) (index : Nat) (rest : Text) :
    Scan.letters ⟨index, letters.map unit ++ rest⟩ letters = .ok ⟨index + letters.length, rest⟩ := by
  induction letters generalizing index with
  | nil => rfl
  | cons c letters ih =>
    show (Scan.expect ⟨index, unit c :: (letters.map unit ++ rest)⟩ c >>= (Scan.letters · letters)) = _
    rw [expect_scans]
    show Scan.letters ⟨index + 1, letters.map unit ++ rest⟩ letters = _
    rw [ih, List.length_cons, Nat.add_assoc, Nat.add_comm 1]

/-- A digit of a code that is not the last. -/
theorem hex_more {c : UInt16} {digit : Nat} (here : hexDigit c = some digit) (index more uffff : Nat)
    (before rest : Text) :
    stringFrom index (.hex (more + 1) uffff) before (c :: rest) =
      stringFrom (index + 1) (.hex more (uffff * 16 + digit)) before rest := by
  conv_lhs => unfold stringFrom
  rw [here]

/-- The fourth digit of a code makes its character. -/
theorem hex_last {c : UInt16} {digit : Nat} (here : hexDigit c = some digit) (index uffff : Nat)
    (before rest : Text) :
    stringFrom index (.hex 0 uffff) before (c :: rest) =
      stringFrom (index + 1) .plain (before ++ [UInt16.ofNat (uffff * 16 + digit)]) rest := by
  conv_lhs => unfold stringFrom
  rw [here]

/-- A character that is no digit ends a code early, and is passed over. -/
theorem hex_none {c : UInt16} (here : hexDigit c = none) (index after uffff : Nat) (before rest : Text) :
    stringFrom index (.hex after uffff) before (c :: rest) =
      stringFrom (index + 1) .plain (before ++ [UInt16.ofNat uffff]) rest := by
  conv_lhs => unfold stringFrom
  rw [here]

/-- Four digits make a character. -/
theorem code_scans {digits : Text} {after uffff code : Nat} (count : digits.length = after + 1)
    (read : hexValue uffff digits = some code) (index : Nat) (before rest : Text) :
    stringFrom index (.hex after uffff) before (digits ++ rest) =
      stringFrom (index + digits.length) .plain (before ++ [UInt16.ofNat code]) rest := by
  induction digits generalizing index after uffff with
  | nil => cases count
  | cons c digits ih =>
    obtain ⟨digit, here, later⟩ := Option.bind_eq_some_iff.mp read
    cases after with
    | zero =>
      cases List.length_eq_zero_iff.mp (Nat.succ.inj count)
      cases later
      exact hex_last here index uffff before rest
    | succ after =>
      rw [List.cons_append, hex_more here, ih (Nat.succ.inj count) later, List.length_cons, Nat.add_assoc,
        Nat.add_comm 1]

/-- Fewer make one as well, and what ends them is passed over. -/
theorem short_scans {digits : Text} {c : UInt16} {after uffff code : Nat} (few : digits.length ≤ after)
    (read : hexValue uffff digits = some code) (other : hexDigit c = none) (index : Nat) (before rest : Text) :
    stringFrom index (.hex after uffff) before (digits ++ c :: rest) =
      stringFrom (index + (digits.length + 1)) .plain (before ++ [UInt16.ofNat code]) rest := by
  induction digits generalizing index after uffff with
  | nil =>
    cases read
    exact hex_none other index after code before rest
  | cons d digits ih =>
    obtain ⟨digit, here, later⟩ := Option.bind_eq_some_iff.mp read
    cases after with
    | zero => cases few
    | succ after =>
      rw [List.cons_append, hex_more here, ih (Nat.le_of_succ_le_succ few) later, List.length_cons]
      congr 1
      omega

/-- A body and its closing mark are read as the string that the body spells; by induction on the spelling. -/
theorem stringFrom_scans {body text : Text} (spelled : SpellsBody body text) (index : Nat) (before rest : Text) :
    stringFrom index .plain before (text ++ unit '"' :: rest) =
      .ok (before ++ body, ⟨index + text.length + 2, rest⟩) := by
  induction spelled generalizing index before with
  | nil =>
    rw [List.nil_append, stringFrom, if_pos rfl, List.append_nil]
    rfl
  | @plain c body text marks escapes spelled ih =>
    rw [List.cons_append, stringFrom, if_neg marks, if_neg escapes, ih, List.append_assoc, List.length_cons]
    congr 3
    omega
  | @escape c plain body text stands spelled ih =>
    have other : c ≠ unit 'u' := by
      rintro rfl
      cases stands
    rw [List.cons_append, stringFrom, if_neg (by decide), if_pos rfl, List.cons_append, stringFrom,
      if_neg other, stands]
    dsimp only
    rw [ih, List.append_assoc, List.length_cons, List.length_cons]
    congr 3
    omega
  | @code digits body text uffff four read spelled ih =>
    rw [List.cons_append, stringFrom, if_neg (by decide), if_pos rfl, List.cons_append, stringFrom,
      if_pos rfl, List.append_assoc, code_scans four read, ih, List.append_assoc, List.length_cons,
      List.length_cons, List.length_append]
    congr 3
    omega
  | @short digits body text c uffff few read other spelled ih =>
    rw [List.cons_append, stringFrom, if_neg (by decide), if_pos rfl, List.cons_append, stringFrom,
      if_pos rfl, List.append_assoc, List.cons_append, short_scans (Nat.le_of_lt_succ few) read other, ih,
      List.append_assoc, List.length_cons, List.length_cons, List.length_append, List.length_cons]
    congr 3
    omega

/-- A string literal is read as its string. -/
theorem string_scans {string body : Text} (spelled : SpellsBody string body) (index : Nat) (rest : Text) :
    Scan.string ⟨index, quoted body ++ rest⟩ = .ok (string, ⟨index + (quoted body).length, rest⟩) := by
  have parts : quoted body ++ rest = unit '"' :: (body ++ unit '"' :: rest) := by
    rw [quoted, List.cons_append, List.append_assoc]
    rfl
  rw [parts]
  show stringFrom index .plain [] (body ++ unit '"' :: rest) = _
  rw [stringFrom_scans spelled, quoted, List.length_cons, List.length_append]
  rfl

/-! ### What is spelled is read -/

/-- What may follow a value. -/
def Closes (c : UInt16) : Prop := c ≤ unit ' ' ∨ c = unit ',' ∨ c = unit ']' ∨ c = unit '}'

theorem digitOf_none {c : UInt16} (below : c < unit '0') : digitOf c = none := by
  refine if_neg fun within => ?_
  exact UInt16.not_lt.mpr within.1 below

instance (c : UInt16) : Decidable (Beyond c) := inferInstanceAs (Decidable (_ ∧ _ ∧ _ ∧ _ ∧ _ ∧ _))

/-- A character that closes a value ends a numeral. -/
theorem closes_beyond {c : UInt16} (closes : Closes c) : Beyond c := by
  rcases closes with blank | rfl | rfl | rfl
  · refine ⟨digitOf_none (UInt16.lt_of_le_of_lt blank (by decide)), ?_, ?_, ?_, ?_, ?_⟩
    all_goals
      rintro rfl
      revert blank
      decide
  · decide
  · decide
  · decide

theorem starts_white {p : UInt16 → Prop} {w rest : Text} (white : White w) (blank : ∀ c, c ≤ unit ' ' → p c)
    (starts : Starts p rest) : Starts p (w ++ rest) :=
  starts_append (fun c first => blank c (white c (List.mem_of_mem_head? first))) starts

/-- A numeral before a closing character is read whole. -/
theorem number_scans {n : Numeral} {x : JsNumber} (read : n.read = some x) {rest : Text}
    (closes : Starts Closes rest) (index : Nat) :
    Scan.number ⟨index, n.text ++ rest⟩ = .ok (.number x, ⟨index + n.text.length, rest⟩) := by
  rw [Scan.number, numeral_scans (closes.mono fun c => closes_beyond), read]

/-- A value is read by its first character. -/
theorem dispatch_number (value : Scan → Except Stop (Json × Scan)) {c : UInt16}
    (starts : c = unit '-' ∨ (digitOf c).isSome) (index : Nat) (rest : Text) :
    Scan.dispatch value ⟨index, c :: rest⟩ = Scan.number ⟨index, c :: rest⟩ := by
  have each : ∀ digit, digitUnit digit ≠ unit '{' ∧ digitUnit digit ≠ unit '[' ∧ digitUnit digit ≠ unit '"' ∧
      digitUnit digit ≠ unit '-' := by decide
  rcases starts with rfl | digit
  · rfl
  · obtain ⟨digit, read⟩ := Option.isSome_iff_exists.mp digit
    rw [digitUnit_of read]
    obtain ⟨brace, bracket, mark, minus⟩ := each digit
    have here : Scan.ch ⟨index, digitUnit digit :: rest⟩ = some (digitUnit digit) := rfl
    rw [Scan.dispatch, here, if_neg (brace ∘ Option.some.inj), if_neg (bracket ∘ Option.some.inj),
      if_neg (mark ∘ Option.some.inj), if_neg (minus ∘ Option.some.inj), Option.bind_some,
      digitOf_digitUnit]
    rfl

theorem starts_cons {p : UInt16 → Prop} {c : UInt16} {rest : Text} (holds : p c) : Starts p (c :: rest) := by
  intro d first
  cases first
  exact holds

/-- White space before a mark is passed over. -/
theorem mark_scans {w : Text} (white : White w) {c : Char} (dark : ¬ unit c ≤ unit ' ') (index : Nat)
    (rest : Text) : Scan.white ⟨index, w ++ unit c :: rest⟩ = ⟨index + w.length, unit c :: rest⟩ :=
  white_scans white (starts_cons dark) index

section Rounds

variable {value : Scan → Except Stop (Json × Scan)} {v : Json} {w rest left : Text} {index behind rounds : Nat}

/-- A round of `array` that meets the closing bracket. -/
theorem arrayFrom_last {array : List Json} (some : left ≠ []) (white : White w)
    (read : value ⟨index, left⟩ = .ok (v, ⟨behind, w ++ unit ']' :: rest⟩)) :
    arrayFrom value (rounds + 1) array ⟨index, left⟩ = .ok (array ++ [v], ⟨behind + w.length + 1, rest⟩) := by
  cases left with
  | nil => exact absurd rfl some
  | cons c left =>
    rw [arrayFrom, if_neg (by rintro ⟨⟩), read]
    show (if (Scan.white ⟨behind, w ++ unit ']' :: rest⟩).ch = _ then _ else _) = _
    rw [mark_scans white (by decide)]
    rfl

/-- A round of `array` that meets a comma. -/
theorem arrayFrom_more {array : List Json} (some : left ≠ []) (white : White w)
    (read : value ⟨index, left⟩ = .ok (v, ⟨behind, w ++ unit ',' :: rest⟩)) :
    arrayFrom value (rounds + 1) array ⟨index, left⟩ =
      arrayFrom value rounds (array ++ [v]) (Scan.white ⟨behind + w.length + 1, rest⟩) := by
  cases left with
  | nil => exact absurd rfl some
  | cons c left =>
    rw [arrayFrom, if_neg (by rintro ⟨⟩), read]
    show (if (Scan.white ⟨behind, w ++ unit ',' :: rest⟩).ch = _ then _ else _) = _
    rw [mark_scans white (by decide)]
    rfl

/-- A round of `object` up to the mark behind its member. -/
theorem objectFrom_member {object : Object} {key body w₁ : Text}
    (fresh : key ∉ object.keys) (named : SpellsBody key body) (white : White w₁)
    (read : value ⟨index + (quoted body).length + w₁.length + 1, left⟩ = .ok (v, ⟨behind, rest⟩)) :
    objectFrom value (rounds + 1) object ⟨index, quoted body ++ (w₁ ++ unit ':' :: left)⟩ =
      if (Scan.white ⟨behind, rest⟩).ch = some (unit '}') then
        .ok (object.assign key v, (Scan.white ⟨behind, rest⟩).next)
      else (Scan.white ⟨behind, rest⟩).expect ',' >>= fun s =>
        objectFrom value rounds (object.assign key v) s.white := by
  rw [objectFrom, if_neg (by rintro ⟨⟩), string_scans named]
  show (Scan.white ⟨index + (quoted body).length, w₁ ++ unit ':' :: left⟩).expect ':' >>= _ = _
  rw [mark_scans white (by decide), expect_scans]
  show (if key ∈ object.keys then _ else value _ >>= _) = _
  rw [if_neg fresh, read]
  rfl

/-- A round of `object` that meets the closing brace. -/
theorem objectFrom_last {object : Object} {key body w₁ : Text}
    (fresh : key ∉ object.keys) (named : SpellsBody key body) (white₁ : White w₁) (white : White w)
    (read : value ⟨index + (quoted body).length + w₁.length + 1, left⟩ = .ok (v, ⟨behind, w ++ unit '}' :: rest⟩)) :
    objectFrom value (rounds + 1) object ⟨index, quoted body ++ (w₁ ++ unit ':' :: left)⟩ =
      .ok (object.assign key v, ⟨behind + w.length + 1, rest⟩) := by
  rw [objectFrom_member fresh named white₁ read, mark_scans white (by decide)]
  rfl

/-- A round of `object` that meets a comma. -/
theorem objectFrom_more {object : Object} {key body w₁ : Text}
    (fresh : key ∉ object.keys) (named : SpellsBody key body) (white₁ : White w₁) (white : White w)
    (read : value ⟨index + (quoted body).length + w₁.length + 1, left⟩ = .ok (v, ⟨behind, w ++ unit ',' :: rest⟩)) :
    objectFrom value (rounds + 1) object ⟨index, quoted body ++ (w₁ ++ unit ':' :: left)⟩ =
      objectFrom value rounds (object.assign key v) (Scan.white ⟨behind + w.length + 1, rest⟩) := by
  rw [objectFrom_member fresh named white₁ read, mark_scans white (by decide)]
  rfl

theorem array_empty (value : Scan → Except Stop (Json × Scan)) (white : White w) (index : Nat) (rest : Text) :
    Scan.array value ⟨index, unit '[' :: (w ++ unit ']' :: rest)⟩ =
      .ok (.array [], ⟨index + 1 + w.length + 1, rest⟩) := by
  show (if (Scan.white ⟨index + 1, w ++ unit ']' :: rest⟩).ch = some (unit ']') then
    Except.ok (Json.array [], (Scan.white ⟨index + 1, w ++ unit ']' :: rest⟩).next) else _) = _
  rw [mark_scans white (by decide)]
  rfl

/-- An array that does not close at once goes into its rounds. -/
theorem array_filled {values : List Json} {after : Scan}
    (filled : (Scan.white ⟨index + 1, left⟩).ch ≠ some (unit ']'))
    (read : arrayFrom value (left.length + 2) [] (Scan.white ⟨index + 1, left⟩) = .ok (values, after)) :
    Scan.array value ⟨index, unit '[' :: left⟩ = .ok (.array values, after) := by
  show (if (Scan.white ⟨index + 1, left⟩).ch = some (unit ']') then _
    else arrayFrom value (left.length + 2) [] (Scan.white ⟨index + 1, left⟩) >>= _) = _
  rw [if_neg filled, read]
  rfl

theorem object_empty (value : Scan → Except Stop (Json × Scan)) (white : White w) (index : Nat) (rest : Text) :
    Scan.object value ⟨index, unit '{' :: (w ++ unit '}' :: rest)⟩ =
      .ok (.object none [], ⟨index + 1 + w.length + 1, rest⟩) := by
  show (if (Scan.white ⟨index + 1, w ++ unit '}' :: rest⟩).ch = some (unit '}') then
    Except.ok (Json.object none [], (Scan.white ⟨index + 1, w ++ unit '}' :: rest⟩).next) else _) = _
  rw [mark_scans white (by decide)]
  rfl

/-- An object that does not close at once goes into its rounds. -/
theorem object_filled {object : Object} {after : Scan}
    (filled : (Scan.white ⟨index + 1, left⟩).ch ≠ some (unit '}'))
    (read : objectFrom value (left.length + 2) ⟨none, []⟩ (Scan.white ⟨index + 1, left⟩) = .ok (object, after)) :
    Scan.object value ⟨index, unit '{' :: left⟩ = .ok (.object object.prototype object.members, after) := by
  show (if (Scan.white ⟨index + 1, left⟩).ch = some (unit '}') then _
    else objectFrom value (left.length + 2) ⟨none, []⟩ (Scan.white ⟨index + 1, left⟩) >>= _) = _
  rw [if_neg filled, read]
  rfl

end Rounds

/-- `white` stops where a spelled value begins. -/
theorem white_spelled {v : Json} {w text : Text} (white : White w) (spelled : Spells v text) (index : Nat)
    (rest : Text) : Scan.white ⟨index, w ++ (text ++ rest)⟩ = ⟨index + w.length, text ++ rest⟩ := by
  obtain ⟨c, more, rfl, dark, -⟩ := spells_opens spelled
  have starts : Starts (¬ · ≤ unit ' ') (c :: more ++ rest) := starts_cons dark
  exact white_scans white starts index

theorem spelled_append_ne {v : Json} {text : Text} (spelled : Spells v text) (rest : Text) : text ++ rest ≠ [] := by
  obtain ⟨c, more, rfl, -⟩ := spells_opens spelled
  exact List.cons_ne_nil _ _

/-- White space before a value is passed over. -/
theorem value_scans {v : Json} {w text rest : Text} {depth index : Nat} (white : White w) (spelled : Spells v text)
    (read : Scan.dispatch (value depth) ⟨index + w.length, text ++ rest⟩ =
      .ok (v, ⟨index + w.length + text.length, rest⟩)) :
    value (depth + 1) ⟨index, w ++ (text ++ rest)⟩ = .ok (v, ⟨index + w.length + text.length, rest⟩) := by
  rw [value, white_spelled white spelled, read]

/-- `value` at a value is what its branch makes of it. -/
theorem value_here {v : Json} {text rest : Text} {depth index : Nat} (spelled : Spells v text)
    (read : Scan.dispatch (value depth) ⟨index, text ++ rest⟩ = .ok (v, ⟨index + text.length, rest⟩)) :
    value (depth + 1) ⟨index, text ++ rest⟩ = .ok (v, ⟨index + text.length, rest⟩) :=
  value_scans white_nil spelled read

theorem closes_mark {w : Text} (white : White w) {c : UInt16} (closes : Closes c) (rest : Text) :
    Starts Closes (w ++ c :: rest) :=
  starts_white white (fun _ blank => .inl blank) (starts_cons closes)

theorem white_quoted {w body : Text} (white : White w) (index : Nat) (rest : Text) :
    Scan.white ⟨index, w ++ (quoted body ++ rest)⟩ = ⟨index + w.length, quoted body ++ rest⟩ :=
  mark_scans white (by decide) index (body ++ [unit '"'] ++ rest)

/-- Elements do not begin with a closing bracket. -/
theorem elements_filled {values : List Json} {text : Text} (elements : SpellsElements values text) (index : Nat)
    (rest : Text) : (Scan.white ⟨index, text ++ rest⟩).ch ≠ some (unit ']') := by
  have first : ∀ {v : Json} {w text rest : Text}, White w → Spells v text →
      (Scan.white ⟨index, w ++ (text ++ rest)⟩).ch ≠ some (unit ']') := by
    intro v w text rest white spelled
    rw [white_spelled white spelled]
    obtain ⟨c, more, rfl, -, other, -⟩ := spells_opens spelled
    exact other ∘ Option.some.inj
  cases elements with
  | last before spelled after =>
    rw [List.append_assoc, List.append_assoc]
    exact first before spelled
  | more before spelled after others =>
    rw [List.append_assoc, List.append_assoc]
    exact first before spelled

/-- Members do not begin with a closing brace. -/
theorem members_filled {object whole : Object} {text : Text} (spelled : SpellsMembers object whole text)
    (index : Nat) (rest : Text) :
    (Scan.white ⟨index, text ++ rest⟩).ch ≠ some (unit '}') := by
  have first : ∀ {w body rest : Text}, White w →
      (Scan.white ⟨index, w ++ (quoted body ++ rest)⟩).ch ≠ some (unit '}') := by
    intro w body rest white
    rw [white_quoted white]
    rintro ⟨⟩
  cases spelled with
  | last fresh before named white white' spelled after =>
    rw [List.append_assoc, List.append_assoc]
    exact first before
  | more fresh before named white white' spelled after others =>
    rw [List.append_assoc, List.append_assoc]
    exact first before

mutual

/-- **What is spelled is read**, with rounds enough for its length; by induction on the spelling, together
with the next two. -/
theorem spells_scans {v : Json} {text : Text} (spelled : Spells v text) (depth index : Nat) (rest : Text)
    (deep : text.length ≤ depth + 1) (closes : Starts Closes rest) :
    Scan.dispatch (value depth) ⟨index, text ++ rest⟩ = .ok (v, ⟨index + text.length, rest⟩) := by
  cases spelled with
  | null => exact congrArg (Functor.map (Json.null, ·)) (letters_scans ['n', 'u', 'l', 'l'] index rest)
  | true => exact congrArg (Functor.map (Json.bool true, ·)) (letters_scans ['t', 'r', 'u', 'e'] index rest)
  | false =>
    exact congrArg (Functor.map (Json.bool false, ·)) (letters_scans ['f', 'a', 'l', 's', 'e'] index rest)
  | number begins read =>
    obtain ⟨c, more, same, starts⟩ := numeral_opens begins
    rw [same, List.cons_append, dispatch_number _ starts, ← List.cons_append, ← same, number_scans read closes]
  | @string string body spelled =>
    exact congrArg (Functor.map fun (string, s) => (Json.string string, s)) (string_scans spelled index rest)
  | @emptyArray w white =>
    have read := array_empty (value depth) white index rest
    simp only [List.cons_append, List.append_assoc, List.nil_append, List.length_cons, List.length_append,
      List.length_nil]
    simp only [Nat.add_assoc, Nat.add_comm 1] at read ⊢
    exact read
  | @array values text elements =>
    rw [List.length_cons] at deep
    have read := elements_scans elements depth ((text ++ rest).length + 2) (index + 1) [] rest (by omega)
      (by rw [List.length_append]; omega)
    rw [List.cons_append, List.length_cons, ← Nat.add_assoc, Nat.add_right_comm]
    exact array_filled (elements_filled elements _ rest) read
  | @emptyObject w white =>
    have read := object_empty (value depth) white index rest
    simp only [List.cons_append, List.append_assoc, List.nil_append, List.length_cons, List.length_append,
      List.length_nil]
    simp only [Nat.add_assoc, Nat.add_comm 1] at read ⊢
    exact read
  | @object object text spelled =>
    rw [List.length_cons] at deep
    have read := members_scans spelled depth ((text ++ rest).length + 2) (index + 1) rest (by omega)
      (by rw [List.length_append]; omega)
    rw [List.cons_append, List.length_cons, ← Nat.add_assoc, Nat.add_right_comm]
    exact object_filled (members_filled spelled _ rest) read
termination_by text.length

theorem elements_scans {values : List Json} {text : Text} (elements : SpellsElements values text)
    (depth rounds index : Nat) (array : List Json) (rest : Text) (deep : text.length ≤ depth + 1)
    (many : text.length ≤ rounds) :
    arrayFrom (value depth) rounds array (Scan.white ⟨index, text ++ rest⟩) =
      .ok (array ++ values, ⟨index + text.length, rest⟩) := by
  cases elements with
  | @last v w text w' before spelled after =>
    simp only [List.length_append, List.length_singleton] at deep many ⊢
    have filled : 0 < text.length := List.length_pos_of_ne_nil (by simpa using spelled_append_ne spelled [])
    obtain ⟨depth, rfl⟩ := Nat.exists_eq_add_one.mpr (show 0 < depth by omega)
    obtain ⟨rounds, rfl⟩ := Nat.exists_eq_add_one.mpr (show 0 < rounds by omega)
    have read := spells_scans spelled depth (index + w.length) (w' ++ unit ']' :: rest) (by omega)
      (closes_mark after (.inr (.inr (.inl rfl))) rest)
    simp only [List.append_assoc, List.singleton_append]
    rw [white_spelled before spelled, arrayFrom_last (spelled_append_ne spelled _) after
      (value_here spelled read)]
    simp only [Nat.add_assoc]
  | @more v values w text w' others before spelled after elements =>
    simp only [List.length_append, List.length_cons] at deep many ⊢
    have filled : 0 < text.length := List.length_pos_of_ne_nil (by simpa using spelled_append_ne spelled [])
    obtain ⟨depth, rfl⟩ := Nat.exists_eq_add_one.mpr (show 0 < depth by omega)
    obtain ⟨rounds, rfl⟩ := Nat.exists_eq_add_one.mpr (show 0 < rounds by omega)
    have read := spells_scans spelled depth (index + w.length) (w' ++ unit ',' :: (others ++ rest)) (by omega)
      (closes_mark after (.inr (.inl rfl)) (others ++ rest))
    simp only [List.append_assoc, List.cons_append]
    rw [white_spelled before spelled, arrayFrom_more (spelled_append_ne spelled _) after
      (value_here spelled read), elements_scans elements (depth + 1) rounds _ _ rest (by omega) (by omega)]
    simp only [Nat.add_assoc, List.append_assoc, List.singleton_append, Nat.add_comm 1]
termination_by text.length

theorem members_scans {object whole : Object} {text : Text} (spelled : SpellsMembers object whole text)
    (depth rounds index : Nat) (rest : Text) (deep : text.length ≤ depth + 1) (many : text.length ≤ rounds) :
    objectFrom (value depth) rounds object (Scan.white ⟨index, text ++ rest⟩) =
      .ok (whole, ⟨index + text.length, rest⟩) := by
  cases spelled with
  | @last object key body v w w₁ w₂ text w' fresh before named white white' spelled after =>
    simp only [List.length_append, List.length_cons, List.length_nil] at deep many ⊢
    have filled : 0 < (quoted body).length := Nat.succ_pos _
    obtain ⟨depth, rfl⟩ := Nat.exists_eq_add_one.mpr (show 0 < depth by omega)
    obtain ⟨rounds, rfl⟩ := Nat.exists_eq_add_one.mpr (show 0 < rounds by omega)
    have read := spells_scans spelled depth (index + w.length + (quoted body).length + w₁.length + 1 + w₂.length)
      (w' ++ unit '}' :: rest) (by omega) (closes_mark after (.inr (.inr (.inr rfl))) rest)
    simp only [List.append_assoc, List.cons_append, List.nil_append]
    rw [white_quoted before, objectFrom_last fresh named white after (value_scans white' spelled read)]
    simp only [Nat.add_assoc, Nat.add_comm 1]
  | @more object whole key body v w w₁ w₂ text w' others fresh before named white white' spelled after later =>
    simp only [List.length_append, List.length_cons] at deep many ⊢
    have filled : 0 < (quoted body).length := Nat.succ_pos _
    obtain ⟨depth, rfl⟩ := Nat.exists_eq_add_one.mpr (show 0 < depth by omega)
    obtain ⟨rounds, rfl⟩ := Nat.exists_eq_add_one.mpr (show 0 < rounds by omega)
    have read := spells_scans spelled depth (index + w.length + (quoted body).length + w₁.length + 1 + w₂.length)
      (w' ++ unit ',' :: (others ++ rest)) (by omega) (closes_mark after (.inr (.inl rfl)) (others ++ rest))
    simp only [List.append_assoc, List.cons_append]
    rw [white_quoted before, objectFrom_more fresh named white after (value_scans white' spelled read),
      members_scans later (depth + 1) rounds _ rest (by omega) (by omega)]
    simp only [Nat.add_assoc, Nat.add_comm 1]
termination_by text.length

end

/-- **What is spelled the parser accepts.** -/
theorem spells_parse {source : Text} {v : Json} (spelled : SpellsText v source) : json_parse source = .ok v := by
  obtain ⟨w, text, w', white, spelled, white', rfl⟩ := spelled
  have blank : White (unit ' ' :: w) := by
    intro c among
    rcases List.mem_cons.mp among with rfl | later
    · exact UInt16.le_refl _
    · exact white c later
  have closes : Starts Closes w' := fun c first => .inl (white' c (List.mem_of_mem_head? first))
  have read := value_scans blank spelled (spells_scans spelled ((w ++ (text ++ w')).length + 1) (0 + (w.length + 1)) w'
    (by simp only [List.length_append]; omega) closes)
  have finish := white_scans white' starts_nil (0 + (w.length + 1) + text.length)
  rw [List.append_nil] at finish
  rw [json_parse]
  show (value _ ⟨0, unit ' ' :: w ++ (text ++ w')⟩ >>= _) = _
  rw [read]
  show (if (Scan.white ⟨0 + (w.length + 1) + text.length, w'⟩).ch.isSome = true then _ else _) = _
  rw [finish]
  rfl

/-! ### Every parse ends -/

/-- A sequence of parts that end ends. -/
theorem bind_ends {α β : Type} {first : Except Stop α} {next : α → Except Stop β} (ends : first ≠ .error .fuel)
    (later : ∀ a, first = .ok a → next a ≠ .error .fuel) : first >>= next ≠ .error .fuel := by
  cases first with
  | error stop => exact fun out => ends (congrArg Except.error (Except.error.inj out))
  | ok a => exact later a rfl

theorem error_ends {α : Type} (s : Scan) (message : Text) : (s.error message : Except Stop α) ≠ .error .fuel := by
  rintro ⟨⟩

theorem expect_ends (s : Scan) (c : Char) : s.expect c ≠ .error .fuel := by
  unfold Scan.expect
  split
  · rintro ⟨⟩
  · exact error_ends _ _

theorem letters_ends (s : Scan) (letters : List Char) : s.letters letters ≠ .error .fuel := by
  induction letters generalizing s with
  | nil => rintro ⟨⟩
  | cons c letters ih => exact bind_ends (expect_ends s c) fun between _ => ih between

/-- A string ends with the text; by induction on what is unread. -/
theorem stringFrom_ends (unread : Text) (index : Nat) (mode : Mode) (before : Text) :
    stringFrom index mode before unread ≠ .error .fuel := by
  induction unread generalizing index mode before with
  | nil => cases mode <;> exact error_ends _ _
  | cons c rest ih =>
    unfold stringFrom
    cases mode with
    | plain =>
      dsimp only
      split
      · rintro ⟨⟩
      · split <;> exact ih _ _ _
    | escaped =>
      dsimp only
      split
      · exact ih _ _ _
      · split
        · exact ih _ _ _
        · exact error_ends _ _
    | hex after uffff =>
      dsimp only
      split <;> exact ih _ _ _

theorem string_ends (s : Scan) : s.string ≠ .error .fuel := by
  unfold Scan.string
  split
  · exact stringFrom_ends _ _ _ _
  · exact error_ends _ _

theorem number_ends (s : Scan) : s.number ≠ .error .fuel := by
  unfold Scan.number
  split
  · exact error_ends _ _
  · rintro ⟨⟩

theorem word_ends (s : Scan) : s.word ≠ .error .fuel := by
  have spelled : ∀ (v : Json) (letters : List Char),
      (do return (v, ← s.letters letters) : Except Stop (Json × Scan)) ≠ .error .fuel :=
    fun v letters => bind_ends (letters_ends s letters) fun after _ => by rintro ⟨⟩
  unfold Scan.word
  split
  · exact spelled _ _
  · split
    · exact spelled _ _
    · split
      · exact spelled _ _
      · exact error_ends _ _

/-- What is read is no longer left. -/
theorem Scan.Reads.length {s after : Scan} {text : Text} (reads : s.Reads text after) :
    s.left.length = text.length + after.left.length := by
  rw [reads.1, List.length_append]

theorem white_length (s : Scan) : s.white.left.length ≤ s.left.length := by
  obtain ⟨w, -, reads, -⟩ := reads_white s
  rw [reads.length]
  exact Nat.le_add_left _ _

section Rounds

variable {value : Scan → Except Stop (Json × Scan)}

/-- A value that was read leaves less, since no value is spelled by an empty text. -/
theorem sound_shortens (sound : Sound value) {s after : Scan} {v : Json} (read : value s = .ok (v, after)) :
    after.left.length < s.left.length := by
  obtain ⟨w, text, -, spelled, reads⟩ := sound _ _ _ read
  obtain ⟨c, more, rfl, -⟩ := spells_opens spelled
  rw [reads.length, List.length_append, List.length_cons]
  omega

theorem expect_shortens {s after : Scan} {c : Char} (done : s.expect c = .ok after) :
    after.left.length < s.left.length := by
  rw [(expect_reads done).length]
  exact Nat.lt_add_of_pos_left Nat.one_pos

/-- Each round of `array` leaves less, so the rounds are not used up. -/
theorem arrayFrom_ends (sound : Sound value) {size : Nat}
    (ends : ∀ s : Scan, s.left.length < size → value s ≠ .error .fuel) (rounds : Nat) (array : List Json) (s : Scan)
    (many : s.left.length < rounds) (small : s.left.length < size) :
    arrayFrom value rounds array s ≠ .error .fuel := by
  induction rounds generalizing array s with
  | zero => cases many
  | succ rounds ih =>
    unfold arrayFrom
    split
    · exact error_ends _ _
    · apply bind_ends (ends s small)
      rintro ⟨v, behind⟩ read
      have shorter := sound_shortens sound read
      dsimp only
      split
      · rintro ⟨⟩
      · refine bind_ends (expect_ends _ _) fun comma expected => ?_
        have shorter' := expect_shortens expected
        have skips := white_length behind
        have skips' := white_length comma
        exact ih _ _ (by omega) (by omega)

/-- Each round of `object` leaves less, so the rounds are not used up. -/
theorem objectFrom_ends (sound : Sound value) {size : Nat}
    (ends : ∀ s : Scan, s.left.length < size → value s ≠ .error .fuel) (rounds : Nat)
    (object : Object) (s : Scan) (many : s.left.length < rounds) (small : s.left.length < size) :
    objectFrom value rounds object s ≠ .error .fuel := by
  induction rounds generalizing object s with
  | zero => cases many
  | succ rounds ih =>
    unfold objectFrom
    split
    · exact error_ends _ _
    · apply bind_ends (string_ends s)
      rintro ⟨key, named⟩ read
      obtain ⟨body, -, reads⟩ := string_spells read
      have shorter := reads.length
      refine bind_ends (expect_ends _ _) fun colon expected => ?_
      have shorter₁ := expect_shortens expected
      have skips₁ := white_length named
      split
      · exact error_ends _ _
      · apply bind_ends (ends colon (by omega))
        rintro ⟨v, behind⟩ read
        have shorter₂ := sound_shortens sound read
        dsimp only
        split
        · rintro ⟨⟩
        · refine bind_ends (expect_ends _ _) fun comma expected => ?_
          have shorter₃ := expect_shortens expected
          have skips := white_length behind
          have skips' := white_length comma
          exact ih _ _ (by omega) (by omega)

theorem next_shortens {s : Scan} {c : UInt16} (here : s.ch = some c) : s.next.white.left.length < s.left.length := by
  have length := (reads_next here).length
  have skips := white_length s.next
  rw [List.length_singleton] at length
  omega

/-- Each branch of `value` ends if the values inside do. -/
theorem dispatch_ends (sound : Sound value) {s : Scan}
    (ends : ∀ after : Scan, after.left.length < s.left.length → value after ≠ .error .fuel) :
    s.dispatch value ≠ .error .fuel := by
  unfold Scan.dispatch
  split
  · next opens =>
    unfold Scan.object
    rw [if_pos opens]
    split
    · rintro ⟨⟩
    · have shorter := next_shortens opens
      exact bind_ends (objectFrom_ends sound ends _ _ _ (by omega) shorter) fun a _ => by rintro ⟨⟩
  · split
    · next opens =>
      unfold Scan.array
      rw [if_pos opens]
      split
      · rintro ⟨⟩
      · have shorter := next_shortens opens
        exact bind_ends (arrayFrom_ends sound ends _ _ _ (by omega) shorter) fun a _ => by rintro ⟨⟩
    · split
      · exact bind_ends (string_ends s) fun a _ => by rintro ⟨⟩
      · split
        · exact number_ends s
        · split
          · exact number_ends s
          · exact word_ends s

end Rounds

/-- A depth beyond the length of the text is not used up. -/
theorem value_ends (depth : Nat) (s : Scan) (small : s.left.length < depth) : value depth s ≠ .error .fuel := by
  induction depth generalizing s with
  | zero => cases small
  | succ depth ih =>
    have skips := white_length s
    exact dispatch_ends (value_sound depth) fun after shorter => ih after (by omega)

/-- **Every parse ends** before its rounds are used up. -/
theorem parse_ends (source : Text) : json_parse source ≠ .error .fuel := by
  apply bind_ends (value_ends _ _ (Nat.lt_succ_self _))
  rintro ⟨result, s⟩ -
  dsimp only
  split
  · exact error_ends _ _
  · rintro ⟨⟩

/-- **The parser accepts the texts that the grammar spells**, and reads the values that they spell. -/
theorem parse_iff (source : Text) :
    (∀ v, json_parse source = .ok v ↔ SpellsText v source) ∧
      ((∃ v, SpellsText v source) ∨ ∃ e, json_parse source = .error (.error e)) := by
  refine ⟨fun v => ⟨parse_spells, spells_parse⟩, ?_⟩
  cases parsed : json_parse source with
  | ok v => exact .inl ⟨v, parse_spells parsed⟩
  | error stop =>
    cases stop with
    | error e => exact .inr ⟨e, rfl⟩
    | fuel => exact absurd parsed (parse_ends source)

end EvmBabble.JsonBig
