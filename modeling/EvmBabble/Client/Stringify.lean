/-
The writer of `public/javascripts/json-bigint.js` (`json_stringify`), without a replacer.

The members of an object are written in the order in which the language enumerates them: first the keys
that are array indices, by their number, then the others, as they were added. `String(x)` of a number is
a parameter, of which only this is used: the text is read as this number again. An object that inherits
from a `BigNumber` is written as this number, as long as it has no members that hide those of the number.

* `quote`, `str`, `stringify` — the functions of the source.
* `Json.plain` — no prototype was set.
* `Made` — what a parse can give then: numbers that were read, keys that do not repeat.
* `str_spells` — what is written of such a value is spelled, with its members in order.
* `stringify_parses` — **a value that was parsed, written and parsed again** is the same up to the order of
  its members, and is written as the same text from then on.
-/

import EvmBabble.Client.Grammar
import Mathlib.Data.List.Sort
import Mathlib.Data.Nat.Prime.Basic

namespace EvmBabble.JsonBig

open Library

/-! ### Strings -/

/-- The ranges of `escapable`. -/
def escapable (c : UInt16) : Bool :=
  c = unit '\\' ∨ c = unit '"' ∨ c ≤ 0x1f ∨ 0x7f ≤ c ∧ c ≤ 0x9f ∨ c = 0xad ∨ 0x600 ≤ c ∧ c ≤ 0x604 ∨
    c = 0x70f ∨ c = 0x17b4 ∨ c = 0x17b5 ∨ 0x200c ≤ c ∧ c ≤ 0x200f ∨ 0x2028 ≤ c ∧ c ≤ 0x202f ∨
    0x2060 ≤ c ∧ c ≤ 0x206f ∨ c = 0xfeff ∨ 0xfff0 ≤ c

/-- `meta`: what stands behind the backslash. -/
def metaOf (c : UInt16) : Option UInt16 :=
  if c = 8 then some (unit 'b')
  else if c = 9 then some (unit 't')
  else if c = 10 then some (unit 'n')
  else if c = 12 then some (unit 'f')
  else if c = 13 then some (unit 'r')
  else if c = unit '"' then some (unit '"')
  else if c = unit '\\' then some (unit '\\')
  else none

/-- A digit of `toString(16)`. -/
def hexUnit (digit : Fin 16) : UInt16 :=
  if digit < 10 then unit '0' + UInt16.ofNat digit else unit 'a' + UInt16.ofNat (digit - 10)

/-- The last four digits of a code in base 16. -/
def hexText (code : Nat) : Text :=
  [hexUnit (Fin.ofNat 16 (code / 4096)), hexUnit (Fin.ofNat 16 (code / 256)),
    hexUnit (Fin.ofNat 16 (code / 16)), hexUnit (Fin.ofNat 16 code)]

def quoteUnit (c : UInt16) : Text :=
  if escapable c then
    match metaOf c with
    | some mark => [unit '\\', mark]
    | none => unit '\\' :: unit 'u' :: hexText c.toNat
  else [c]

def quote (string : Text) : Text := quoted (string.flatMap quoteUnit)

/-! ### The order of the members -/

/-- The number of a key that is an array index. -/
def indexOf (key : Text) : Option Nat :=
  match key.mapM digitOf with
  | none => none
  | some digits =>
    if Decimal.digits (Decimal.value digits) = digits ∧ Decimal.value digits < 4294967295 then
      some (Decimal.value digits)
    else none

section Members

variable {α β : Type}

def Earlier (first second : Text × α) : Prop := (indexOf first.1).getD 0 ≤ (indexOf second.1).getD 0

instance : DecidableRel (Earlier (α := α)) := fun _ _ => inferInstanceAs (Decidable (_ ≤ _))

/-- The members of an object in the order in which they are enumerated. -/
def enumerate (members : List (Text × α)) : List (Text × α) :=
  (members.filter fun member => (indexOf member.1).isSome).insertionSort Earlier ++
    members.filter fun member => (indexOf member.1).isNone

end Members

mutual

/-- A value with the members of every object in order. -/
def Json.enumerated : Json → Json
  | .null => .null
  | .bool b => .bool b
  | .number x => .number x
  | .string s => .string s
  | .array values => .array (enumeratedValues values)
  | .object prototype members => .object prototype (enumerate (enumeratedMembers members))

def enumeratedValues : List Json → List Json
  | [] => []
  | v :: values => v.enumerated :: enumeratedValues values

def enumeratedMembers : List (Text × Json) → List (Text × Json)
  | [] => []
  | (key, v) :: members => (key, v.enumerated) :: enumeratedMembers members

end

/-! ### Values -/

/-- The `BigNumber` that a value is, or inherits from. -/
def Json.inherits : Json → Option BigNumber
  | .number (.big b) => some b
  | .object (some prototype) _ => prototype.inherits
  | _ => none

mutual

/-- No object in a value had its prototype set. -/
def Json.plain : Json → Bool
  | .array values => plainValues values
  | .object prototype members => prototype.isNone && plainMembers members
  | _ => true

def plainValues : List Json → Bool
  | [] => true
  | v :: values => v.plain && plainValues values

def plainMembers : List (Text × Json) → Bool
  | [] => true
  | (_, v) :: members => v.plain && plainMembers members

end

def newline : Text := [unit '\n']

/-- The pieces joined with commas, between the marks. -/
def wrap (opens closes : Char) (mind gap : Text) (pieces : List Text) : Text :=
  if pieces = [] then [unit opens, unit closes]
  else if gap = [] then unit opens :: ([unit ','].intercalate pieces ++ [unit closes])
  else unit opens :: (newline ++ gap ++ (unit ',' :: newline ++ gap).intercalate pieces ++ newline ++ mind ++
    [unit closes])

section Writer

variable (shown : ℚ → Numeral) (indent : Text)

mutual

/-- `str`, with what is `gap` before a value. -/
def str (mind : Text) : Json → Text
  | .null => units "null"
  | .bool true => units "true"
  | .bool false => units "false"
  | .number x => x.toText shown
  | .string s => quote s
  | .array values => wrap '[' ']' mind (mind ++ indent) (strValues (mind ++ indent) values)
  | .object prototype members =>
    match prototype.bind Json.inherits with
    | some b => b.toText
    | none =>
      wrap '{' '}' mind (mind ++ indent) ((enumerate (strMembers (mind ++ indent) members)).map fun (key, v) =>
        quote key ++ (if mind ++ indent = [] then [unit ':'] else [unit ':', unit ' ']) ++ v)

def strValues (gap : Text) : List Json → List Text
  | [] => []
  | v :: values => str gap v :: strValues gap values

def strMembers (gap : Text) : List (Text × Json) → List (Text × Text)
  | [] => []
  | (key, v) :: members => (key, str gap v) :: strMembers gap members

end

/-- `stringify`, with the indentation that `space` gives. -/
def stringify (v : Json) : Text := str shown indent [] v

end Writer

/-! ### Strings read back -/

theorem hexDigit_hexUnit (digit : Fin 16) : hexDigit (hexUnit digit) = some (digit : Nat) := by
  revert digit
  decide

theorem hexValue_hexText {code : Nat} (small : code < 65536) : hexValue 0 (hexText code) = some code := by
  have digits : ∀ first : Nat, ∀ a b c d : Fin 16,
      hexValue first [hexUnit a, hexUnit b, hexUnit c, hexUnit d] =
        some ((((first * 16 + a) * 16 + b) * 16 + c) * 16 + d) := by
    intro first a b c d
    simp only [hexValue, hexDigit_hexUnit, Option.bind_some]
  rw [hexText, digits]
  simp only [Fin.ofNat]
  congr 1
  omega

theorem escapee_metaOf {c mark : UInt16} (found : metaOf c = some mark) : escapee mark = some c := by
  unfold metaOf at found
  split_ifs at found with h₁ h₂ h₃ h₄ h₅ h₆ h₇ <;> cases found <;> subst c <;> rfl

theorem quoteUnit_spells (c : UInt16) {string text : Text} (rest : SpellsBody string text) :
    SpellsBody (c :: string) (quoteUnit c ++ text) := by
  unfold quoteUnit
  split
  · split
    · next mark found => exact .escape (escapee_metaOf found) rest
    · have four : (hexText c.toNat).length = 4 := rfl
      have code := SpellsBody.code four (hexValue_hexText c.toNat_lt) rest
      rw [UInt16.ofNat_toNat] at code
      exact code
  · next plain =>
    refine .plain ?_ ?_ rest
    · rintro rfl
      exact plain (by decide)
    · rintro rfl
      exact plain (by decide)

theorem quote_spells (string : Text) : SpellsBody string (string.flatMap quoteUnit) := by
  induction string with
  | nil => exact .nil
  | cons c string ih => exact quoteUnit_spells c ih

/-! ### The order of the members -/

theorem enumeratedValues_eq (values : List Json) : enumeratedValues values = values.map Json.enumerated := by
  induction values with
  | nil => rfl
  | cons v values ih => exact congrArg (v.enumerated :: ·) ih

theorem enumeratedMembers_eq (members : List (Text × Json)) :
    enumeratedMembers members = members.map fun member => (member.1, member.2.enumerated) := by
  induction members with
  | nil => rfl
  | cons member members ih => exact congrArg ((member.1, member.2.enumerated) :: ·) ih

theorem strValues_eq (shown : ℚ → Numeral) (indent gap : Text) (values : List Json) :
    strValues shown indent gap values = values.map (str shown indent gap) := by
  induction values with
  | nil => rfl
  | cons v values ih => exact congrArg (str shown indent gap v :: ·) ih

theorem strMembers_eq (shown : ℚ → Numeral) (indent gap : Text) (members : List (Text × Json)) :
    strMembers shown indent gap members = members.map fun member => (member.1, str shown indent gap member.2) := by
  induction members with
  | nil => rfl
  | cons member members ih => exact congrArg ((member.1, str shown indent gap member.2) :: ·) ih

section Members

variable {α β : Type}

/-- The order depends on the keys alone. -/
theorem enumerate_map (f : α → β) (members : List (Text × α)) :
    enumerate (members.map fun member => (member.1, f member.2)) =
      (enumerate members).map fun member => (member.1, f member.2) := by
  rw [enumerate, enumerate, List.map_append, List.filter_map, List.filter_map]
  congr 1
  exact (List.map_insertionSort Earlier Earlier (fun member : Text × α => (member.1, f member.2)) _
    fun _ _ _ _ => Iff.rfl).symm

theorem enumerate_perm (members : List (Text × α)) : (enumerate members).Perm members := by
  apply ((List.perm_insertionSort _ _).append_right _).trans
  have other : (fun member : Text × α => (indexOf member.1).isNone) =
      fun member => !(indexOf member.1).isSome := by
    funext member
    cases indexOf member.1 <;> rfl
  rw [other]
  exact List.filter_append_perm _ _

instance : Std.Total (Earlier (α := α)) := ⟨fun _ _ => Nat.le_total _ _⟩

instance : IsTrans (Text × α) Earlier := ⟨fun _ _ _ => Nat.le_trans⟩

/-- Members in order stay in order. -/
theorem enumerate_enumerate (members : List (Text × α)) : enumerate (enumerate members) = enumerate members := by
  let numbered := (members.filter fun member => (indexOf member.1).isSome).insertionSort Earlier
  let others := members.filter fun member => (indexOf member.1).isNone
  have indices : ∀ member ∈ numbered, (indexOf member.1).isSome = true := fun member among =>
    (List.mem_filter.mp ((List.mem_insertionSort Earlier).mp among)).2
  have names : ∀ member ∈ others, (indexOf member.1).isNone = true := fun member among =>
    (List.mem_filter.mp among).2
  have first : (numbered ++ others).filter (fun member => (indexOf member.1).isSome) = numbered := by
    have away : others.filter (fun member => (indexOf member.1).isSome) = [] := by
      refine List.filter_eq_nil_iff.mpr fun member among found => ?_
      rw [Option.isNone_iff_eq_none.mp (names member among)] at found
      cases found
    rw [List.filter_append, List.filter_eq_self.mpr indices, away, List.append_nil]
  have last : (numbered ++ others).filter (fun member => (indexOf member.1).isNone) = others := by
    have away : numbered.filter (fun member => (indexOf member.1).isNone) = [] := by
      refine List.filter_eq_nil_iff.mpr fun member among found => ?_
      have index := indices member among
      rw [Option.isNone_iff_eq_none.mp found] at index
      cases index
    rw [List.filter_append, List.filter_eq_self.mpr names, away, List.nil_append]
  show ((numbered ++ others).filter _).insertionSort Earlier ++ (numbered ++ others).filter _ = numbered ++ others
  rw [first, last, (List.pairwise_insertionSort Earlier _).insertionSort_eq]

end Members

/-! ### What a parse can give -/

/-- The numbers were read, and no object holds a key twice or a member of the name `__proto__`. -/
inductive Made : Json → Prop
  | null : Made .null
  | bool (b : Bool) : Made (.bool b)
  | number {x : JsNumber} (read : x.Read) : Made (.number x)
  | string (s : Text) : Made (.string s)
  | array {values : List Json} (each : ∀ v ∈ values, Made v) : Made (.array values)
  | object {members : List (Text × Json)} (distinct : (members.map Prod.fst).Nodup)
      (own : proto ∉ members.map Prod.fst) (each : ∀ member ∈ members, Made member.2) :
      Made (.object none members)

theorem plainValues_iff (values : List Json) : plainValues values = true ↔ ∀ v ∈ values, v.plain = true := by
  induction values with
  | nil => exact iff_of_true rfl fun v among => by cases among
  | cons v values ih => rw [plainValues, Bool.and_eq_true, ih, List.forall_mem_cons]

theorem plainMembers_iff (members : List (Text × Json)) :
    plainMembers members = true ↔ ∀ member ∈ members, member.2.plain = true := by
  induction members with
  | nil => exact iff_of_true rfl fun member among => by cases among
  | cons member members ih => rw [plainMembers, Bool.and_eq_true, ih, List.forall_mem_cons]

/-- An assignment takes no member away, and no prototype. -/
theorem assign_keeps (object : Object) (key : Text) (v : Json) :
    object.members ⊆ (object.assign key v).members ∧
      ((object.assign key v).prototype = none → object.prototype = none) := by
  unfold Object.assign
  split
  · split
    · exact ⟨List.Subset.refl _, by rintro ⟨⟩⟩
    · exact ⟨List.Subset.refl _, id⟩
  · exact ⟨List.subset_append_left _ _, id⟩

theorem members_keep {object whole : Object} {text : Text} (spelled : SpellsMembers object whole text) :
    object.members ⊆ whole.members ∧ (whole.prototype = none → object.prototype = none) := by
  induction size : text.length using Nat.strong_induction_on generalizing object text with
  | h n ih =>
    cases spelled with
    | last fresh before named white white' spelled after => exact assign_keeps _ _ _
    | more fresh before named white white' spelled after others =>
      simp only [List.length_append, List.length_cons] at size
      obtain ⟨later, unset⟩ := ih _ (by omega) others rfl
      obtain ⟨now, unset'⟩ := assign_keeps object _ _
      exact ⟨fun member among => later (now among), unset' ∘ unset⟩

/-- An assignment of a key that an object does not have keeps it in order. -/
theorem assign_made {object : Object} {key : Text} {v : Json} (made : Made (.object none object.members))
    (unset : (object.assign key v).prototype = none) (fresh : key ∉ object.keys)
    (value : (key, v) ∈ (object.assign key v).members → Made v) :
    Made (.object none (object.assign key v).members) := by
  have before := (assign_keeps object key v).2 unset
  unfold Object.assign at unset value ⊢
  rw [before] at unset value ⊢
  split
  · next special =>
    split
    · exact made
    · exact made
  · next other =>
    rw [if_neg other] at value
    cases made with
    | object distinct own each =>
      refine .object ?_ ?_ ?_
      · rw [List.map_append]
        exact List.nodup_append'.mpr ⟨distinct, List.nodup_singleton _, List.disjoint_singleton.mpr fresh⟩
      · rw [List.map_append, List.mem_append, not_or]
        exact ⟨own, fun same => other ⟨(List.mem_singleton.mp same).symm, rfl⟩⟩
      · intro member among
        rcases List.mem_append.mp among with earlier | last
        · exact each member earlier
        · cases List.mem_singleton.mp last
          exact value (List.mem_append_right _ List.mem_cons_self)

mutual

theorem spells_made {v : Json} {text : Text} (spelled : Spells v text) (plain : v.plain = true) : Made v := by
  cases spelled with
  | null => exact .null
  | true => exact .bool _
  | false => exact .bool _
  | number begins read => exact .number (read_read read)
  | string spelled => exact .string _
  | emptyArray white => exact .array fun v among => by cases among
  | array elements => exact .array (elements_made elements ((plainValues_iff _).mp plain))
  | emptyObject white => exact .object List.nodup_nil (by rintro ⟨⟩) fun member among => by cases among
  | @object object text spelled =>
    obtain ⟨unset, each⟩ := Bool.and_eq_true_iff.mp plain
    have unset := Option.isNone_iff_eq_none.mp unset
    rw [unset]
    exact members_made spelled unset ((plainMembers_iff _).mp each)
      (.object List.nodup_nil (by rintro ⟨⟩) fun member among => by cases among)
termination_by text.length

theorem elements_made {values : List Json} {text : Text} (elements : SpellsElements values text)
    (plain : ∀ v ∈ values, v.plain = true) : ∀ v ∈ values, Made v := by
  cases elements with
  | last before spelled after =>
    intro v among
    cases List.mem_singleton.mp among
    exact spells_made spelled (plain _ among)
  | more before spelled after others =>
    intro v among
    rcases List.mem_cons.mp among with rfl | later
    · exact spells_made spelled (plain _ among)
    · exact elements_made others (fun v among => plain v (List.mem_cons_of_mem _ among)) v later
termination_by text.length

theorem members_made {object whole : Object} {text : Text} (spelled : SpellsMembers object whole text)
    (unset : whole.prototype = none) (plain : ∀ member ∈ whole.members, member.2.plain = true)
    (made : Made (.object none object.members)) : Made (.object none whole.members) := by
  cases spelled with
  | last fresh before named white white' spelled after =>
    exact assign_made made unset fresh fun among => spells_made spelled (plain _ among)
  | more fresh before named white white' spelled after others =>
    obtain ⟨kept, earlier⟩ := members_keep others
    exact members_made others unset plain
      (assign_made made (earlier unset) fresh fun among => spells_made spelled (plain _ (kept among)))
termination_by text.length

end

/-! ### What is written is spelled -/

theorem elements_join {values : List Json} {texts : List Text} (each : List.Forall₂ Spells values texts)
    {w w' w'' : Text} (first : White w) (between : White w') (last : White w'') (some : texts ≠ []) :
    SpellsElements values (w ++ ((unit ',' :: w').intercalate texts ++ (w'' ++ [unit ']']))) := by
  induction each generalizing w with
  | nil => exact absurd rfl some
  | @cons v text values texts spelled each ih =>
    cases texts with
    | nil =>
      cases each
      rw [List.intercalate_singleton]
      exact .last first spelled last
    | cons next texts =>
      rw [List.intercalate_cons_cons, List.append_assoc, List.append_assoc]
      exact .more first spelled white_nil (ih between (List.cons_ne_nil _ _))

/-- What is written of a member. -/
def Names (w : Text) (member : Text × Json) (text : Text) : Prop :=
  ∃ spelled, Spells member.2 spelled ∧ text = quote member.1 ++ (unit ':' :: w ++ spelled)

theorem members_join {prototype : Option Json} {object members : List (Text × Json)} {texts : List Text}
    {w w₁ w' w'' : Text} (each : List.Forall₂ (Names w₁) members texts) (first : White w) (white : White w₁)
    (between : White w') (last : White w'') (some : texts ≠ []) (distinct : ((object ++ members).map Prod.fst).Nodup)
    (own : proto ∉ members.map Prod.fst) :
    SpellsMembers ⟨prototype, object⟩ ⟨prototype, object ++ members⟩
      (w ++ ((unit ',' :: w').intercalate texts ++ (w'' ++ [unit '}']))) := by
  induction each generalizing w object with
  | nil => exact absurd rfl some
  | @cons member text members texts named each ih =>
    obtain ⟨key, v⟩ := member
    obtain ⟨spelled, value, rfl⟩ := named
    rw [List.map_cons, List.mem_cons, not_or] at own
    have assigned : Object.assign ⟨prototype, object⟩ key v = ⟨prototype, object ++ [(key, v)]⟩ :=
      if_neg fun special => own.1 special.1.symm
    have fresh : key ∉ Object.keys ⟨prototype, object⟩ := by
      rw [List.map_append] at distinct
      exact fun among => (List.nodup_append'.mp distinct).2.2 among (List.mem_cons_self)
    cases texts with
    | nil =>
      cases each
      rw [List.intercalate_singleton]
      have done := SpellsMembers.last fresh first (quote_spells key) white_nil white value last
      rw [assigned] at done
      simpa only [quote, List.append_assoc, List.cons_append, List.nil_append] using done
    | cons next texts =>
      rw [List.intercalate_cons_cons]
      have distinct : ((object ++ [(key, v)] ++ members).map Prod.fst).Nodup := by
        rwa [List.append_assoc, List.singleton_append]
      have later := ih between (List.cons_ne_nil _ _) distinct own.2
      rw [← assigned] at later
      have done := SpellsMembers.more fresh first (quote_spells key) white_nil white value white_nil later
      simpa only [quote, List.append_assoc, List.cons_append, List.nil_append, List.singleton_append] using done

theorem white_newline {gap : Text} (white : White gap) : White (newline ++ gap) := by
  refine white_append (fun c among => ?_) white
  cases List.mem_singleton.mp among
  decide

theorem wrap_elements {values : List Json} {texts : List Text} (each : List.Forall₂ Spells values texts)
    {mind gap : Text} (outer : White mind) (inner : White gap) :
    Spells (.array values) (wrap '[' ']' mind gap texts) := by
  unfold wrap
  split
  · next none =>
    cases none
    cases each
    exact .emptyArray white_nil
  · next some =>
    split
    · exact .array (elements_join each white_nil white_nil white_nil some)
    · have elements := elements_join each (white_newline inner) (white_newline inner) (white_newline outer) some
      simpa only [List.append_assoc, List.cons_append] using Spells.array elements

theorem wrap_members {members : List (Text × Json)} {texts : List Text} {w : Text}
    (each : List.Forall₂ (Names w) members texts) (white : White w) {mind gap : Text} (outer : White mind)
    (inner : White gap) (distinct : (members.map Prod.fst).Nodup) (own : proto ∉ members.map Prod.fst) :
    Spells (.object none members) (wrap '{' '}' mind gap texts) := by
  unfold wrap
  split
  · next none =>
    cases none
    cases each
    exact .emptyObject white_nil
  · next some =>
    split
    · exact .object (members_join each white_nil white white_nil white_nil some distinct own)
    · have spelled : SpellsMembers ⟨none, []⟩ ⟨none, [] ++ members⟩ _ := members_join each (white_newline inner) white
        (white_newline inner) (white_newline outer) some distinct own
      simpa only [List.append_assoc, List.cons_append, List.nil_append] using Spells.object spelled

/-- **What is written of a value is spelled**, with its members in order. -/
theorem str_spells {shown : ℚ → Numeral} (shows : ShowsNumbers shown) {indent : Text} (white : White indent)
    {v : Json} (made : Made v) {mind : Text} (outer : White mind) : Spells v.enumerated (str shown indent mind v) := by
  induction made generalizing mind with
  | null => exact .null
  | bool b =>
    cases b with
    | true => exact .true
    | false => exact .false
  | number read =>
    obtain ⟨n, same, again, begins⟩ := toText_read shows read
    rw [str, same]
    exact .number begins again
  | string s => exact .string (quote_spells s)
  | @array values each ih =>
    rw [str, strValues_eq, Json.enumerated, enumeratedValues_eq]
    refine wrap_elements ?_ outer (white_append outer white)
    rw [List.forall₂_map_left_iff, List.forall₂_map_right_iff, List.forall₂_same]
    exact fun v among => ih v among (white_append outer white)
  | @object members distinct own each ih =>
    have keys : ((enumerate members).map fun member => (member.1, member.2.enumerated)).map Prod.fst =
        (enumerate members).map Prod.fst := by
      rw [List.map_map]
      rfl
    have order := (enumerate_perm members).map Prod.fst
    rw [str, strMembers_eq, Json.enumerated, enumeratedMembers_eq, enumerate_map, enumerate_map, List.map_map]
    have colon : ∃ w, White w ∧
        (if mind ++ indent = [] then [unit ':'] else [unit ':', unit ' ']) = unit ':' :: w := by
      split
      · exact ⟨[], white_nil, rfl⟩
      · refine ⟨[unit ' '], fun c among => ?_, rfl⟩
        cases List.mem_singleton.mp among
        exact UInt16.le_refl _
    obtain ⟨w, blank, marks⟩ := colon
    rw [marks]
    refine wrap_members (w := w) ?_ blank outer (white_append outer white) (keys ▸ order.nodup_iff.mpr distinct)
      (keys ▸ fun among => own (order.mem_iff.mp among))
    rw [List.forall₂_map_left_iff, List.forall₂_map_right_iff, List.forall₂_same]
    intro member among
    exact ⟨_, ih member ((enumerate_perm members).mem_iff.mp among) (white_append outer white),
      List.append_assoc _ _ _⟩

/-! ### Written and parsed again -/

/-- The order of the members does not show. -/
theorem enumerated_enumerated {v : Json} (made : Made v) : v.enumerated.enumerated = v.enumerated := by
  induction made with
  | null | bool | number | string => rfl
  | @array values each ih =>
    simp only [Json.enumerated, enumeratedValues_eq, List.map_map]
    exact congrArg Json.array (List.map_congr_left ih)
  | @object members distinct own each ih =>
    have again : ((enumerate members).map fun member => (member.1, member.2.enumerated)).map
        (fun member => (member.1, member.2.enumerated)) =
          (enumerate members).map fun member => (member.1, member.2.enumerated) := by
      rw [List.map_map]
      refine List.map_congr_left fun member among => ?_
      exact congrArg (Prod.mk member.1) (ih member ((enumerate_perm members).mem_iff.mp among))
    rw [Json.enumerated, Json.enumerated, enumeratedMembers_eq, enumeratedMembers_eq, enumerate_map,
      enumerate_enumerate, enumerate_map, again]

theorem str_enumerated (shown : ℚ → Numeral) (indent : Text) {v : Json} (made : Made v) (mind : Text) :
    str shown indent mind v.enumerated = str shown indent mind v := by
  induction made generalizing mind with
  | null | bool | number | string => rfl
  | @array values each ih =>
    rw [Json.enumerated, str, str, strValues_eq, strValues_eq, enumeratedValues_eq, List.map_map]
    exact congrArg _ (List.map_congr_left fun v among => ih v among _)
  | @object members distinct own each ih =>
    have again : ((enumerate members).map fun member => (member.1, member.2.enumerated)).map
        (fun member => (member.1, str shown indent (mind ++ indent) member.2)) =
          (enumerate members).map fun member => (member.1, str shown indent (mind ++ indent) member.2) := by
      rw [List.map_map]
      refine List.map_congr_left fun member among => ?_
      exact congrArg (Prod.mk member.1) (ih member ((enumerate_perm members).mem_iff.mp among) _)
    rw [Json.enumerated, str, str, strMembers_eq, strMembers_eq, enumeratedMembers_eq, enumerate_map,
      enumerate_enumerate, enumerate_map, again, enumerate_map]

/-- **A value that was parsed, written and parsed again** is the same, with its members in order, and is
written as the same text, if no prototype was set in it. -/
theorem stringify_parses {shown : ℚ → Numeral} (shows : ShowsNumbers shown) {indent : Text}
    (white : White indent) {source : Text} {v : Json} (read : json_parse source = .ok v) (plain : v.plain = true) :
    json_parse (stringify shown indent v) = .ok v.enumerated ∧
      stringify shown indent v.enumerated = stringify shown indent v ∧
      v.enumerated.enumerated = v.enumerated := by
  obtain ⟨w, text, w', -, spelled, -, -⟩ := parse_spells read
  have made := spells_made spelled plain
  refine ⟨spells_parse ⟨[], _, [], white_nil, str_spells shows white made white_nil, white_nil, ?_⟩,
    str_enumerated shown indent made [], enumerated_enumerated made⟩
  exact (List.append_nil _).symm

namespace Sample

/-! ### Numbers shown exactly -/

/-- The decimal expansion of a number, which ends for the numbers of the format; only integers below
10^21 have no exponent. -/
def exactNumeral (q : ℚ) : Numeral :=
  let places := Nat.log 2 q.den
  ⟨decide (q < 0), Decimal.digits (q.num.natAbs * 5 ^ places), none,
    if places = 0 ∧ q.num.natAbs < 10 ^ 21 then none else some ⟨false, .minus, Decimal.digits places⟩⟩

/-- The denominator of a number of the format is a power of two. -/
theorem holds_den {q : ℚ} (held : binary64.Holds |q|) : 2 ^ Nat.log 2 q.den = q.den := by
  obtain ⟨m, e, -, -, same⟩ := held
  obtain ⟨k, power⟩ := Int.eq_ofNat_of_zero_le (show 0 ≤ e + e.natAbs by omega)
  have whole : |q| * 2 ^ e.natAbs = m * 2 ^ k := by
    rw [same, ← zpow_natCast, ← zpow_natCast, mul_assoc, ← zpow_add₀ two_ne_zero, power]
  have fraction : ∃ n : ℤ, q = Rat.divInt n (2 ^ e.natAbs) := by
    have positive : (0 : ℚ) < 2 ^ e.natAbs := by positivity
    have quotient : ∀ n : ℤ, q * 2 ^ e.natAbs = n → q = Rat.divInt n (2 ^ e.natAbs) := by
      intro n product
      rw [Rat.divInt_eq_div, Int.cast_pow, Int.cast_ofNat]
      exact (eq_div_iff positive.ne').mpr product
    rcases abs_choice q with plus | minus
    · refine ⟨m * 2 ^ k, quotient _ ?_⟩
      rw [plus] at whole
      exact_mod_cast whole
    · refine ⟨-(m * 2 ^ k), quotient _ ?_⟩
      rw [minus, neg_mul] at whole
      push_cast
      rw [← whole, neg_neg]
  obtain ⟨n, fraction⟩ := fraction
  have divides : q.den ∣ 2 ^ e.natAbs := by
    have part := Rat.den_dvd n (2 ^ e.natAbs)
    rw [← fraction] at part
    exact_mod_cast part
  obtain ⟨j, -, power⟩ := (Nat.dvd_prime_pow Nat.prime_two).mp divides
  rw [power, Nat.log_pow one_lt_two]

theorem exactNumeral_magnitude {q : ℚ} (held : binary64.Holds |q|) : (exactNumeral q).magnitude = |q| := by
  have den := holds_den held
  have power : (exactNumeral q).power = -(Nat.log 2 q.den : ℤ) := by
    unfold exactNumeral Numeral.power
    dsimp only
    split
    · next plain =>
      rw [plain.1]
      rfl
    · show -((Decimal.value (Decimal.digits _) : ℕ) : ℤ) = _
      rw [Decimal.value_digits]
  have digits : (exactNumeral q).digits = Decimal.digits (q.num.natAbs * 5 ^ Nat.log 2 q.den) :=
    List.append_nil _
  have plain : ((exactNumeral q).fraction.getD []).length = 0 := rfl
  have ten : (10 : ℚ) ^ Nat.log 2 q.den = 5 ^ Nat.log 2 q.den * q.den := by
    rw [← den, Nat.log_pow one_lt_two, Nat.cast_pow, Nat.cast_ofNat, ← mul_pow]
    norm_num
  have whole : (q.num.natAbs : ℚ) = |q| * q.den := by
    rw [Nat.cast_natAbs, Int.cast_abs, ← Rat.mul_den_eq_num, abs_mul, Nat.abs_cast]
  have five : (5 : ℚ) ^ Nat.log 2 q.den ≠ 0 := by positivity
  have below : (q.den : ℚ) ≠ 0 := by exact_mod_cast q.den_nz
  rw [Numeral.magnitude, power, digits, plain, Decimal.value_digits, Nat.cast_zero, sub_zero, zpow_neg,
    zpow_natCast, ten, Nat.cast_mul, Nat.cast_pow, Nat.cast_ofNat, whole]
  field_simp

theorem exactNumeral_valid (q : ℚ) : (exactNumeral q).Valid := by
  refine ⟨fun none => Decimal.digits_ne_nil _ (List.append_eq_nil_iff.mp none).1, ?_⟩
  intro exponent found
  unfold exactNumeral at found
  dsimp only at found
  split at found
  · cases found
  · cases found
    exact Decimal.digits_ne_nil _

theorem exactNumeral_shows : ShowsNumbers exactNumeral := by
  intro q finite held
  have size := exactNumeral_magnitude held
  have rounded : binary64.rounded |q| = |q| := by
    rcases (abs_nonneg q).eq_or_lt with zero | positive
    · rw [← zero, rounded_zero]
    · exact rounded_held held positive
  refine ⟨?_, .inr (Decimal.digits_ne_nil _)⟩
  rw [Numeral.number, size, rounded, if_pos ⟨exactNumeral_valid q, finite⟩]
  show some (if decide (q < 0) then -|q| else |q|) = some q
  split
  · next negative => rw [abs_of_neg (of_decide_eq_true negative), neg_neg]
  · next other => rw [abs_of_nonneg (not_lt.mp fun negative => other (decide_eq_true negative))]

def source : Text := units "\x7b\"to\": [0150, -9007199254740994],\"7\":null\x7d"

theorem source_written : (json_parse source).map (stringify exactNumeral []) =
    .ok (units "\x7b\"7\":null,\"to\":[150,-9007199254740994]\x7d") := by
  decide +kernel

theorem source_plain : (json_parse source).map Json.plain = .ok true := by
  decide +kernel

theorem stringify_parses_source : ∃ v, json_parse source = .ok v ∧
    stringify exactNumeral [] v = units "\x7b\"7\":null,\"to\":[150,-9007199254740994]\x7d" ∧
    json_parse (stringify exactNumeral [] v) = .ok v.enumerated := by
  have written := source_written
  cases read : json_parse source with
  | error stop =>
    rw [read] at written
    cases written
  | ok v =>
    have plain := source_plain
    rw [read] at written plain
    exact ⟨v, rfl, Except.ok.inj written,
      (stringify_parses exactNumeral_shows white_nil read (Except.ok.inj plain)).1⟩

end Sample

end EvmBabble.JsonBig
