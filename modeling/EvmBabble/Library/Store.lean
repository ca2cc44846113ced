/-
Key-value stores and ordered writes.

A store is a partial map. A write is a single record or a batch applied as a whole; a commit is a
list of writes, and a stop in the middle of it leaves the store after a prefix of that list.

* `putAll_other`, `putAll_last` — a record list changes only the keys it names, and the last record
  of a key is the one that stays.
* `exists_last` — the last element of a list that meets a condition.
* `Keeps` — every record under a class of keys survives unchanged; `keeps_writes` proves it of writes
  that repeat what is there, whatever prefix of them was applied.
-/

import Mathlib.Logic.Function.Basic
import Mathlib.Data.List.Basic
import Mathlib.Tactic.Common

namespace EvmBabble.Library

/-- A partial map from keys to values. -/
abbrev Store (κ ν : Type) := κ → Option ν

/-- One write: a single record, or a batch that is applied as a whole. -/
inductive Write (κ ν : Type) : Type
  | put (key : κ) (value : ν)
  | batch (records : List (κ × ν))
deriving DecidableEq

/-- The records of a write. -/
def Write.records {κ ν : Type} : Write κ ν → List (κ × ν)
  | .put key value => [(key, value)]
  | .batch records => records

namespace Store

variable {κ ν : Type} [DecidableEq κ]

/-- The store with no record. -/
def empty : Store κ ν := fun _ => none

/-- Records applied in order. -/
def putAll (store : Store κ ν) : List (κ × ν) → Store κ ν
  | [] => store
  | (key, value) :: rest => putAll (Function.update store key (some value)) rest

/-- Writes applied in order. -/
def writes (store : Store κ ν) (list : List (Write κ ν)) : Store κ ν :=
  store.putAll (list.flatMap Write.records)

theorem putAll_append (store : Store κ ν) (first second : List (κ × ν)) :
    store.putAll (first ++ second) = (store.putAll first).putAll second := by
  induction first generalizing store with
  | nil => rfl
  | cons record rest ih => exact ih _

theorem writes_append (store : Store κ ν) (first second : List (Write κ ν)) :
    store.writes (first ++ second) = (store.writes first).writes second := by
  unfold writes
  rw [List.flatMap_append, putAll_append]

@[simp] theorem writes_nil (store : Store κ ν) : store.writes [] = store := rfl

@[simp] theorem writes_put (store : Store κ ν) (key : κ) (value : ν) (list : List (Write κ ν)) :
    store.writes (.put key value :: list) =
      Store.writes (Function.update store key (some value)) list := rfl

theorem writes_batch (store : Store κ ν) (records : List (κ × ν)) (list : List (Write κ ν)) :
    store.writes (.batch records :: list) = (store.putAll records).writes list := by
  unfold writes
  rw [List.flatMap_cons, putAll_append]
  rfl

/-- A key that no record names keeps what it held. -/
theorem putAll_other (store : Store κ ν) (records : List (κ × ν)) (key : κ)
    (other : ∀ record ∈ records, record.1 ≠ key) : store.putAll records key = store key := by
  induction records generalizing store with
  | nil => rfl
  | cons record rest ih =>
    have here : key ≠ record.1 := fun same => other record List.mem_cons_self same.symm
    calc store.putAll (record :: rest) key
        = Function.update store record.1 (some record.2) key :=
          ih _ fun later member => other later (List.mem_cons_of_mem _ member)
      _ = store key := Function.update_of_ne here _ _

theorem writes_other (store : Store κ ν) (list : List (Write κ ν)) (key : κ)
    (other : ∀ write ∈ list, ∀ record ∈ write.records, record.1 ≠ key) :
    store.writes list key = store key := by
  refine putAll_other store _ key fun record member => ?_
  obtain ⟨write, inside, found⟩ := List.mem_flatMap.mp member
  exact other write inside record found

/-- What a key holds after some records comes of what it held before. -/
theorem putAll_congr {one two : Store κ ν} {key : κ} (records : List (κ × ν))
    (same : one key = two key) : one.putAll records key = two.putAll records key := by
  induction records generalizing one two with
  | nil => exact same
  | cons record rest ih =>
    refine ih ?_
    by_cases here : key = record.1
    · rw [here, Function.update_self, Function.update_self]
    · rw [Function.update_of_ne here, Function.update_of_ne here, same]

/-- The last record of a key is the one a record list leaves there. -/
theorem putAll_last (store : Store κ ν) (before after : List (κ × ν)) (key : κ) (value : ν)
    (last : ∀ record ∈ after, record.1 ≠ key) :
    store.putAll (before ++ (key, value) :: after) key = some value := by
  rw [putAll_append]
  show putAll (Function.update _ key (some value)) after key = some value
  rw [putAll_other _ _ _ last, Function.update_self]

/-- A key found after some records was there before or is named by one of them. -/
theorem putAll_some {store : Store κ ν} {records : List (κ × ν)} {key : κ} {value : ν}
    (found : store.putAll records key = some value) :
    store key = some value ∨ (key, value) ∈ records := by
  induction records generalizing store with
  | nil => exact Or.inl found
  | cons record rest ih =>
    rcases ih found with old | later
    · by_cases same : key = record.1
      · subst same
        rw [Function.update_self] at old
        cases old
        exact Or.inr List.mem_cons_self
      · rw [Function.update_of_ne same] at old
        exact Or.inl old
    · exact Or.inr (List.mem_cons_of_mem _ later)

theorem writes_some {store : Store κ ν} {list : List (Write κ ν)} {key : κ} {value : ν}
    (found : store.writes list key = some value) :
    store key = some value ∨ ∃ write ∈ list, (key, value) ∈ write.records := by
  rcases putAll_some found with old | new
  · exact Or.inl old
  · obtain ⟨write, inside, member⟩ := List.mem_flatMap.mp new
    exact Or.inr ⟨write, inside, member⟩

omit [DecidableEq κ] in
/-- The last element of a list that meets a condition. -/
theorem exists_last (meets : κ → Prop) {list : List κ} (found : ∃ element ∈ list, meets element) :
    ∃ before last after, list = before ++ last :: after ∧ meets last ∧
      ∀ later ∈ after, ¬ meets later := by
  induction list with
  | nil =>
    obtain ⟨element, member, -⟩ := found
    exact absurd member List.not_mem_nil
  | cons first rest ih =>
    by_cases later : ∃ element ∈ rest, meets element
    · obtain ⟨before, last, after, rfl, here, final⟩ := ih later
      exact ⟨first :: before, last, after, rfl, here, final⟩
    · obtain ⟨element, member, here⟩ := found
      rcases List.mem_cons.mp member with rfl | inside
      · exact ⟨[], element, rest, rfl, here, fun other listed meets => later ⟨other, listed, meets⟩⟩
      · exact absurd ⟨element, inside, here⟩ later

/-! ### Records that survive -/

/-- Every record of `store` under a key in `keys` is a record of `later`. -/
def Keeps (keys : κ → Prop) (store later : Store κ ν) : Prop :=
  ∀ key, keys key → ∀ value, store key = some value → later key = some value

omit [DecidableEq κ] in
theorem Keeps.refl (keys : κ → Prop) (store : Store κ ν) : Keeps keys store store :=
  fun _ _ _ found => found

omit [DecidableEq κ] in
theorem Keeps.trans {keys : κ → Prop} {first second third : Store κ ν}
    (one : Keeps keys first second) (two : Keeps keys second third) : Keeps keys first third :=
  fun key inside value found => two key inside value (one key inside value found)

/-- A record that every later record of its key repeats stays. -/
theorem putAll_same {store : Store κ ν} {key : κ} {value : ν} (records : List (κ × ν))
    (found : store key = some value)
    (same : ∀ record ∈ records, record.1 = key → record.2 = value) :
    store.putAll records key = some value := by
  induction records generalizing store with
  | nil => exact found
  | cons record rest ih =>
    refine ih ?_ fun later member => same later (List.mem_cons_of_mem _ member)
    by_cases here : key = record.1
    · rw [here, Function.update_self, same record List.mem_cons_self here.symm]
    · rw [Function.update_of_ne here, found]

/-- A record that all the others of its key repeat is there in the end. -/
theorem putAll_agreed {store : Store κ ν} {records : List (κ × ν)} {record : κ × ν}
    (member : record ∈ records)
    (same : ∀ other ∈ records, other.1 = record.1 → other.2 = record.2) :
    store.putAll records record.1 = some record.2 := by
  obtain ⟨before, after, rfl⟩ := List.append_of_mem member
  rw [putAll_append]
  exact putAll_same after (Function.update_self _ _ _) fun other inside =>
    same other (List.mem_append_right _ (List.mem_cons_of_mem _ inside))

/-- Writes that repeat what the store holds under `keys` lose nothing there. -/
theorem keeps_writes {keys : κ → Prop} (store : Store κ ν) (list : List (Write κ ν))
    (repeats : ∀ write ∈ list, ∀ record ∈ write.records, keys record.1 →
      ∀ value, store record.1 = some value → record.2 = value) :
    Keeps keys store (store.writes list) := by
  intro key inside value found
  refine putAll_same _ found fun record member here => ?_
  obtain ⟨write, listed, held⟩ := List.mem_flatMap.mp member
  subst here
  exact repeats write listed record held inside value found

end Store

end EvmBabble.Library
