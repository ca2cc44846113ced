/-
Canonical association lists.

`canonical` lists a function on some keys as pairs, in the order of a numbering of the keys and each
key once.

* `find_canonical` — a key is found with its value, exactly when it was listed and kept.
* `canonical_congr` — two such lists are equal as soon as they keep the same keys with the same
  values, however the keys were listed.
-/

import Mathlib.Data.List.Sort
import Mathlib.Data.List.Dedup

namespace EvmBabble.Library

variable {κ ν : Type} [DecidableEq κ]

/-- The kept keys in the order of their numbers, each with its value. -/
def canonical (number : κ → Nat) (keys : List κ) (keep : κ → Bool) (value : κ → ν) :
    List (κ × ν) :=
  ((keys.dedup.filter keep).insertionSort fun first second => number first ≤ number second).map
    fun key => (key, value key)

section Canonical

variable {number : κ → Nat} {keys : List κ} {keep : κ → Bool} {value : κ → ν}

theorem mem_canonical {pair : κ × ν} : pair ∈ canonical number keys keep value ↔
    pair.1 ∈ keys ∧ keep pair.1 = true ∧ pair.2 = value pair.1 := by
  unfold canonical
  rw [List.mem_map]
  constructor
  · rintro ⟨key, member, rfl⟩
    rw [List.mem_insertionSort, List.mem_filter, List.mem_dedup] at member
    exact ⟨member.1, member.2, rfl⟩
  · rintro ⟨listed, kept, same⟩
    refine ⟨pair.1, ?_, Prod.ext rfl same.symm⟩
    rw [List.mem_insertionSort, List.mem_filter, List.mem_dedup]
    exact ⟨listed, kept⟩

/-- A key is found with its value when it was listed and kept, and otherwise not at all. -/
theorem find_canonical (key : κ) :
    ((canonical number keys keep value).find? fun pair => pair.1 = key).map Prod.snd =
      if key ∈ keys ∧ keep key = true then some (value key) else none := by
  split
  · next inside =>
    cases sought : (canonical number keys keep value).find? fun pair => pair.1 = key with
    | none =>
      have absent := List.find?_eq_none.mp sought (key, value key)
        (mem_canonical.mpr ⟨inside.1, inside.2, rfl⟩)
      exact absurd (decide_eq_true rfl) absent
    | some pair =>
      have here : pair.1 = key := by simpa using List.find?_some sought
      obtain ⟨-, -, same⟩ := mem_canonical.mp (List.mem_of_find?_eq_some sought)
      rw [Option.map_some, same, here]
  · next outside =>
    rw [List.find?_eq_none.mpr, Option.map_none]
    rintro pair member here
    obtain ⟨listed, kept, -⟩ := mem_canonical.mp member
    rw [of_decide_eq_true here] at listed kept
    exact outside ⟨listed, kept⟩

/-- **The list depends on the kept keys and their values only.** -/
theorem canonical_congr (injective : Function.Injective number) {others : List κ} {keeps : κ → Bool}
    {values : κ → ν} (kept : ∀ key, key ∈ keys ∧ keep key = true ↔ key ∈ others ∧ keeps key = true)
    (same : ∀ key ∈ keys, keep key = true → value key = values key) :
    canonical number keys keep value = canonical number others keeps values := by
  have antisymm : ∀ first second, number first ≤ number second → number second ≤ number first →
      first = second := fun first second le ge => injective (Nat.le_antisymm le ge)
  let order : κ → κ → Prop := fun first second => number first ≤ number second
  have : Std.Antisymm order := ⟨antisymm⟩
  have : Std.Total order := ⟨fun first second => Nat.le_total (number first) (number second)⟩
  have : IsTrans κ order := ⟨fun _ _ _ => Nat.le_trans⟩
  have perm : (keys.dedup.filter keep).Perm (others.dedup.filter keeps) := by
    rw [List.perm_ext_iff_of_nodup (keys.nodup_dedup.filter _) (others.nodup_dedup.filter _)]
    intro key
    rw [List.mem_filter, List.mem_filter, List.mem_dedup, List.mem_dedup, kept]
  have sorted : (keys.dedup.filter keep).insertionSort order =
      (others.dedup.filter keeps).insertionSort order :=
    (((List.perm_insertionSort order _).trans perm).trans
      (List.perm_insertionSort order _).symm).eq_of_pairwise'
        (List.pairwise_insertionSort order _) (List.pairwise_insertionSort order _)
  unfold canonical
  rw [← show (keys.dedup.filter keep).insertionSort order =
    (others.dedup.filter keeps).insertionSort _ from sorted]
  refine List.map_congr_left fun key member => Prod.ext rfl (same key ?_ ?_)
  · rw [List.mem_insertionSort, List.mem_filter, List.mem_dedup] at member
    exact member.1
  · rw [List.mem_insertionSort, List.mem_filter] at member
    exact member.2

end Canonical

end EvmBabble.Library
