/-
Functions overwritten at a list of keys.

`overwrite` writes values into a function one after another, so the last write of a key is the one
that stays.

* `overwrite_last` — the value of the last write of a key.
* `overwrite_perm` — writes that agree on a key leave the same value there in every order.
-/

import Mathlib.Data.List.Perm.Basic
import Mathlib.Logic.Function.Basic

namespace EvmBabble.Library

variable {κ ν : Type} [DecidableEq κ]

/-- The values of a list of writes, one after another. -/
def overwrite (held : κ → ν) (writes : List (κ × ν)) : κ → ν :=
  writes.foldl (fun held write => Function.update held write.1 write.2) held

section Overwrite

variable (held : κ → ν)

@[simp] theorem overwrite_nil : overwrite held [] = held := rfl

theorem overwrite_cons (write : κ × ν) (writes : List (κ × ν)) :
    overwrite held (write :: writes) = overwrite (Function.update held write.1 write.2) writes := rfl

theorem overwrite_append (first second : List (κ × ν)) :
    overwrite held (first ++ second) = overwrite (overwrite held first) second :=
  List.foldl_append ..

/-- A key that is not written keeps its value. -/
theorem overwrite_other {writes : List (κ × ν)} {key : κ}
    (other : ∀ write ∈ writes, write.1 ≠ key) : overwrite held writes key = held key := by
  induction writes generalizing held with
  | nil => rfl
  | cons write writes ih =>
    rw [overwrite_cons, ih _ fun later member => other later (List.mem_cons_of_mem _ member)]
    exact Function.update_of_ne (fun same => other write List.mem_cons_self same.symm) _ _

/-- The last write of a key stays. -/
theorem overwrite_last {before after : List (κ × ν)} {key : κ} {value : ν}
    (last : ∀ write ∈ after, write.1 ≠ key) :
    overwrite held (before ++ (key, value) :: after) key = value := by
  rw [overwrite_append, overwrite_cons, overwrite_other _ last]
  exact Function.update_self _ _ _

/-- Writes that agree on a key leave their value there. -/
theorem overwrite_agreed {writes : List (κ × ν)} {key : κ} {value : ν}
    (written : (key, value) ∈ writes) (agreed : ∀ write ∈ writes, write.1 = key → write.2 = value) :
    overwrite held writes key = value := by
  induction writes generalizing held with
  | nil => exact absurd written List.not_mem_nil
  | cons write writes ih =>
    rw [overwrite_cons]
    by_cases later : (key, value) ∈ writes
    · exact ih _ later fun other member => agreed other (List.mem_cons_of_mem _ member)
    · obtain rfl : (key, value) = write := (List.mem_cons.mp written).resolve_right later
      rw [overwrite_other _ fun other member same => later ?_]
      · exact Function.update_self _ _ _
      · have value := agreed other (List.mem_cons_of_mem _ member) same
        rwa [← same, ← value]

/-- **Writes that agree on a key can be reordered.** -/
theorem overwrite_perm {writes others : List (κ × ν)} (perm : writes.Perm others) {key : κ}
    (agreed : ∀ one ∈ writes, ∀ two ∈ writes, one.1 = key → two.1 = key → one.2 = two.2) :
    overwrite held writes key = overwrite held others key := by
  by_cases written : ∃ write ∈ writes, write.1 = key
  · obtain ⟨⟨_, value⟩, member, rfl⟩ := written
    rw [overwrite_agreed held member fun other inside same => agreed other inside _ member same rfl,
      overwrite_agreed held (perm.mem_iff.mp member) fun other inside same =>
        agreed other (perm.mem_iff.mpr inside) _ member same rfl]
  · have never : ∀ write ∈ writes, write.1 ≠ key := fun write member same =>
      written ⟨write, member, same⟩
    rw [overwrite_other held never,
      overwrite_other held fun write member => never write (perm.mem_iff.mpr member)]

end Overwrite

end EvmBabble.Library
