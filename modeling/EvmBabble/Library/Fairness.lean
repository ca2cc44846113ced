/-
Fair schedules of a system whose work runs out.

In every turn a schedule lets one worker move; a worker that cannot move lets its turn pass. A schedule
is fair if every worker gets its turn again and again.

* `settles` — when each move leaves less to do, every fair schedule comes to a state in which no worker
  can move, and stays there.
* `turns_preserves` — what every move preserves holds after every turn.
-/

import Mathlib.Data.Nat.Pairing
import Mathlib.Tactic.Common

namespace EvmBabble.Library

section Schedules

variable {σ ω : Type} (step : σ → ω → Option σ)

/-- The state after some turns of a schedule. -/
def turns (schedule : Nat → ω) (state : σ) : Nat → σ
  | 0 => state
  | count + 1 =>
    let reached := turns schedule state count
    (step reached (schedule count)).getD reached

/-- Every worker gets its turn again and again. -/
def Fair (schedule : Nat → ω) : Prop := ∀ worker count, ∃ later, count ≤ later ∧ schedule later = worker

/-- No worker can move. -/
def AtRest (state : σ) : Prop := ∀ worker, step state worker = none

variable {step} {schedule : Nat → ω} {state : σ}

theorem turns_add (first second : Nat) : turns step schedule state (first + second) =
    turns step (fun count => schedule (first + count)) (turns step schedule state first) second := by
  induction second with
  | zero => rfl
  | succ second ih => rw [← Nat.add_assoc, turns, ih, turns]

/-- A fair schedule stays fair when its first turns are over. -/
theorem Fair.shift (fair : Fair schedule) (first : Nat) : Fair fun count => schedule (first + count) := by
  intro worker count
  obtain ⟨later, after, same⟩ := fair worker (first + count)
  have split : first + (later - first) = later := by omega
  exact ⟨later - first, by omega, (congrArg schedule split).trans same⟩

/-- What every move preserves holds after every turn. -/
theorem turns_preserves (invariant : σ → Prop)
    (preserved : ∀ state worker next, invariant state → step state worker = some next →
      invariant next) (holds : invariant state) (count : Nat) :
    invariant (turns step schedule state count) := by
  induction count with
  | zero => exact holds
  | succ count ih =>
    rw [turns]
    cases moved : step (turns step schedule state count) (schedule count) with
    | none => exact ih
    | some next => exact preserved _ _ next ih moved

/-- At rest, turns pass. -/
theorem turns_rest (rest : AtRest step state) (count : Nat) :
    turns step schedule state count = state := by
  induction count with
  | zero => rfl
  | succ count ih => rw [turns, ih, rest]; rfl

/-- Under a fair schedule, someone moves unless nobody can. -/
theorem exists_move (fair : Fair schedule) (busy : ¬ AtRest step state) :
    ∃ count next, step (turns step schedule state count) (schedule count) = some next := by
  by_contra idle
  have passes : ∀ count, step (turns step schedule state count) (schedule count) = none := by
    intro count
    rw [Option.eq_none_iff_forall_ne_some]
    exact fun next moved => idle ⟨count, next, moved⟩
  have stays : ∀ count, turns step schedule state count = state := by
    intro count
    induction count with
    | zero => rfl
    | succ count ih => rw [turns, passes, ih]; rfl
  refine busy fun worker => ?_
  obtain ⟨later, -, same⟩ := fair worker 0
  have passed := passes later
  rwa [stays, same] at passed

/-- **Every fair schedule comes to rest** when each move leaves less to do. -/
theorem settles (left : σ → Nat → Prop)
    (less : ∀ state worker next count, left state count → step state worker = some next →
      ∃ fewer, fewer < count ∧ left next fewer)
    (fair : Fair schedule) {bound : Nat} (bounded : left state bound) :
    ∃ count, AtRest step (turns step schedule state count) ∧
      ∀ later, count ≤ later →
        turns step schedule state later = turns step schedule state count := by
  induction bound using Nat.strong_induction_on generalizing state schedule with
  | _ bound ih =>
    by_cases rest : AtRest step state
    · exact ⟨0, rest, fun later _ => turns_rest rest later⟩
    · obtain ⟨first, next, moved⟩ := exists_move fair rest
      -- no move on the way has left more to do
      have reached : ∃ fewer, fewer ≤ bound ∧ left (turns step schedule state first) fewer :=
        turns_preserves (fun state => ∃ fewer, fewer ≤ bound ∧ left state fewer)
          (fun state worker next held moved => by
            obtain ⟨count, within, still⟩ := held
            obtain ⟨fewer, below, after⟩ := less state worker next count still moved
            exact ⟨fewer, by omega, after⟩) ⟨bound, Nat.le_refl _, bounded⟩ first
      obtain ⟨count, within, still⟩ := reached
      obtain ⟨fewer, below, after⟩ := less _ _ _ _ still moved
      obtain ⟨more, settled, stays⟩ := ih fewer (by omega) (fair.shift (first + 1)) after
      have here : turns step schedule state (first + 1) = next := by rw [turns, moved]; rfl
      rw [← here, ← turns_add] at settled
      refine ⟨first + 1 + more, settled, fun later enough => ?_⟩
      obtain ⟨rest, rfl⟩ := Nat.exists_eq_add_of_le (show first + 1 ≤ later by omega)
      rw [turns_add (first + 1) rest, turns_add (first + 1) more, here]
      exact stays rest (by omega)

end Schedules

/-- Taking turns by numbers: every worker that has a number gets its turn again and again. -/
theorem fair_unpair {ω : Type} {number : Nat → ω} (covers : Function.Surjective number) :
    Fair fun count => number count.unpair.1 := by
  intro worker count
  obtain ⟨index, rfl⟩ := covers worker
  exact ⟨Nat.pair index count, Nat.right_le_pair _ _, congrArg (number ∘ Prod.fst) (Nat.unpair_pair _ _)⟩

end EvmBabble.Library
