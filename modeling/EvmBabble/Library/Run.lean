/-
Runs of a deterministic machine, and the erasure of steps from a run.

A machine takes an input in a state and gives the next state and an answer. `run` feeds it a list of
inputs.

* `run_invariant`, `run_preserves` — what every (guarded) step preserves holds after a (guarded) run.
* `erasure` — two machines' states start related; the left one also takes *hidden* inputs, which the
  right one never sees. If a hidden step keeps the relation against a standing right state, and a
  visible step keeps it while both answer alike, then the right run gives the visible answers of the
  left one and ends related. `Guarded` carries a condition on both states at every input.
-/

import Mathlib.Data.List.Basic
import Mathlib.Tactic.Common

namespace EvmBabble.Library

section Machines

variable {σ ι ο : Type} (step : σ → ι → σ × ο)

/-- The state after a list of inputs, with the answers in order. -/
def run (state : σ) : List ι → σ × List ο
  | [] => (state, [])
  | input :: inputs =>
    let next := step state input
    let rest := run next.1 inputs
    (rest.1, next.2 :: rest.2)

@[simp] theorem run_nil (state : σ) : run step state [] = (state, []) := rfl

theorem run_cons (state : σ) (input : ι) (inputs : List ι) :
    run step state (input :: inputs) =
      ((run step (step state input).1 inputs).1,
        (step state input).2 :: (run step (step state input).1 inputs).2) := rfl

theorem run_append (state : σ) (first second : List ι) :
    run step state (first ++ second) =
      ((run step (run step state first).1 second).1,
        (run step state first).2 ++ (run step (run step state first).1 second).2) := by
  induction first generalizing state with
  | nil => rfl
  | cons input inputs ih => rw [List.cons_append, run_cons, ih, run_cons]; rfl

/-- The answers to the first inputs are the first answers. -/
theorem prefix_run (state : σ) {first whole : List ι} (listed : first <+: whole) :
    (run step state first).2 <+: (run step state whole).2 := by
  obtain ⟨rest, rfl⟩ := listed
  rw [run_append]
  exact List.prefix_append _ _

/-- A condition on the state and the input, at every step of a run. -/
def Along (condition : σ → ι → Prop) (state : σ) : List ι → Prop
  | [] => True
  | input :: inputs => condition state input ∧ Along condition (step state input).1 inputs

instance decidableAlong {condition : σ → ι → Prop} [∀ state input, Decidable (condition state input)] :
    ∀ (state : σ) (inputs : List ι), Decidable (Along step condition state inputs)
  | _, [] => isTrue trivial
  | state, input :: inputs =>
    haveI : Decidable (Along step condition (step state input).1 inputs) := decidableAlong _ inputs
    inferInstanceAs (Decidable (_ ∧ _))

/-- What every step under the condition preserves holds after a run under the condition. -/
theorem run_invariant {condition : σ → ι → Prop} (invariant : σ → Prop)
    (preserved : ∀ state input, invariant state → condition state input →
      invariant (step state input).1)
    {state : σ} (holds : invariant state) {inputs : List ι}
    (along : Along step condition state inputs) : invariant (run step state inputs).1 := by
  induction inputs generalizing state with
  | nil => exact holds
  | cons input inputs ih => exact ih (preserved state input holds along.1) along.2

/-- What every step preserves holds after every run. -/
theorem run_preserves (invariant : σ → Prop)
    (preserved : ∀ state input, invariant state → invariant (step state input).1)
    {state : σ} (holds : invariant state) (inputs : List ι) :
    invariant (run step state inputs).1 := by
  induction inputs generalizing state with
  | nil => exact holds
  | cons input inputs ih => exact ih (preserved state input holds)

/-- What every guarded step shows and preserves is shown along a guarded run. -/
theorem along_invariant {condition shown : σ → ι → Prop} (invariant : σ → Prop)
    (preserved : ∀ state input, invariant state → condition state input →
      shown state input ∧ invariant (step state input).1)
    {state : σ} (holds : invariant state) {inputs : List ι}
    (along : Along step condition state inputs) : Along step shown state inputs := by
  induction inputs generalizing state with
  | nil => trivial
  | cons input inputs ih =>
    obtain ⟨here, next⟩ := preserved state input holds along.1
    exact ⟨here, ih next along.2⟩

/-- A weaker condition holds along the same run. -/
theorem along_weaken {one two : σ → ι → Prop} (weaker : ∀ state input, one state input → two state input)
    {state : σ} {inputs : List ι} (along : Along step one state inputs) :
    Along step two state inputs :=
  along_invariant step (fun _ => True) (fun state input _ here => ⟨weaker state input here, trivial⟩)
    trivial along

/-- Conditions that mean the same in every state of an invariant hold along the same runs. -/
theorem along_iff {one two : σ → ι → Prop} (invariant : σ → Prop)
    (alike : ∀ state input, invariant state → (one state input ↔ two state input))
    (preserved : ∀ state input, invariant state → one state input → invariant (step state input).1)
    {state : σ} (holds : invariant state) {inputs : List ι} :
    Along step one state inputs ↔ Along step two state inputs := by
  induction inputs generalizing state with
  | nil => exact Iff.rfl
  | cons input inputs ih =>
    constructor
    · rintro ⟨here, later⟩
      exact ⟨(alike state input holds).mp here, (ih (preserved state input holds here)).mp later⟩
    · rintro ⟨here, later⟩
      have shown := (alike state input holds).mpr here
      exact ⟨shown, (ih (preserved state input holds shown)).mpr later⟩

/-- Two conditions along the same run. -/
theorem along_and {one two : σ → ι → Prop} {state : σ} {inputs : List ι}
    (first : Along step one state inputs) (second : Along step two state inputs) :
    Along step (fun state input => one state input ∧ two state input) state inputs := by
  induction inputs generalizing state with
  | nil => trivial
  | cons input inputs ih => exact ⟨⟨first.1, second.1⟩, ih first.2 second.2⟩

theorem along_append {condition : σ → ι → Prop} {state : σ} {first second : List ι} :
    Along step condition state (first ++ second) ↔
      Along step condition state first ∧ Along step condition (run step state first).1 second := by
  induction first generalizing state with
  | nil => exact ⟨fun later => ⟨trivial, later⟩, fun both => both.2⟩
  | cons input inputs ih =>
    show condition state input ∧ Along step condition _ (inputs ++ second) ↔
      (condition state input ∧ Along step condition _ inputs) ∧ _
    rw [ih, and_assoc]
    rfl

/-- A condition on the inputs alone holds along every run that takes them. -/
theorem along_inputs {condition : σ → ι → Prop} {allowed : ι → Prop} {state : σ} {inputs : List ι}
    (every : ∀ input ∈ inputs, allowed input) (along : Along step condition state inputs) :
    Along step (fun state input => allowed input ∧ condition state input) state inputs := by
  induction inputs generalizing state with
  | nil => trivial
  | cons input inputs ih =>
    exact ⟨⟨every input List.mem_cons_self, along.1⟩,
      ih (fun later member => every later (List.mem_cons_of_mem _ member)) along.2⟩

/-- Inputs that are all allowed are allowed along every run. -/
theorem along_allowed {allowed : ι → Prop} {state : σ} {inputs : List ι}
    (every : ∀ input ∈ inputs, allowed input) :
    Along step (fun _ input => allowed input) state inputs := by
  induction inputs generalizing state with
  | nil => trivial
  | cons input inputs ih =>
    exact ⟨every input List.mem_cons_self,
      ih fun later member => every later (List.mem_cons_of_mem _ member)⟩

/-- What is shown of every answer along a run holds of the answers of the run. -/
theorem along_answers {shown : ο → Prop} {state : σ} {inputs : List ι}
    (along : Along step (fun state input => shown (step state input).2) state inputs) :
    ∀ answer ∈ (run step state inputs).2, shown answer := by
  induction inputs generalizing state with
  | nil => exact fun answer member => absurd member List.not_mem_nil
  | cons input inputs ih =>
    rw [run_cons]
    exact List.forall_mem_cons.mpr ⟨along.1, ih along.2⟩

/-! ### Erasure -/

variable (hidden : σ → ι → Bool)

/-- The inputs of a run that are not hidden where it takes them. -/
def visibleInputs (state : σ) : List ι → List ι
  | [] => []
  | input :: inputs =>
    let rest := visibleInputs (step state input).1 inputs
    if hidden state input then rest else input :: rest

/-- The answers a run gives to the inputs that are not hidden. -/
def visibleAnswers (state : σ) : List ι → List ο
  | [] => []
  | input :: inputs =>
    let rest := visibleAnswers (step state input).1 inputs
    if hidden state input then rest else (step state input).2 :: rest

/-- A condition on the states of both machines and the input, at every step of the left run; the
right machine stands still at a hidden input. -/
def Guarded (condition : σ → σ → ι → Prop) (left right : σ) : List ι → Prop
  | [] => True
  | input :: inputs =>
    condition left right input ∧
      Guarded condition (step left input).1
        (if hidden left input then right else (step right input).1) inputs

/-- A condition on the left state alone. -/
theorem guarded_of_along {condition : σ → ι → Prop} {left : σ} (right : σ) {inputs : List ι}
    (along : Along step condition left inputs) :
    Guarded step hidden (fun left _ input => condition left input) left right inputs := by
  induction inputs generalizing left right with
  | nil => trivial
  | cons input inputs ih => exact ⟨along.1, ih _ along.2⟩

/-- A condition along the left run, and one along the right run on the visible inputs. -/
theorem guarded_of_alongs {one two : σ → ι → Prop} {left right : σ} {inputs : List ι}
    (first : Along step one left inputs)
    (second : Along step two right (visibleInputs step hidden left inputs)) :
    Guarded step hidden (fun left right input =>
      one left input ∧ (hidden left input = false → two right input)) left right inputs := by
  induction inputs generalizing left right with
  | nil => trivial
  | cons input inputs ih =>
    rw [visibleInputs] at second
    cases shown : hidden left input with
    | true =>
      rw [shown, if_pos rfl] at second
      refine ⟨⟨first.1, fun seen => ?_⟩, ?_⟩
      · rw [shown] at seen
        cases seen
      · rw [shown, if_pos rfl]
        exact ih first.2 second
    | false =>
      rw [shown, if_neg Bool.false_ne_true] at second
      refine ⟨⟨first.1, fun _ => second.1⟩, ?_⟩
      rw [shown, if_neg Bool.false_ne_true]
      exact ih first.2 second.2

/-- The right run on the visible inputs answers as the left run does on them, and ends related. -/
theorem erasure {condition : σ → σ → ι → Prop} (related : σ → σ → Prop)
    (hiddenStep : ∀ left right input, related left right → condition left right input →
      hidden left input = true → related (step left input).1 right)
    (visibleStep : ∀ left right input, related left right → condition left right input →
      hidden left input = false →
        related (step left input).1 (step right input).1 ∧ (step left input).2 = (step right input).2)
    (left right : σ) (start : related left right) {inputs : List ι}
    (guarded : Guarded step hidden condition left right inputs) :
    visibleAnswers step hidden left inputs =
        (run step right (visibleInputs step hidden left inputs)).2 ∧
      related (run step left inputs).1 (run step right (visibleInputs step hidden left inputs)).1 := by
  induction inputs generalizing left right with
  | nil => exact ⟨rfl, start⟩
  | cons input inputs ih =>
    obtain ⟨here, later⟩ := guarded
    cases shown : hidden left input with
    | true =>
      simp only [shown, if_true] at later
      simpa only [visibleAnswers, visibleInputs, shown, if_true, run_cons] using
        ih _ _ (hiddenStep left right input start here shown) later
    | false =>
      simp only [shown, Bool.false_eq_true, if_false] at later
      obtain ⟨stepped, alike⟩ := visibleStep left right input start here shown
      obtain ⟨answers, ends⟩ := ih _ _ stepped later
      simp only [visibleAnswers, visibleInputs, shown, Bool.false_eq_true, if_false, run_cons]
      exact ⟨by rw [answers, alike], ends⟩

end Machines

end EvmBabble.Library
