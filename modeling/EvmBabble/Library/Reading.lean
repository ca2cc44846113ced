/-
Computations that read a partly set environment.

A `Reading` asks for cells one at a time and ends with a value; at each request it also names what
it has already changed, since a read of an unset cell stops it there.

* `Reading.run` — the run under an environment: the value, or what was held at the first unset cell.
* `Reading.path` — the cells the run asks for, the unset one included.
* `run_stuck_iff` — a run stops early exactly when its path holds an unset cell.
* `path_filled_iff` — whether a run asks for an unset cell can be seen with every cell filled in.
* `path_nil` — a run that asks for nothing under one environment asks for nothing under any.
-/

import Mathlib.Data.List.Basic
import Mathlib.Tactic.Common

namespace EvmBabble.Library

/-- A computation that reads cells `ρ` with values `ν`, holds `σ` while it reads, ends with `α`. -/
inductive Reading (ρ ν σ α : Type) : Type
  | done (value : α)
  | read (cell : ρ) (held : σ) (next : ν → Reading ρ ν σ α)

namespace Reading

variable {ρ ν σ α : Type}

/-- The run under an environment. -/
def run (env : ρ → Option ν) : Reading ρ ν σ α → Except σ α
  | .done value => .ok value
  | .read cell held next =>
    match env cell with
    | some found => (next found).run env
    | none => .error held

/-- The cells a run asks for, in order; it ends at the first unset one. -/
def path (env : ρ → Option ν) : Reading ρ ν σ α → List ρ
  | .done _ => []
  | .read cell _ next =>
    cell :: match env cell with
      | some found => (next found).path env
      | none => []

/-- One read after another, with the same state held throughout. -/
def readAll (held : σ) (value : α) : List ρ → Reading ρ ν σ α
  | [] => .done value
  | cell :: cells => .read cell held fun _ => readAll held value cells

section Runs

variable (env : ρ → Option ν)

@[simp] theorem run_done (value : α) : (done value : Reading ρ ν σ α).run env = .ok value := rfl

/-- A run stops early exactly when it asks for an unset cell. -/
theorem run_stuck_iff (computation : Reading ρ ν σ α) :
    (∃ held, computation.run env = .error held) ↔
      ∃ cell ∈ computation.path env, env cell = none := by
  induction computation with
  | done value => simp [run, path]
  | read cell held next ih =>
    cases found : env cell with
    | none => simp [run, path, found]
    | some value => simp [run, path, found, ih value]

theorem run_total (computation : Reading ρ ν σ α)
    (set : ∀ cell ∈ computation.path env, env cell ≠ none) :
    ∃ value, computation.run env = .ok value := by
  cases result : computation.run env with
  | ok value => exact ⟨value, rfl⟩
  | error held =>
    obtain ⟨cell, member, unset⟩ := (run_stuck_iff env computation).mp ⟨held, result⟩
    exact absurd unset (set cell member)

/-- A run asks for an unset cell exactly when it asks for that cell once the unset ones are filled
in. -/
theorem path_filled_iff (filled : ρ → Option ν)
    (extends_env : ∀ cell, env cell ≠ none → filled cell = env cell) (computation : Reading ρ ν σ α) :
    (∃ cell ∈ computation.path env, env cell = none) ↔
      ∃ cell ∈ computation.path filled, env cell = none := by
  induction computation with
  | done value => simp [path]
  | read cell held next ih =>
    cases found : env cell with
    | none => simp [path, found]
    | some value =>
      have same : filled cell = some value := by rw [extends_env cell (by simp [found]), found]
      simp [path, found, same, ih value]

/-- A run that asks for nothing has ended already. -/
theorem path_nil {computation : Reading ρ ν σ α} (nothing : computation.path env = []) :
    ∃ value, computation = .done value := by
  cases computation with
  | done value => exact ⟨value, rfl⟩
  | read cell held next =>
    rw [path] at nothing
    cases nothing

/-- With no cell set, a run that asks for something stops at once. -/
theorem run_unset (computation : Reading ρ ν σ α) (unset : ∀ cell, env cell = none)
    (asks : ∀ value, computation ≠ .done value) : ∃ held, computation.run env = .error held := by
  cases computation with
  | done value => exact absurd rfl (asks value)
  | read cell held next =>
    rw [run, unset]
    exact ⟨held, rfl⟩

/-- A chain of reads ends with its value, or stops with what it holds. -/
theorem run_readAll (held : σ) (value : α) (cells : List ρ) :
    (readAll held value cells : Reading ρ ν σ α).run env =
      if ∀ cell ∈ cells, env cell ≠ none then .ok value else .error held := by
  induction cells with
  | nil => simp [readAll]
  | cons cell cells ih =>
    cases found : env cell with
    | none => simp [readAll, run, found]
    | some _ => simp [readAll, run, found, ih]

end Runs

end Reading

end EvmBabble.Library
