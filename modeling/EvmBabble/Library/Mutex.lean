/-
Threads that share a state behind one lock.

A critical section is a `Routine`: one state step after another, each chosen by what it finds. A
thread is a list of actions: idle ones, which do not touch the shared state, sections, and an exit
that ends the process. A scheduler may let any thread move at any time; one that wants the lock while
another holds it stays where it is.

* `advance` — one move of one thread; `Process.entered` and `Process.returned` record the sections in
  the order in which they took the lock, and the values they gave.
* `serialized` — under every schedule, the shared state and the values are those of the sections run
  one after another in that order.
* `ends_last` — nothing returns after a value that ends the process.
* `projection` — and that order is, thread by thread, the order of the thread's own list.

`Guards` says the same of a mutex alone, in a system with other ways to wait: its owner is the one that
is inside.
-/

import EvmBabble.Library.Run
import Mathlib.Logic.Function.Basic

namespace EvmBabble.Library

/-- A critical section: state steps, each chosen by the state before it. -/
inductive Routine (σ α : Type) : Type
  | done (value : α)
  | step (effect : σ → σ) (next : σ → Routine σ α)

/-- A routine without interruption. -/
def Routine.run {σ α : Type} : Routine σ α → σ → σ × α
  | .done value, state => (state, value)
  | .step effect next, state => (next state).run (effect state)

/-- A routine that makes at most some number of steps, whatever it finds. -/
def Routine.Within {σ α : Type} : Nat → Routine σ α → Prop
  | _, .done _ => True
  | 0, .step _ _ => False
  | count + 1, .step _ next => ∀ state, (next state).Within count

/-- An action of a thread; a section is named by its label. -/
inductive Action (ι : Type) : Type
  | idle
  | locked (label : ι)
  | exit
deriving DecidableEq

/-- The labels of the sections of a thread. -/
def lockedLabels {ι : Type} : List (Action ι) → List ι
  | [] => []
  | .idle :: rest => lockedLabels rest
  | .locked label :: rest => label :: lockedLabels rest
  | .exit :: rest => lockedLabels rest

/-- A process of threads `τ`: the shared state, the section in progress with its thread, what each
thread has still to do, the sections so far and their values, and whether the process has ended. -/
structure Process (τ ι σ α : Type) where
  shared : σ
  owner : Option (τ × Routine σ α)
  pending : τ → List (Action ι)
  entered : List (τ × ι)
  returned : List (τ × α)
  ended : Bool

section Processes

variable {τ ι σ α : Type} [DecidableEq τ] (routine : ι → Routine σ α) (halts : τ → α → Bool)

/-- A process in which nothing has moved. -/
def Process.start (shared : σ) (pending : τ → List (Action ι)) : Process τ ι σ α :=
  ⟨shared, none, pending, [], [], false⟩

namespace Process

/-- A move of a thread outside the lock. -/
def moveOutside (p : Process τ ι σ α) (thread : τ) : Process τ ι σ α :=
  match p.pending thread with
  | [] => p
  | .idle :: rest => { p with pending := Function.update p.pending thread rest }
  | .exit :: rest => { p with pending := Function.update p.pending thread rest, ended := true }
  | .locked label :: rest =>
    match p.owner with
    | some _ => p
    | none =>
      { p with
        owner := some (thread, routine label)
        pending := Function.update p.pending thread rest
        entered := p.entered ++ [(thread, label)] }

/-- A move of a thread. -/
def advance (p : Process τ ι σ α) (thread : τ) : Process τ ι σ α :=
  if p.ended then p
  else match p.owner with
    | none => p.moveOutside routine thread
    | some (holder, body) =>
      if holder = thread then
        match body with
        | .done value =>
          { p with
            owner := none
            returned := p.returned ++ [(thread, value)]
            ended := halts thread value }
        | .step effect next =>
          { p with shared := effect p.shared, owner := some (thread, next p.shared) }
      else p.moveOutside routine thread

/-- The process after a schedule. -/
def schedule (p : Process τ ι σ α) (moves : List τ) : Process τ ι σ α :=
  moves.foldl (advance routine halts) p

end Process

/-- What every move preserves holds after every schedule. -/
theorem schedule_preserves (invariant : Process τ ι σ α → Prop)
    (preserved : ∀ p thread, invariant p → invariant (p.advance routine halts thread))
    {p : Process τ ι σ α} (holds : invariant p) (moves : List τ) :
    invariant (p.schedule routine halts moves) := by
  induction moves generalizing p with
  | nil => exact holds
  | cons thread moves ih => exact ih (preserved p thread holds)

/-! ### One after another -/

/-- A section run without interruption. -/
def serve (state : σ) (body : τ × ι) : σ × (τ × α) :=
  (((routine body.2).run state).1, (body.1, ((routine body.2).run state).2))

/-- The shared state and the values are those of the sections so far, one after another; the section
in progress comes to what it would have come to without interruption. -/
def Serial (initial : σ) (p : Process τ ι σ α) : Prop :=
  match p.owner with
  | none => run (serve routine) initial p.entered = (p.shared, p.returned)
  | some (holder, rest) => ∃ before label, p.entered = before ++ [(holder, label)] ∧
      (run (serve routine) initial before).2 = p.returned ∧
      rest.run p.shared = (routine label).run (run (serve routine) initial before).1

variable {routine halts} {initial : σ} {p : Process τ ι σ α}

theorem serial_moveOutside (serial : Serial routine initial p) (thread : τ) :
    Serial routine initial (p.moveOutside routine thread) := by
  unfold Process.moveOutside
  split
  · exact serial
  · exact serial
  · exact serial
  · next label rest wants =>
    split
    · exact serial
    · next free =>
      unfold Serial at serial
      rw [free] at serial
      exact ⟨p.entered, label, rfl, by rw [serial], by rw [serial]⟩

/-- **One move keeps the order.** -/
theorem serial_advance (serial : Serial routine initial p) (thread : τ) :
    Serial routine initial (p.advance routine halts thread) := by
  unfold Process.advance
  split
  · exact serial
  cases owned : p.owner with
  | none => exact serial_moveOutside serial thread
  | some held =>
    obtain ⟨holder, rest⟩ := held
    dsimp only
    split
    · next mine =>
      subst mine
      unfold Serial at serial
      rw [owned] at serial
      obtain ⟨before, label, entered, returned, alike⟩ := serial
      cases rest with
      | done value =>
        show run (serve routine) initial p.entered = (p.shared, p.returned ++ [(holder, value)])
        rw [entered, run_append, run_cons, run_nil, returned]
        show (((routine label).run _).1, _ ++ [(holder, ((routine label).run _).2)]) = _
        rw [← alike]
        rfl
      | step effect next => exact ⟨before, label, entered, returned, alike⟩
    · exact serial_moveOutside serial thread

variable (routine halts) in
/-- **Every schedule is the sections one after another**, in the order in which they took the lock. -/
theorem serialized (shared : σ) (pending : τ → List (Action ι)) (moves : List τ) :
    Serial routine shared
      ((Process.start shared pending : Process τ ι σ α).schedule routine halts moves) := by
  have start : Serial routine shared (Process.start shared pending : Process τ ι σ α) := rfl
  exact schedule_preserves routine halts (Serial routine shared)
    (fun _ thread serial => serial_advance serial thread) start moves

omit [DecidableEq τ] in
/-- The sections of one thread alone. -/
theorem run_serve_thread (thread : τ) (labels : List ι) (state : σ) :
    run (serve routine) state (labels.map (Prod.mk thread)) =
      ((run (fun state label => (routine label).run state) state labels).1,
        (run (fun state label => (routine label).run state) state labels).2.map
          (Prod.mk thread)) := by
  induction labels generalizing state with
  | nil => rfl
  | cons label labels ih => rw [List.map_cons, run_cons, run_cons, ih]; rfl

omit [DecidableEq τ] in
/-- The values so far are the first ones of the sections run one after another. -/
theorem Serial.prefix_returned (serial : Serial routine initial p) :
    p.returned <+: (run (serve routine) initial p.entered).2 := by
  unfold Serial at serial
  split at serial
  · exact ⟨[], by rw [List.append_nil, serial]⟩
  · obtain ⟨before, label, entered, returned, -⟩ := serial
    rw [entered, run_append, ← returned]
    exact List.prefix_append _ _

/-! ### The end of the process -/

/-- Only the last value can have ended the process. -/
def EndsLast (halts : τ → α → Bool) (p : Process τ ι σ α) : Prop :=
  (∀ pair ∈ p.returned.dropLast, halts pair.1 pair.2 = false) ∧
    (p.ended = false → ∀ pair ∈ p.returned, halts pair.1 pair.2 = false)

theorem endsLast_moveOutside (last : EndsLast halts p) (going : p.ended = false) (thread : τ) :
    EndsLast halts (p.moveOutside routine thread) := by
  unfold Process.moveOutside
  split
  · exact last
  · exact last
  · exact ⟨last.1, fun _ => last.2 going⟩
  · split
    · exact last
    · exact last

theorem endsLast_advance (last : EndsLast halts p) (thread : τ) :
    EndsLast halts (p.advance routine halts thread) := by
  unfold Process.advance
  split
  · exact last
  · next running =>
    have going : p.ended = false := Bool.eq_false_iff.mpr running
    split
    · exact endsLast_moveOutside last going thread
    · split
      · split
        · next value =>
          refine ⟨fun pair member => ?_, fun goes pair member => ?_⟩
          · rw [List.dropLast_concat] at member
            exact last.2 going pair member
          · rcases List.mem_append.mp member with old | new
            · exact last.2 going pair old
            · rw [List.mem_singleton.mp new]
              exact goes
        · exact last
      · exact endsLast_moveOutside last going thread

variable (routine halts) in
/-- **Nothing returns after a value that ends the process.** -/
theorem ends_last (shared : σ) (pending : τ → List (Action ι)) (moves : List τ) :
    EndsLast halts
      ((Process.start shared pending : Process τ ι σ α).schedule routine halts moves) :=
  schedule_preserves routine halts (EndsLast halts)
    (fun _ thread last => endsLast_advance last thread)
    ⟨fun _ member => absurd member List.not_mem_nil,
      fun _ _ member => absurd member List.not_mem_nil⟩ moves

omit [DecidableEq τ] in
/-- The values up to one that ends the process. -/
theorem EndsLast.prefix_returned (last : EndsLast halts p) {before after : List (τ × α)}
    {pair : τ × α} (listed : p.returned <+: before ++ pair :: after)
    (ends : halts pair.1 pair.2 = true) : p.returned <+: before ++ [pair] := by
  have split : before ++ pair :: after = (before ++ [pair]) ++ after := by simp
  rw [split] at listed
  by_cases short : p.returned.length ≤ (before ++ [pair]).length
  · exact List.prefix_of_prefix_length_le listed (List.prefix_append _ _) short
  · obtain ⟨more, same⟩ := List.prefix_of_prefix_length_le (List.prefix_append _ _) listed
      (Nat.le_of_not_le short)
    have longer : more ≠ [] := fun blank => short (Nat.le_of_eq (by
      rw [← same, blank, List.append_nil]))
    have member : pair ∈ p.returned.dropLast := by
      rw [← same, List.dropLast_append_of_ne_nil longer]
      simp
    exact absurd ends (by rw [last.1 pair member]; exact Bool.false_ne_true)

/-! ### The order of each thread -/

/-- The sections of a thread among those that took the lock. -/
def ofThread {β : Type} (thread : τ) (list : List (τ × β)) : List β :=
  (list.filter fun pair => pair.1 = thread).map Prod.snd

theorem ofThread_append {β : Type} (thread : τ) (first second : List (τ × β)) :
    ofThread thread (first ++ second) = ofThread thread first ++ ofThread thread second := by
  rw [ofThread, List.filter_append, List.map_append]
  rfl

theorem ofThread_map (thread : τ) {β : Type} (list : List β) :
    ofThread thread (list.map (Prod.mk thread)) = list := by
  induction list with
  | nil => rfl
  | cons value list ih => simpa [ofThread] using ih

theorem prefix_ofThread (thread : τ) {β : Type} {first whole : List (τ × β)}
    (listed : first <+: whole) : ofThread thread first <+: ofThread thread whole :=
  (listed.filter _).map _

/-- What a thread's own list was: what it has done under the lock, then what it has still to do. -/
def InOrder (pending : τ → List (Action ι)) (p : Process τ ι σ α) : Prop :=
  ∀ thread, ofThread thread p.entered ++ lockedLabels (p.pending thread) =
    lockedLabels (pending thread)

theorem inOrder_moveOutside {pending : τ → List (Action ι)} (ordered : InOrder pending p)
    (thread : τ) : InOrder pending (p.moveOutside routine thread) := by
  intro other
  have before := ordered other
  unfold Process.moveOutside
  split
  · exact before
  · next rest here =>
    by_cases same : other = thread
    · subst same
      rw [here] at before
      simpa [lockedLabels] using before
    · simpa [Function.update_of_ne same] using before
  · next rest here =>
    by_cases same : other = thread
    · subst same
      rw [here] at before
      simpa [lockedLabels] using before
    · simpa [Function.update_of_ne same] using before
  · next label rest here =>
    split
    · exact before
    · by_cases same : other = thread
      · subst same
        rw [here] at before
        simpa [lockedLabels, ofThread] using before
      · have apart : ¬ thread = other := fun found => same found.symm
        simpa [Function.update_of_ne same, ofThread, apart] using before

theorem inOrder_advance {pending : τ → List (Action ι)} (ordered : InOrder pending p)
    (thread : τ) : InOrder pending (p.advance routine halts thread) := by
  unfold Process.advance
  split
  · exact ordered
  split
  · exact inOrder_moveOutside ordered thread
  · split
    · split
      · exact ordered
      · exact ordered
    · exact inOrder_moveOutside ordered thread

variable (routine halts) in
/-- **Thread by thread**, the sections take the lock in the order of the thread's list. -/
theorem projection (shared : σ) (pending : τ → List (Action ι)) (moves : List τ) :
    InOrder pending
      ((Process.start shared pending : Process τ ι σ α).schedule routine halts moves) :=
  schedule_preserves routine halts (InOrder pending)
    (fun _ thread ordered => inOrder_advance ordered thread) (fun _ => rfl) moves

end Processes

/-! ### A mutex and the thread inside -/

section Guards

variable {τ : Type} [DecidableEq τ] {owner : Option τ} {inside : τ → Bool} {thread : τ}

/-- The owner of a mutex is the thread that is inside. -/
def Guards (owner : Option τ) (inside : τ → Bool) : Prop :=
  ∀ thread, owner = some thread ↔ inside thread = true

theorem guards_acquire (guards : Guards none inside) :
    Guards (some thread) (Function.update inside thread true) := by
  intro other
  by_cases same : other = thread
  · subst same
    simp
  · rw [Function.update_of_ne same, ← guards other]
    simp [Ne.symm same]

theorem guards_release (guards : Guards owner inside) (here : inside thread = true) :
    Guards none (Function.update inside thread false) := by
  intro other
  by_cases same : other = thread
  · subst same
    simp
  · rw [Function.update_of_ne same, ← guards other, (guards thread).mpr here]
    simp [Ne.symm same]

/-- A thread that stays where it is, inside or outside. -/
theorem guards_stay {still : Bool} (guards : Guards owner inside) (same : inside thread = still) :
    Guards owner (Function.update inside thread still) := by
  rw [← same, Function.update_eq_self]
  exact guards

omit [DecidableEq τ] in
/-- **Mutual exclusion**: of two threads, one is outside. -/
theorem guards_apart {other : τ} (guards : Guards owner inside) (here : inside thread = true)
    (apart : other ≠ thread) : inside other = false := by
  by_contra there
  have both := (guards other).mpr (by simpa using there)
  rw [(guards thread).mpr here] at both
  exact apart (Option.some.inj both).symm

end Guards

end EvmBabble.Library
