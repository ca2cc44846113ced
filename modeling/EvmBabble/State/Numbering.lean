/-
The numbers of logs.

A log carries the index that a counter of the `StateDB` had when it was emitted, and the transaction
and block that `Prepare` was told. A commit keeps the `StateDB` and `resetWAS` copies it, so the
counter and the filed logs go on from block to block; only a restart begins anew.

* `Numbered` — receipts that hold the logs of their own transactions, numbered through.
* `made_numbered_iff` — the receipts of a block are numbered from some index on exactly when the
  counter stands there and nothing is filed under its hashes.
* `logs_numbered_iff` — runs of accepted operations and restarts, with and without the restarts.
-/

import EvmBabble.State.Lifetime

namespace EvmBabble

open Library

variable {World : Type} (geth : Geth World)

/-! ### The property -/

/-- Receipts that hold the logs of their own transactions: the logs have the indices from `first` on,
and the first transaction stands at `place` in its block. -/
structure Numbered (blockHash : Hash) (first place : Nat) (emitted : List (Hash × List LogEntry))
    (receipts : List Receipt) : Prop where
  indices : (receipts.flatMap Receipt.logs).map Log.index =
    List.range' first (receipts.flatMap Receipt.logs).length
  places : ∀ position receipt, receipts[position]? = some receipt → ∀ log ∈ receipt.logs,
    log.txIndex = place + position ∧ log.txHash = receipt.txHash ∧ log.blockHash = blockHash
  own : receipts.map (fun receipt => (receipt.txHash, receipt.logs.map Log.toLogEntry)) = emitted

/-- The hash of each transaction of a fold, with the logs it emitted. -/
def emissions (steps : List (TxStep World)) : List (Hash × List LogEntry) :=
  steps.map fun step => (geth.txHash step.t, step.executed.emitted)

/-- The fold of a block on the write-ahead state. -/
def State.steps (s : State World) (block : Block) : Outcome (List (TxStep World)) :=
  geth.txSteps (.ofBytes 32 block.hash) s.was.ethState.accounts s.was.gp block.transactions

/-- The receipts that a block adds. -/
def State.added (s : State World) (block : Block) : List Receipt :=
  (s.applyBlock geth block).1.receipts.drop s.was.receipts.length

/-- The property of a block: its receipts are numbered from 0 on. -/
def LogsNumbered (s : State World) (block : Block) : Prop :=
  ∀ steps, s.steps geth block = .ok steps →
    Numbered (.ofBytes 32 block.hash) 0 0 (emissions geth steps) (s.added geth block)

/-! ### The condition -/

/-- A log book that numbers logs from `first` on: the counter stands there, unless nothing is
emitted, and nothing is filed under a hash by the time its logs come. -/
structure Ready (statedb : StateDB World) (first : Nat) (emitted : List (Hash × List LogEntry)) :
    Prop where
  counter : statedb.logSize = first ∨ ∀ one ∈ emitted, one.2 = []
  unfiled : ∀ one ∈ emitted, statedb.logs one.1 = []
  unrepeated : emitted.Pairwise fun earlier later => earlier.1 = later.1 → earlier.2 = []

theorem ready_iff {statedb : StateDB World} {first : Nat} {emitted : List (Hash × List LogEntry)} :
    Ready statedb first emitted ↔ (statedb.logSize = first ∨ ∀ one ∈ emitted, one.2 = []) ∧
      (∀ one ∈ emitted, statedb.logs one.1 = []) ∧
        emitted.Pairwise fun earlier later => earlier.1 = later.1 → earlier.2 = [] :=
  ⟨fun ready => ⟨ready.counter, ready.unfiled, ready.unrepeated⟩,
    fun ⟨counter, unfiled, unrepeated⟩ => ⟨counter, unfiled, unrepeated⟩⟩

instance (statedb : StateDB World) (first : Nat) (emitted : List (Hash × List LogEntry)) :
    Decidable (Ready statedb first emitted) := decidable_of_iff _ ready_iff.symm

/-- A block on a log book that numbers its logs from 0 on. -/
def BookReady (s : State World) (block : Block) : Prop :=
  match s.steps geth block with
  | .ok steps => Ready s.was.ethState 0 (emissions geth steps)
  | .error _ => True
  | .panic => True

instance (s : State World) (block : Block) : Decidable (BookReady geth s block) := by
  unfold BookReady
  exact match s.steps geth block with
    | .ok steps => inferInstanceAs (Decidable (Ready s.was.ethState 0 (emissions geth steps)))
    | .error _ => inferInstanceAs (Decidable True)
    | .panic => inferInstanceAs (Decidable True)

/-! ### Stamped logs -/

section Stamps

variable {hash blockHash : Hash} {place first : Nat}

theorem stamp_length (emitted : List LogEntry) :
    (StateDB.stamp hash blockHash place first emitted).length = emitted.length := by
  rw [← List.length_map (f := Log.toLogEntry), StateDB.stamp_entries]

/-- Logs are stamped as they should be when their entries, their indices and their places are
right. -/
theorem stamp_iff {logs : List Log} {emitted : List LogEntry} :
    logs = StateDB.stamp hash blockHash place first emitted ↔
      logs.map Log.toLogEntry = emitted ∧ logs.map Log.index = List.range' first logs.length ∧
        ∀ log ∈ logs, log.txIndex = place ∧ log.txHash = hash ∧ log.blockHash = blockHash := by
  induction logs generalizing first emitted with
  | nil =>
    cases emitted with
    | nil => exact iff_of_true rfl ⟨rfl, rfl, List.forall_mem_nil _⟩
    | cons entry rest => exact iff_of_false nofun fun both => nomatch both.1
  | cons log logs ih =>
    cases emitted with
    | nil => exact iff_of_false nofun fun both => nomatch both.1
    | cons entry rest =>
      rw [StateDB.stamp, List.cons_eq_cons, ih, List.map_cons, List.map_cons, List.length_cons,
        List.range'_succ, List.cons_eq_cons, List.cons_eq_cons, List.forall_mem_cons]
      constructor
      · rintro ⟨rfl, entries, indices, places⟩
        exact ⟨⟨rfl, entries⟩, ⟨rfl, indices⟩, ⟨rfl, rfl, rfl⟩, places⟩
      · rintro ⟨⟨here, entries⟩, ⟨index, indices⟩, ⟨txIndex, txHash, block⟩, places⟩
        refine ⟨?_, entries, indices, places⟩
        cases log
        cases here
        cases index
        cases txIndex
        cases txHash
        cases block
        rfl

/-- Logs behind those that were filed are stamped from `first` on exactly when none were filed and the
counter stood there, if there are any. -/
theorem filed_stamp_iff {filed : List Log} {counter : Nat} {emitted : List LogEntry} :
    filed ++ StateDB.stamp hash blockHash place counter emitted =
        StateDB.stamp hash blockHash place first emitted ↔
      filed = [] ∧ (counter = first ∨ emitted = []) := by
  constructor
  · intro same
    have lengths := congrArg List.length same
    rw [List.length_append, stamp_length, stamp_length] at lengths
    obtain rfl : filed = [] := List.length_eq_zero_iff.mp (by omega)
    refine ⟨rfl, ?_⟩
    cases emitted with
    | nil => exact Or.inr rfl
    | cons entry rest => exact Or.inl (congrArg Log.index (List.cons.inj same).1)
  · rintro ⟨rfl, rfl | rfl⟩
    · rfl
    · rfl

end Stamps

section Receipts

variable {blockHash : Hash} {first place : Nat}

theorem numbered_nil : Numbered blockHash first place [] [] :=
  ⟨rfl, nofun, rfl⟩

/-- Numbered receipts one after another. -/
theorem numbered_cons {hash : Hash} {logs : List LogEntry} {emitted : List (Hash × List LogEntry)}
    {receipt : Receipt} {receipts : List Receipt} :
    Numbered blockHash first place ((hash, logs) :: emitted) (receipt :: receipts) ↔
      receipt.txHash = hash ∧ receipt.logs = StateDB.stamp hash blockHash place first logs ∧
        Numbered blockHash (first + logs.length) (place + 1) emitted receipts := by
  constructor
  · rintro ⟨indices, places, own⟩
    obtain ⟨here, later⟩ := List.cons.inj own
    obtain ⟨same, entries⟩ := Prod.mk.inj here
    have length : receipt.logs.length = logs.length := by rw [← entries, List.length_map]
    rw [List.flatMap_cons, List.map_append, List.length_append, ← List.range'_append_1] at indices
    obtain ⟨front, back⟩ := List.append_inj indices (by rw [List.length_map, List.length_range'])
    refine ⟨same, stamp_iff.mpr ⟨entries, front, fun log member => ?_⟩, ⟨length ▸ back, ?_, later⟩⟩
    · rw [← same]
      exact places 0 receipt rfl log member
    · intro position other found log member
      obtain ⟨txIndex, rest⟩ := places (position + 1) other found log member
      exact ⟨by omega, rest⟩
  · rintro ⟨same, stamped, indices, places, own⟩
    obtain ⟨entries, front, here⟩ := stamp_iff.mp stamped
    have length : receipt.logs.length = logs.length := by rw [← entries, List.length_map]
    refine ⟨?_, fun position other found log member => ?_, ?_⟩
    · rw [List.flatMap_cons, List.map_append, List.length_append, ← List.range'_append_1, front,
        indices, length]
    · cases position with
      | zero =>
        obtain rfl := Option.some.inj found
        rw [same]
        exact here log member
      | succ position =>
        obtain ⟨txIndex, rest⟩ := places position other found log member
        exact ⟨by omega, rest⟩
    · rw [List.map_cons, own, same, entries]

/-- There is one way to number logs. -/
theorem numbered_unique {emitted : List (Hash × List LogEntry)} {receipts others : List Receipt}
    (one : Numbered blockHash first place emitted receipts)
    (two : Numbered blockHash first place emitted others) :
    receipts.map Receipt.logs = others.map Receipt.logs := by
  induction emitted generalizing first place receipts others with
  | nil =>
    rw [List.map_eq_nil_iff.mp one.own, List.map_eq_nil_iff.mp two.own]
  | cons pair emitted ih =>
    obtain ⟨receipt, receipts, rfl, -, -⟩ := List.map_eq_cons_iff.mp one.own
    obtain ⟨other, others, rfl, -, -⟩ := List.map_eq_cons_iff.mp two.own
    obtain ⟨-, here, later⟩ := numbered_cons.mp one
    obtain ⟨-, there, rest⟩ := numbered_cons.mp two
    rw [List.map_cons, List.map_cons, here, there, ih later rest]

end Receipts

/-! ### The receipts of a block -/

section Made

variable {geth} {blockHash : Hash}

/-- Made receipts with the same logs are the same. -/
theorem made_congr {was other : WriteAheadState World} (total : was.totalUsedGas = other.totalUsedGas)
    {txIndex : Nat} {steps : List (TxStep World)}
    (logs : (was.made geth blockHash txIndex steps).map Receipt.logs =
      (other.made geth blockHash txIndex steps).map Receipt.logs) :
    was.made geth blockHash txIndex steps = other.made geth blockHash txIndex steps := by
  induction steps generalizing was other txIndex with
  | nil => rfl
  | cons step steps ih =>
    rw [WriteAheadState.made, WriteAheadState.made] at logs ⊢
    obtain ⟨here, later⟩ := List.cons.inj logs
    have receipt : was.stepReceipt geth blockHash txIndex step =
        other.stepReceipt geth blockHash txIndex step := by
      change (was.ethState.take geth blockHash txIndex step).getLogs (geth.txHash step.t) =
        (other.ethState.take geth blockHash txIndex step).getLogs (geth.txHash step.t) at here
      rw [WriteAheadState.stepReceipt, WriteAheadState.stepReceipt, total, here]
    have next : (was.take geth blockHash txIndex step).totalUsedGas =
        (other.take geth blockHash txIndex step).totalUsedGas :=
      congrArg (· + step.executed.gasUsed) total
    rw [receipt, ih next later]

theorem take_counter (statedb : StateDB World) (txIndex : Nat) (step : TxStep World) :
    (statedb.take geth blockHash txIndex step).logSize =
      statedb.logSize + step.executed.emitted.length := by
  rw [StateDB.take, StateDB.addLogs_eq]
  rfl

/-- Nothing is filed under a hash after a transaction under whose own hash nothing was. -/
theorem take_unfiled {statedb : StateDB World} (txIndex : Nat) {step : TxStep World}
    (none : statedb.logs (geth.txHash step.t) = []) {hash : Hash} :
    (statedb.take geth blockHash txIndex step).logs hash = [] ↔
      statedb.logs hash = [] ∧ (geth.txHash step.t = hash → step.executed.emitted = []) := by
  by_cases same : geth.txHash step.t = hash
  · subst same
    have filed : (statedb.take geth blockHash txIndex step).logs (geth.txHash step.t) = _ :=
      take_getLogs txIndex statedb step
    rw [none, List.nil_append] at filed
    rw [filed, none, ← List.length_eq_zero_iff, stamp_length, List.length_eq_zero_iff]
    exact ⟨fun silent => ⟨rfl, fun _ => silent⟩, fun both => both.2 rfl⟩
  · have kept : (statedb.take geth blockHash txIndex step).logs hash = statedb.logs hash :=
      takeSteps_logs txIndex statedb [step] hash (List.forall_mem_singleton.mpr same)
    rw [kept]
    exact (and_iff_left fun here => absurd here same).symm

variable (blockHash) in
/-- A log book and the first transaction of a list. -/
theorem ready_cons {statedb : StateDB World} {first : Nat} (txIndex : Nat) {step : TxStep World}
    {steps : List (TxStep World)} :
    Ready statedb first (emissions geth (step :: steps)) ↔
      (statedb.logs (geth.txHash step.t) = [] ∧
        (statedb.logSize = first ∨ step.executed.emitted = [])) ∧
      Ready (statedb.take geth blockHash txIndex step) (first + step.executed.emitted.length)
        (emissions geth steps) := by
  have whole : emissions geth (step :: steps) =
      (geth.txHash step.t, step.executed.emitted) :: emissions geth steps := rfl
  rw [ready_iff, ready_iff, take_counter, whole, List.forall_mem_cons, List.forall_mem_cons,
    List.pairwise_cons]
  constructor
  · rintro ⟨counter, ⟨none, unfiled⟩, apart, unrepeated⟩
    refine ⟨⟨none, counter.imp_right And.left⟩, ?_, fun one member => ?_, unrepeated⟩
    · exact counter.imp (congrArg (· + _)) And.right
    · exact (take_unfiled txIndex none).mpr ⟨unfiled one member, apart one member⟩
  · rintro ⟨⟨none, here⟩, counter, filed, unrepeated⟩
    have parts := fun one member => (take_unfiled txIndex none).mp (filed one member)
    refine ⟨?_, ⟨none, fun one member => (parts one member).1⟩, fun one member => (parts one member).2,
      unrepeated⟩
    rcases here with stands | silent
    · exact Or.inl stands
    · exact counter.imp Nat.add_right_cancel fun rest => ⟨silent, rest⟩

/-- **The receipts of a block are numbered** exactly when the log book is ready for it. -/
theorem made_numbered_iff {was : WriteAheadState World} {first place : Nat}
    {steps : List (TxStep World)} :
    Numbered blockHash first place (emissions geth steps) (was.made geth blockHash place steps) ↔
      Ready was.ethState first (emissions geth steps) := by
  induction steps generalizing was first place with
  | nil => exact iff_of_true numbered_nil ⟨Or.inr (List.forall_mem_nil _), List.forall_mem_nil _,
      List.Pairwise.nil⟩
  | cons step steps ih =>
    have logs : (was.stepReceipt geth blockHash place step).logs =
        was.ethState.logs (geth.txHash step.t) ++ StateDB.stamp (geth.txHash step.t) blockHash place
          was.ethState.logSize step.executed.emitted := take_getLogs place was.ethState step
    rw [ready_cons blockHash place, WriteAheadState.made]
    show Numbered blockHash first place ((geth.txHash step.t, step.executed.emitted) :: emissions geth steps)
      _ ↔ _
    rw [numbered_cons, logs, filed_stamp_iff, ih, ← and_assoc]
    exact and_congr_left' (and_iff_right rfl)

end Made

section Blocks

variable {geth} {s : State World} {block : Block}

/-- What a block adds are the receipts of its fold. -/
theorem added_made {steps : List (TxStep World)} (folded : s.steps geth block = .ok steps) :
    s.added geth block = s.was.made geth (.ofBytes 32 block.hash) 0 steps := by
  have taken := (applyTransactions_steps geth (.ofBytes 32 block.hash) s.was 0
    block.transactions).2 steps folded
  unfold State.added State.applyBlock
  rw [taken, takeSteps_receipts, List.drop_left]

/-- **The logs of a block are numbered exactly when the log book is ready for it.** -/
theorem block_numbered_iff : LogsNumbered geth s block ↔ BookReady geth s block := by
  unfold LogsNumbered BookReady
  cases folded : s.steps geth block with
  | error failure => exact iff_of_true nofun trivial
  | panic => exact iff_of_true nofun trivial
  | ok steps =>
    rw [added_made folded]
    constructor
    · intro numbered
      exact made_numbered_iff.mp (numbered steps rfl)
    · rintro ready other same
      cases same
      exact made_numbered_iff.mpr ready

theorem steps_fresh (fresh : s.was = .fresh s.statedb) :
    s.steps geth block = s.blockSteps geth block := by
  unfold State.steps
  rw [fresh]
  rfl

/-- Two log books that are ready for a block make the same receipts of it. -/
theorem ready_receipts {other : State World} (fresh : s.was = .fresh s.statedb)
    (otherFresh : other.was = .fresh other.statedb) {steps : List (TxStep World)}
    (folded : s.blockSteps geth block = .ok steps)
    (alike : other.blockSteps geth block = .ok steps) (ready : BookReady geth s block)
    (otherReady : BookReady geth other block) :
    (s.blockWas geth block steps).receipts = (other.blockWas geth block steps).receipts := by
  rw [← steps_fresh fresh] at folded
  rw [← steps_fresh otherFresh] at alike
  have one := block_numbered_iff.mpr ready steps folded
  have two := block_numbered_iff.mpr otherReady steps alike
  rw [added_made folded, fresh] at one
  rw [added_made alike, otherFresh] at two
  have same : (WriteAheadState.fresh s.statedb).made geth (.ofBytes 32 block.hash) 0 steps =
      (WriteAheadState.fresh other.statedb).made geth (.ofBytes 32 block.hash) 0 steps := by
    refine made_congr ?_ (numbered_unique one two)
    rfl
  rw [State.blockWas, State.blockWas, takeSteps_receipts, takeSteps_receipts, same]
  rfl

end Blocks

/-! ### Runs with restarts -/

/-- What a node goes through: operations that commit, and restarts. -/
inductive Turn
  | operation (operation : Operation)
  | restart

namespace State

variable (s : State World)

def turn : Turn → State World × Outcome Unit
  | .operation operation =>
    ((s.operate geth operation).1, (s.operate geth operation).2.map fun _ => ())
  | .restart => s.reopen geth

end State

def restarts (_ : State World) : Turn → Bool
  | .operation _ => false
  | .restart => true

/-- An accepted operation, or a restart at which the database and its committed root open. -/
def Proceeds (s : State World) : Turn → Prop
  | .operation operation => Accepts geth s operation
  | .restart => (newState geth s.db).isOk = true ∧ Reopens geth s

instance [DecidableEq World] (s : State World) (turn : Turn) : Decidable (Proceeds geth s turn) :=
  match turn with
  | .operation operation => inferInstanceAs (Decidable (Accepts geth s operation))
  | .restart => inferInstanceAs (Decidable (_ ∧ _))

/-- The property of a turn: the logs of a block are numbered. -/
def TurnNumbered (s : State World) : Turn → Prop
  | .operation (.createAccounts _) => True
  | .operation (.processBlock block) => LogsNumbered geth s block
  | .restart => True

def TurnReady (s : State World) : Turn → Prop
  | .operation (.createAccounts _) => True
  | .operation (.processBlock block) => BookReady geth s block
  | .restart => True

instance (s : State World) (turn : Turn) : Decidable (TurnReady geth s turn) :=
  match turn with
  | .operation (.createAccounts _) => inferInstanceAs (Decidable True)
  | .operation (.processBlock block) => inferInstanceAs (Decidable (BookReady geth s block))
  | .restart => inferInstanceAs (Decidable True)

/-- The turns without the restarts. -/
def unrestarted (s : State World) (turns : List Turn) : List Turn :=
  visibleInputs (State.turn geth) restarts s turns

/-- The property of a run: the logs of every block are numbered, with and without the restarts, and
both nodes store the same receipts. -/
def NumbersLogs (s : State World) (turns : List Turn) : Prop :=
  (Along (State.turn geth) (TurnNumbered geth) s turns ∧
      Along (State.turn geth) (TurnNumbered geth) s (unrestarted geth s turns)) ∧
    ∀ hash, (run (State.turn geth) s turns).1.db (receiptKey hash) =
      (run (State.turn geth) s (unrestarted geth s turns)).1.db (receiptKey hash)

section Runs

variable {geth} {s : State World}

theorem turns_numbered_iff {turns : List Turn} :
    Along (State.turn geth) (TurnNumbered geth) s turns ↔
      Along (State.turn geth) (TurnReady geth) s turns := by
  refine along_iff (State.turn geth) (fun _ => True) (fun s turn _ => ?_) (fun _ _ _ _ => trivial)
    trivial
  cases turn with
  | operation operation =>
    cases operation with
    | createAccounts accounts => exact Iff.rfl
    | processBlock block => exact block_numbered_iff
  | restart => exact Iff.rfl

/-- A restart comes back to the committed accounts if their root opens. -/
def Recovers (geth : Geth World) (s : State World) : Prop :=
  ∀ opened, newState geth s.db = .ok opened → Reopens geth s →
    opened.statedb.accounts = s.statedb.accounts

theorem unopened_recovers {failure : Failure} (stopped : headRoot geth s.db = .error failure) :
    Recovers geth s := by
  intro opened found
  exact nomatch (newState_error stopped).symm.trans found

theorem headed_recovers (headed : headRoot geth s.db = .ok (geth.root s.statedb.accounts)) :
    Recovers geth s := by
  intro opened found reopens
  obtain ⟨root, accounts, same, read, rfl⟩ := newState_some found
  obtain rfl := Except.ok.inj (headed.symm.trans same)
  exact Option.some.inj (read.symm.trans reopens)

/-- What is kept of a node and of the one that never restarts. -/
structure Twins (geth : Geth World) (left right : State World) : Prop where
  kept : Kept geth left
  recovers : Recovers geth left
  fresh : right.was = .fresh right.statedb
  db : left.db = right.db
  accounts : left.statedb.accounts = right.statedb.accounts

variable {left right : State World}

theorem restart_twins (twins : Twins geth left right) (proceeds : Proceeds geth left .restart) :
    Twins geth (left.turn geth .restart).1 right := by
  obtain ⟨opens, reopens⟩ := proceeds
  unfold State.turn State.reopen
  cases found : newState geth left.db with
  | error failure =>
    rw [found] at opens
    cases opens
  | ok opened =>
    obtain ⟨db, fresh⟩ := newState_fresh found
    refine ⟨⟨fresh, fun hash => db ▸ twins.kept.receipts hash⟩, fun other again _ => ?_, twins.fresh,
      db.trans twins.db, (twins.recovers opened found reopens).trans twins.accounts⟩
    rw [db, found] at again
    rw [Except.ok.inj again]

theorem createAccounts_twins (pool : geth.PoolLaws) (codec : geth.CodecLaws) (trie : geth.TrieLaws)
    (apart : geth.SignedApart) (twins : Twins geth left right) {accounts : AccountMap}
    (accepted : Accepts geth left (.createAccounts accounts)) :
    Twins geth (left.createAccounts geth accounts).1 (right.createAccounts geth accounts).1 ∧
      (left.createAccounts geth accounts).2 = (right.createAccounts geth accounts).2 := by
  obtain ⟨root, done⟩ := Outcome.isOk_iff.mp accepted
  obtain ⟨created, ran⟩ := State.createAccounts_accepted done
  rw [twins.kept.fresh] at ran
  change createAccountsLoop geth left.statedb.accounts accounts = _ at ran
  have one := createAccounts_eq codec twins.kept.fresh ran
  have two := createAccounts_eq codec twins.fresh (twins.accounts ▸ ran)
  refine ⟨⟨operate_kept pool codec trie left (.createAccounts accounts) twins.kept accepted,
    unopened_recovers (createAccounts_headRoot codec trie apart twins.kept done), ?_, ?_, ?_⟩, ?_⟩
  · rw [two]
  · rw [one, two, twins.db]
    exact stored_congr rfl rfl rfl
  · rw [one, two]
  · rw [one, two]

theorem processBlock_twins (pool : geth.PoolLaws) (codec : geth.CodecLaws) (trie : geth.TrieLaws)
    (apart : geth.SignedApart) (twins : Twins geth left right) {block : Block}
    (accepted : Accepts geth left (.processBlock block)) (leftReady : BookReady geth left block)
    (rightReady : BookReady geth right block) :
    Twins geth (left.processBlock geth block).1 (right.processBlock geth block).1 ∧
      (left.processBlock geth block).2 = (right.processBlock geth block).2 := by
  obtain ⟨root, done⟩ := Outcome.isOk_iff.mp accepted
  have fresh := twins.kept.fresh
  obtain ⟨steps, folded⟩ := (processBlock_accepted_iff pool codec trie fresh).mp ⟨root, done⟩
  have alike : right.blockSteps geth block = .ok steps := by
    rw [← folded, State.blockSteps, State.blockSteps, twins.accounts]
  have one := processBlock_steps pool codec trie fresh folded
  have two := processBlock_steps pool codec trie twins.fresh alike
  have stored : (left.blockWas geth block steps).stored geth left.db =
      (right.blockWas geth block steps).stored geth right.db := by
    rw [twins.db]
    refine stored_congr ?_ ?_ (ready_receipts fresh twins.fresh folded alike leftReady rightReady)
    · rw [State.blockWas, State.blockWas, takeSteps_accounts, takeSteps_accounts]
      exact congrArg (fun accounts => lastAccounts accounts steps) twins.accounts
    · rw [State.blockWas, State.blockWas, takeSteps_transactions, takeSteps_transactions]
      rfl
  refine ⟨⟨operate_kept pool codec trie left (.processBlock block) twins.kept accepted, ?_, ?_, ?_, ?_⟩,
    ?_⟩
  · by_cases empty : block.transactions = []
    · exact unopened_recovers (emptyBlock_headRoot pool codec trie apart twins.kept empty)
    · obtain ⟨headed, same⟩ := block_headRoot pool codec trie fresh empty done
      exact headed_recovers (same ▸ headed)
  · rw [two]
  · rw [one, two]
    exact stored
  · rw [one, two, twins.accounts]
  · rw [one, two, twins.accounts]

/-- Twins stay twins through an operation, and answer it alike. -/
theorem operate_twins (pool : geth.PoolLaws) (codec : geth.CodecLaws) (trie : geth.TrieLaws)
    (apart : geth.SignedApart) (twins : Twins geth left right) {operation : Operation}
    (accepted : Accepts geth left operation) (leftReady : TurnReady geth left (.operation operation))
    (rightReady : TurnReady geth right (.operation operation)) :
    Twins geth (left.turn geth (.operation operation)).1 (right.turn geth (.operation operation)).1 ∧
      (left.turn geth (.operation operation)).2 = (right.turn geth (.operation operation)).2 := by
  cases operation with
  | createAccounts accounts =>
    obtain ⟨later, outcomes⟩ := createAccounts_twins pool codec trie apart twins accepted
    exact ⟨later, congrArg (Outcome.map fun _ => ()) outcomes⟩
  | processBlock block =>
    obtain ⟨later, outcomes⟩ :=
      processBlock_twins pool codec trie apart twins accepted leftReady rightReady
    exact ⟨later, congrArg (Outcome.map fun _ => ()) outcomes⟩

/-- **Logs are numbered within their blocks**, with and without the restarts of a run, exactly when the
log book of each node is ready for every block; then both store the same receipts. -/
theorem logs_numbered_iff (pool : geth.PoolLaws) (codec : geth.CodecLaws) (trie : geth.TrieLaws)
    (apart : geth.SignedApart) (opened : newState geth Store.empty = .ok s) (turns : List Turn)
    (proceeds : Along (State.turn geth) (Proceeds geth) s turns) :
    NumbersLogs geth s turns ↔ Along (State.turn geth) (TurnReady geth) s turns ∧
      Along (State.turn geth) (TurnReady geth) s (unrestarted geth s turns) := by
  unfold NumbersLogs
  rw [turns_numbered_iff, turns_numbered_iff]
  refine and_iff_left_of_imp fun ready => ?_
  obtain ⟨db, fresh⟩ := newState_fresh opened
  have start : Twins geth s s := by
    refine ⟨newState_kept opened, fun other again _ => ?_, fresh, rfl, rfl⟩
    rw [db, opened] at again
    rw [Except.ok.inj again]
  have guarded := guarded_of_alongs (State.turn geth) restarts
    (along_and (State.turn geth) proceeds ready.1) ready.2
  have ends := (erasure (State.turn geth) restarts (Twins geth)
    (fun left right turn twins conditions hidden => by
      cases turn with
      | operation operation => cases hidden
      | restart => exact restart_twins twins conditions.1.1)
    (fun left right turn twins conditions shown => by
      cases turn with
      | restart => cases shown
      | operation operation =>
        obtain ⟨⟨accepted, leftReady⟩, rightReady⟩ := conditions
        exact operate_twins pool codec trie apart twins accepted leftReady (rightReady rfl))
    s s start guarded).2
  intro hash
  exact congrArg (fun db : Database => db (receiptKey hash)) ends.db

end Runs

/-! ### Logs of the small chain -/

namespace Sample

/-- Alice, and a contract that emits a log. -/
def loggingGenesis : AccountMap := [("0x01", ⟨"", [], "1000000"⟩), ("0x03", ⟨"3333a000", [], "0"⟩)]

/-- A transaction to that contract. -/
def logging (nonce : Nat) : Block := blockOf [signed nonce 30000 (.ofBytes 20 [3]) 0]

/-- Two logs in a block each: without the restart between them the second one has the index 1. -/
theorem second_log_not_numbered : newState Sample.geth Store.empty = .ok blank ∧
    Along (State.turn Sample.geth) (Proceeds Sample.geth) blank
      [.operation (.createAccounts loggingGenesis), .operation (.processBlock (logging 0)), .restart,
        .operation (.processBlock (logging 1))] ∧
    ¬ NumbersLogs Sample.geth blank
      [.operation (.createAccounts loggingGenesis), .operation (.processBlock (logging 0)), .restart,
        .operation (.processBlock (logging 1))] := by
  refine ⟨newState_empty, by decide +kernel, ?_⟩
  rintro ⟨-, same⟩
  exact absurd (same (txHash (signed 1 30000 (.ofBytes 20 [3]) 0))) (by decide +kernel)

/-- Logs in one block after a block without any, and a restart between them. -/
theorem first_log_numbered : NumbersLogs Sample.geth blank
    [.operation (.createAccounts loggingGenesis), .operation (.processBlock tip), .restart,
      .operation (.processBlock (logging 1))] :=
  (logs_numbered_iff poolLaws codecLaws trieLaws signedApart newState_empty _
    (by decide +kernel)).mpr (by decide +kernel)

end Sample

end EvmBabble
