/-
The reference meaning of a block.

`Geth.txSteps` folds decoding, sender recovery and message application over a list of transactions
and keeps nothing but account states, gas pools and what each message reported; the account state
after a transaction is finalised, as `IntermediateRoot(true)` leaves it. `takeSteps` says what the
write-ahead state holds after such a list.

* `applyTransactions_steps` — the loop of `ProcessBlock` succeeds exactly when the fold does, and then
  leaves the write-ahead state that took the steps of the fold.
* `processBlock_steps` — the block's outcome is that of the fold, and the node moves to the fold's
  last account state.
* `processBlock_reference` — what is stored for each transaction of the block.
-/

import EvmBabble.State.Stored
import EvmBabble.State.Sample
import Mathlib.Algebra.Order.Ring.Int

namespace EvmBabble

open Library

variable {World : Type} (geth : Geth World)

/-! ### The fold -/

/-- One transaction of the fold: what was read, what its message reported, and the finalised account
state and the pool after it. -/
structure TxStep (World : Type) where
  t : Transaction
  message : Message
  executed : Executed
  accounts : World
  pool : Int

namespace Geth

/-- A transaction on an account state and a pool. -/
def txStep (blockHash : Hash) (accounts : World) (pool : Int) (txBytes : Bytes) :
    Outcome (TxStep World) :=
  match geth.readMessage txBytes with
  | .error failure => .error failure
  | .ok (t, message) =>
    let applied := geth.execute (transactionContext message blockHash) message accounts pool
    applied.outcome.map fun executed =>
      ⟨t, message, executed, geth.finalise applied.state, applied.pool⟩

/-- The fold over a list of transactions. -/
def txSteps (blockHash : Hash) : World → Int → List Bytes → Outcome (List (TxStep World))
  | _, _, [] => .ok []
  | accounts, pool, txBytes :: rest =>
    (geth.txStep blockHash accounts pool txBytes).bind fun step =>
      (txSteps blockHash step.accounts step.pool rest).map fun steps => step :: steps

end Geth

/-- A step is a transaction that was read and whose message ended well. -/
theorem txStep_ok {geth : Geth World} {blockHash : Hash} {accounts : World} {pool : Int}
    {txBytes : Bytes} {step : TxStep World}
    (stepped : geth.txStep blockHash accounts pool txBytes = .ok step) :
    ∃ t message executed, geth.readMessage txBytes = .ok (t, message) ∧
      (geth.execute (transactionContext message blockHash) message accounts pool).outcome =
        .ok executed ∧
      step = ⟨t, message, executed,
        geth.finalise (geth.execute (transactionContext message blockHash) message accounts pool).state,
        (geth.execute (transactionContext message blockHash) message accounts pool).pool⟩ := by
  unfold Geth.txStep at stepped
  split at stepped
  · cases stepped
  · next t message read =>
    obtain ⟨executed, finished, rfl⟩ := Outcome.map_ok stepped
    exact ⟨t, message, executed, read, finished, rfl⟩

/-- The account state after the steps of a fold. -/
def lastAccounts (accounts : World) : List (TxStep World) → World
  | [] => accounts
  | step :: steps => lastAccounts step.accounts steps

/-- The gas the messages of a fold used. -/
def usedGas (steps : List (TxStep World)) : Int := (steps.map fun step => step.executed.gasUsed).sum

/-! ### The state database and the write-ahead state along the fold -/

/-- The state database after a step: the logs are filed, the accounts are the step's. -/
def StateDB.take (statedb : StateDB World) (blockHash : Hash) (txIndex : Nat) (step : TxStep World) :
    StateDB World :=
  { (statedb.prepare (geth.txHash step.t) blockHash txIndex).addLogs step.executed.emitted with
    accounts := step.accounts }

def StateDB.takeSteps (blockHash : Hash) :
    StateDB World → Nat → List (TxStep World) → StateDB World
  | statedb, _, [] => statedb
  | statedb, txIndex, step :: steps =>
    takeSteps blockHash (statedb.take geth blockHash txIndex step) (txIndex + 1) steps

namespace WriteAheadState

/-- The receipt a step adds. -/
def stepReceipt (was : WriteAheadState World) (blockHash : Hash) (txIndex : Nat)
    (step : TxStep World) : Receipt :=
  makeReceipt geth step.t step.message (geth.root step.accounts) step.executed
    (was.totalUsedGas + step.executed.gasUsed)
    ((was.ethState.take geth blockHash txIndex step).getLogs (geth.txHash step.t))

/-- The write-ahead state after a step. -/
def take (was : WriteAheadState World) (blockHash : Hash) (txIndex : Nat) (step : TxStep World) :
    WriteAheadState World where
  ethState := was.ethState.take geth blockHash txIndex step
  txIndex := was.txIndex + 1
  transactions := was.transactions ++ [step.t]
  receipts := was.receipts ++ [was.stepReceipt geth blockHash txIndex step]
  allLogs := was.allLogs ++ (was.stepReceipt geth blockHash txIndex step).logs
  totalUsedGas := was.totalUsedGas + step.executed.gasUsed
  gp := step.pool

def takeSteps (blockHash : Hash) :
    WriteAheadState World → Nat → List (TxStep World) → WriteAheadState World
  | was, _, [] => was
  | was, txIndex, step :: steps =>
    takeSteps blockHash (was.take geth blockHash txIndex step) (txIndex + 1) steps

/-- The receipts that the steps of a fold add. -/
def made (blockHash : Hash) :
    WriteAheadState World → Nat → List (TxStep World) → List Receipt
  | _, _, [] => []
  | was, txIndex, step :: steps =>
    was.stepReceipt geth blockHash txIndex step ::
      made blockHash (was.take geth blockHash txIndex step) (txIndex + 1) steps

end WriteAheadState

section Loop

variable {geth} {blockHash : Hash} {was : WriteAheadState World} {txIndex : Nat}

/-- The recorded write-ahead state is the one that took the step. -/
theorem record_eq_take {t : Transaction} {message : Message} {applied : Applied World}
    {executed : Executed} (ran : geth.execute (transactionContext message blockHash) message
      was.ethState.accounts was.gp = applied) (finished : applied.outcome = .ok executed) :
    was.record geth t message (was.runMessage geth t message txIndex blockHash) executed =
      was.take geth blockHash txIndex
        ⟨t, message, executed, geth.finalise applied.state, applied.pool⟩ := by
  have prepared : geth.execute (transactionContext message blockHash) message
      (was.ethState.prepare (geth.txHash t) blockHash txIndex).accounts was.gp = applied := by
    rw [StateDB.prepare_accounts, ran]
  have state := geth.applyMessage_state (prepared ▸ finished)
  rw [prepared] at state
  have pool : (was.runMessage geth t message txIndex blockHash).pool = applied.pool := by
    rw [WriteAheadState.runMessage, Geth.applyMessage_pool, prepared]
  unfold WriteAheadState.record Geth.intermediateRoot
  rw [pool]
  unfold WriteAheadState.runMessage
  rw [state]
  rfl

variable (geth blockHash was txIndex) in
theorem applyTransaction_step (txBytes : Bytes) :
    (applyTransaction geth was txBytes txIndex blockHash).2 =
        (geth.txStep blockHash was.ethState.accounts was.gp txBytes).map (fun _ => ()) ∧
      ∀ step, geth.txStep blockHash was.ethState.accounts was.gp txBytes = .ok step →
        (applyTransaction geth was txBytes txIndex blockHash).1 =
          was.take geth blockHash txIndex step := by
  unfold Geth.txStep
  cases read : geth.readMessage txBytes with
  | error failure =>
    rw [applyTransaction_unread read]
    refine ⟨rfl, fun step same => ?_⟩
    cases same
  | ok found =>
    obtain ⟨t, message⟩ := found
    rw [applyTransaction_read read]
    unfold WriteAheadState.afterMessage
    dsimp only
    cases outcome : (geth.execute (transactionContext message blockHash) message
        was.ethState.accounts was.gp).outcome with
    | error failure =>
      have stopped : (was.runMessage geth t message txIndex blockHash).outcome =
        .error failure := outcome
      rw [stopped]
      refine ⟨rfl, fun step same => ?_⟩
      cases same
    | panic =>
      have stopped : (was.runMessage geth t message txIndex blockHash).outcome = .panic := outcome
      rw [stopped]
      refine ⟨rfl, fun step same => ?_⟩
      cases same
    | ok executed =>
      have finished : (was.runMessage geth t message txIndex blockHash).outcome =
        .ok executed := outcome
      rw [finished]
      refine ⟨rfl, fun step same => ?_⟩
      cases same
      exact record_eq_take rfl outcome

variable (geth blockHash was txIndex) in
/-- **The loop of a block and the fold**: the same outcome, and on success the write-ahead state that
took the steps. -/
theorem applyTransactions_steps (transactions : List Bytes) :
    (applyTransactions geth blockHash was txIndex transactions).2 =
        (geth.txSteps blockHash was.ethState.accounts was.gp transactions).map (fun _ => ()) ∧
      ∀ steps, geth.txSteps blockHash was.ethState.accounts was.gp transactions = .ok steps →
        (applyTransactions geth blockHash was txIndex transactions).1 =
          was.takeSteps geth blockHash txIndex steps := by
  induction transactions generalizing was txIndex with
  | nil => exact ⟨rfl, fun steps same => by cases same; rfl⟩
  | cons txBytes rest ih =>
    obtain ⟨outcome, taken⟩ := applyTransaction_step geth blockHash was txIndex txBytes
    rw [applyTransactions_cons, continueBlock, Geth.txSteps]
    cases first : geth.txStep blockHash was.ethState.accounts was.gp txBytes with
    | error failure =>
      rw [first] at outcome
      rw [outcome]
      refine ⟨outcome, fun steps same => ?_⟩
      cases same
    | panic =>
      rw [first] at outcome
      rw [outcome]
      refine ⟨outcome, fun steps same => ?_⟩
      cases same
    | ok step =>
      rw [first] at outcome
      rw [outcome, taken step first]
      obtain ⟨later, takes⟩ := ih (was.take geth blockHash txIndex step) (txIndex + 1)
      change (applyTransactions _ _ _ _ _).2 = Outcome.map _
        (geth.txSteps blockHash step.accounts step.pool rest) at later
      change ∀ steps, geth.txSteps blockHash step.accounts step.pool rest = .ok steps → _ at takes
      show (applyTransactions geth blockHash (was.take geth blockHash txIndex step) (txIndex + 1)
          rest).2 = Outcome.map _ (Outcome.map _ (geth.txSteps blockHash step.accounts step.pool rest)) ∧
        ∀ steps, Outcome.map _ (geth.txSteps blockHash step.accounts step.pool rest) = .ok steps → _
      rw [later]
      cases tail : geth.txSteps blockHash step.accounts step.pool rest with
      | error failure =>
        refine ⟨rfl, fun steps same => ?_⟩
        cases same
      | panic =>
        refine ⟨rfl, fun steps same => ?_⟩
        cases same
      | ok steps =>
        refine ⟨rfl, fun all same => ?_⟩
        cases same
        exact takes steps tail

end Loop

/-! ### What the write-ahead state took -/

section Taken

variable {geth} {blockHash : Hash} (was : WriteAheadState World) (txIndex : Nat)

theorem lastAccounts_append (accounts : World) (before after : List (TxStep World)) :
    lastAccounts accounts (before ++ after) = lastAccounts (lastAccounts accounts before) after := by
  induction before generalizing accounts with
  | nil => rfl
  | cons step steps ih => exact ih step.accounts

theorem takeSteps_append (before after : List (TxStep World)) :
    was.takeSteps geth blockHash txIndex (before ++ after) =
      (was.takeSteps geth blockHash txIndex before).takeSteps geth blockHash
        (txIndex + before.length) after := by
  induction before generalizing was txIndex with
  | nil => rfl
  | cons step steps ih =>
    rw [List.cons_append, WriteAheadState.takeSteps, ih, List.length_cons, Nat.add_assoc,
      Nat.add_comm 1]
    rfl

theorem takeSteps_ethState (steps : List (TxStep World)) :
    (was.takeSteps geth blockHash txIndex steps).ethState =
      was.ethState.takeSteps geth blockHash txIndex steps := by
  induction steps generalizing was txIndex with
  | nil => rfl
  | cons step steps ih => exact ih _ _

theorem takeSteps_accounts (steps : List (TxStep World)) :
    (was.takeSteps geth blockHash txIndex steps).ethState.accounts =
      lastAccounts was.ethState.accounts steps := by
  induction steps generalizing was txIndex with
  | nil => rfl
  | cons step steps ih => exact ih _ _

theorem takeSteps_transactions (steps : List (TxStep World)) :
    (was.takeSteps geth blockHash txIndex steps).transactions =
      was.transactions ++ steps.map TxStep.t := by
  induction steps generalizing was txIndex with
  | nil => exact (List.append_nil _).symm
  | cons step steps ih =>
    rw [WriteAheadState.takeSteps, ih, List.map_cons, WriteAheadState.take, List.append_assoc]
    rfl

theorem takeSteps_totalUsedGas (steps : List (TxStep World)) :
    (was.takeSteps geth blockHash txIndex steps).totalUsedGas =
      was.totalUsedGas + usedGas steps := by
  induction steps generalizing was txIndex with
  | nil => exact (Int.add_zero _).symm
  | cons step steps ih =>
    rw [WriteAheadState.takeSteps, ih, usedGas, usedGas, List.map_cons, List.sum_cons,
      WriteAheadState.take, Int.add_assoc]

variable (geth blockHash) in
theorem takeSteps_receipts (steps : List (TxStep World)) :
    (was.takeSteps geth blockHash txIndex steps).receipts =
      was.receipts ++ was.made geth blockHash txIndex steps := by
  induction steps generalizing was txIndex with
  | nil => exact (List.append_nil _).symm
  | cons step steps ih =>
    rw [WriteAheadState.takeSteps, ih, WriteAheadState.made, WriteAheadState.take, List.append_assoc]
    rfl

variable (geth blockHash) in
/-- The receipts are one for each step and under its hash. -/
theorem made_hashes (steps : List (TxStep World)) :
    (was.made geth blockHash txIndex steps).map Receipt.txHash =
      steps.map fun step => geth.txHash step.t := by
  induction steps generalizing was txIndex with
  | nil => rfl
  | cons step steps ih =>
    rw [WriteAheadState.made, List.map_cons, List.map_cons, ih]
    rfl

/-- Logs filed under a hash that no step has are left alone. -/
theorem takeSteps_logs (statedb : StateDB World) (steps : List (TxStep World)) (hash : Hash)
    (other : ∀ step ∈ steps, geth.txHash step.t ≠ hash) :
    (statedb.takeSteps geth blockHash txIndex steps).logs hash = statedb.logs hash := by
  induction steps generalizing statedb txIndex with
  | nil => rfl
  | cons step steps ih =>
    rw [StateDB.takeSteps, ih _ _ fun later member => other later (List.mem_cons_of_mem _ member),
      StateDB.take, StateDB.addLogs_eq]
    exact Function.update_of_ne (fun same => other step List.mem_cons_self same.symm) _ _

/-- The logs filed under a step's hash: those there before it, then its own. -/
theorem take_getLogs (statedb : StateDB World) (step : TxStep World) :
    (statedb.take geth blockHash txIndex step).getLogs (geth.txHash step.t) =
      statedb.logs (geth.txHash step.t) ++ StateDB.stamp (geth.txHash step.t) blockHash txIndex
        statedb.logSize step.executed.emitted := by
  rw [StateDB.getLogs, StateDB.take, StateDB.addLogs_eq]
  exact Function.update_self _ _ _

end Taken

/-! ### Steps that come from a fold -/

/-- A step whose transaction was read, whose message used no negative gas, and whose account state
is finalised. -/
structure TxStep.Sound (step : TxStep World) : Prop where
  read : ∃ txBytes, geth.readMessage txBytes = .ok (step.t, step.message)
  used : 0 ≤ step.executed.gasUsed
  finalised : geth.finalise step.accounts = step.accounts

section Sound

variable {geth} {blockHash : Hash}

theorem txStep_sound (pool : geth.PoolLaws) (codec : geth.CodecLaws) (trie : geth.TrieLaws)
    {accounts : World} {gas : Int} {txBytes : Bytes} {step : TxStep World}
    (stepped : geth.txStep blockHash accounts gas txBytes = .ok step) : step.Sound geth := by
  obtain ⟨t, message, executed, read, finished, rfl⟩ := txStep_ok stepped
  exact ⟨⟨txBytes, read⟩, (pool.bounds _ _ _ _ _ finished (gasLimit_nonneg codec read)).1,
    trie.finalise_finalise _⟩

/-- What every step of a transaction meets, every step of a fold does. -/
theorem txSteps_each {holds : TxStep World → Prop}
    (each : ∀ accounts gas txBytes step, geth.txStep blockHash accounts gas txBytes = .ok step →
      holds step)
    {transactions : List Bytes} {accounts : World} {gas : Int} {steps : List (TxStep World)}
    (folded : geth.txSteps blockHash accounts gas transactions = .ok steps) :
    ∀ step ∈ steps, holds step := by
  induction transactions generalizing accounts gas steps with
  | nil =>
    cases folded
    exact fun step member => absurd member List.not_mem_nil
  | cons txBytes rest ih =>
    obtain ⟨first, stepped, later⟩ := Outcome.bind_ok folded
    obtain ⟨others, tail, rfl⟩ := Outcome.map_ok later
    exact List.forall_mem_cons.mpr ⟨each _ _ _ _ stepped, ih tail⟩

theorem txSteps_sound (pool : geth.PoolLaws) (codec : geth.CodecLaws) (trie : geth.TrieLaws)
    {transactions : List Bytes} {accounts : World} {gas : Int} {steps : List (TxStep World)}
    (folded : geth.txSteps blockHash accounts gas transactions = .ok steps) :
    ∀ step ∈ steps, step.Sound geth :=
  txSteps_each (fun _ _ _ _ stepped => txStep_sound pool codec trie stepped) folded

/-- A fold has a step for each transaction, with what was read of it. -/
theorem txSteps_reads {transactions : List Bytes} {accounts : World} {gas : Int}
    {steps : List (TxStep World)}
    (folded : geth.txSteps blockHash accounts gas transactions = .ok steps) :
    transactions.map geth.readMessage = steps.map fun step => .ok (step.t, step.message) := by
  induction transactions generalizing accounts gas steps with
  | nil =>
    cases folded
    rfl
  | cons txBytes rest ih =>
    obtain ⟨step, stepped, later⟩ := Outcome.bind_ok folded
    obtain ⟨others, tail, rfl⟩ := Outcome.map_ok later
    rw [List.map_cons, List.map_cons, ih tail]
    obtain ⟨t, message, executed, read, -, rfl⟩ := txStep_ok stepped
    rw [read]

theorem txSteps_length {transactions : List Bytes} {accounts : World} {gas : Int}
    {steps : List (TxStep World)}
    (folded : geth.txSteps blockHash accounts gas transactions = .ok steps) :
    steps.length = transactions.length := by
  rw [← List.length_map (f := geth.readMessage), txSteps_reads folded, List.length_map]

/-- The last account state of sound steps is finalised. -/
theorem lastAccounts_finalised {steps : List (TxStep World)} (sound : ∀ step ∈ steps, step.Sound geth)
    (nonempty : steps ≠ []) (accounts : World) :
    geth.finalise (lastAccounts accounts steps) = lastAccounts accounts steps := by
  obtain ⟨before, last, rfl⟩ := List.eq_nil_or_concat steps |>.resolve_left nonempty
  rw [List.concat_eq_append, lastAccounts_append]
  exact (sound last (by simp)).finalised

/-- Sound steps keep every receipt storable. -/
theorem takeSteps_storable {was : WriteAheadState World} {txIndex : Nat}
    {steps : List (TxStep World)} (sound : ∀ step ∈ steps, step.Sound geth)
    (total : 0 ≤ was.totalUsedGas) (storable : ∀ receipt ∈ was.receipts, receipt.Storable) :
    ∀ receipt ∈ (was.takeSteps geth blockHash txIndex steps).receipts, receipt.Storable := by
  induction steps generalizing was txIndex with
  | nil => exact storable
  | cons step steps ih =>
    have used := (sound step List.mem_cons_self).used
    refine ih (fun later member => sound later (List.mem_cons_of_mem _ member))
      (Int.add_nonneg total used) fun receipt member => ?_
    rcases List.mem_append.mp member with old | new
    · exact storable receipt old
    · rw [List.mem_singleton.mp new]
      exact ⟨Int.add_nonneg total used, used, (geth.root step.accounts).length_eq⟩

/-- A fresh write-ahead state that took sound steps can be encoded. -/
theorem takeSteps_encodable (codec : geth.CodecLaws) (statedb : StateDB World) (txIndex : Nat)
    {steps : List (TxStep World)} (sound : ∀ step ∈ steps, step.Sound geth) :
    ((WriteAheadState.fresh statedb).takeSteps geth blockHash txIndex steps).Encodable geth := by
  refine ⟨fun t member => ?_, takeSteps_storable sound (Int.le_refl 0)
    fun receipt member => absurd member List.not_mem_nil⟩
  rw [takeSteps_transactions, WriteAheadState.fresh, List.nil_append] at member
  obtain ⟨step, inside, rfl⟩ := List.mem_map.mp member
  obtain ⟨txBytes, read⟩ := (sound step inside).read
  obtain ⟨-, -, -, canonical, encoded, -⟩ := codec.decoded txBytes step.t (readMessage_ok read).1
  rw [Geth.canonical, encoded, Option.getD_some]

end Sound

/-! ### Blocks -/

/-- The fold of a block from the committed account state and a full pool. -/
def State.blockSteps (s : State World) (block : Block) : Outcome (List (TxStep World)) :=
  geth.txSteps (.ofBytes 32 block.hash) s.statedb.accounts gasLimit block.transactions

/-- The write-ahead state of a block whose transactions were applied. -/
def State.blockWas (s : State World) (block : Block) (steps : List (TxStep World)) :
    WriteAheadState World :=
  (WriteAheadState.fresh s.statedb).takeSteps geth (.ofBytes 32 block.hash) 0 steps

section Blocks

variable {geth} {s : State World} {block : Block} {steps : List (TxStep World)}

variable (geth block) in
theorem applyBlock_steps (fresh : s.was = .fresh s.statedb) :
    (s.applyBlock geth block).2 = (s.blockSteps geth block).map (fun _ => ()) ∧
      ∀ steps, s.blockSteps geth block = .ok steps →
        (s.applyBlock geth block).1 = s.blockWas geth block steps := by
  unfold State.applyBlock State.blockSteps State.blockWas
  rw [fresh]
  exact applyTransactions_steps geth _ _ _ block.transactions

/-- **A block whose fold succeeds**: the node moves to the last account state of the fold and answers
with its root. -/
theorem processBlock_steps (pool : geth.PoolLaws) (codec : geth.CodecLaws) (trie : geth.TrieLaws)
    (fresh : s.was = .fresh s.statedb) (folded : s.blockSteps geth block = .ok steps) :
    s.processBlock geth block =
      let accounts := geth.finalise (lastAccounts s.statedb.accounts steps)
      let statedb := { (s.blockWas geth block steps).ethState with accounts }
      ({ db := (s.blockWas geth block steps).stored geth s.db, statedb, was := .fresh statedb },
        .ok (geth.root accounts)) := by
  obtain ⟨outcome, taken⟩ := applyBlock_steps geth block fresh
  have applied : s.applyBlock geth block = (s.blockWas geth block steps, .ok ()) :=
    Prod.ext (taken steps folded) (by rw [outcome, folded]; rfl)
  have encodable : (s.blockWas geth block steps).Encodable geth :=
    takeSteps_encodable codec s.statedb 0 (txSteps_sound pool codec trie folded)
  have accounts : (s.blockWas geth block steps).ethState.accounts =
      lastAccounts s.statedb.accounts steps := takeSteps_accounts _ 0 steps
  have done : ((s.blockWas geth block steps).commit geth s.db).outcome =
      .ok (geth.root (geth.finalise (lastAccounts s.statedb.accounts steps))) := by
    rw [commit_encodable codec encodable, accounts]
  rw [State.processBlock_ok applied,
    State.commit_ok (s := { s with was := s.blockWas geth block steps }) done]
  show (State.mk (Store.writes s.db ((s.blockWas geth block steps).commit geth s.db).writes)
    ((s.blockWas geth block steps).commit geth s.db).ethState _, _) = _
  rw [commit_writes codec encodable, commit_encodable codec encodable, accounts]

/-- A block is accepted exactly when its fold succeeds. -/
theorem processBlock_accepted_iff (pool : geth.PoolLaws) (codec : geth.CodecLaws)
    (trie : geth.TrieLaws) (fresh : s.was = .fresh s.statedb) :
    (∃ root, (s.processBlock geth block).2 = .ok root) ↔
      ∃ steps, s.blockSteps geth block = .ok steps := by
  constructor
  · rintro ⟨root, accepted⟩
    obtain ⟨was, applied, -⟩ := State.processBlock_accepted accepted
    have outcome := (applyBlock_steps geth block fresh).1
    rw [applied] at outcome
    obtain ⟨steps, folded, -⟩ := Outcome.map_ok outcome.symm
    exact ⟨steps, folded⟩
  · rintro ⟨steps, folded⟩
    exact ⟨_, by rw [processBlock_steps pool codec trie fresh folded]⟩

end Blocks

/-! ### The records of a block -/

/-- What is stored for a transaction of a block: its canonical bytes, and a receipt with the sums and
the root up to it. -/
structure Posted (db : Database) (before : List (TxStep World)) (step : TxStep World)
    (logs : List LogEntry) : Prop where
  transaction : ∃ data, geth.rlpEncode step.t = some data ∧
    db (transactionKey (geth.txHash step.t)) = some data
  receipt : ∃ receipt, getReceipt geth db (geth.txHash step.t) = .ok receipt ∧
    receipt.txHash = geth.txHash step.t ∧
    receipt.gasUsed = step.executed.gasUsed ∧
    receipt.cumulativeGasUsed = usedGas (before ++ [step]) ∧
    receipt.postState = (geth.root step.accounts).bytes ∧
    receipt.contractAddress =
      (if step.t.recipient = none then geth.createAddress step.message.sender step.t.nonce
        else default) ∧
    receipt.logs.map Log.toLogEntry = logs

/-- What the node moves to when the fold of a block succeeds. -/
structure Settled (s : State World) (block : Block) (steps : List (TxStep World)) : Prop where
  root : (s.processBlock geth block).2 =
    .ok (geth.root (s.processBlock geth block).1.statedb.accounts)
  accounts : (s.processBlock geth block).1.statedb.accounts =
    geth.finalise (lastAccounts s.statedb.accounts steps)
  last : steps ≠ [] → (s.processBlock geth block).1.statedb.accounts =
    lastAccounts s.statedb.accounts steps
  was : (s.processBlock geth block).1.was = .fresh (s.processBlock geth block).1.statedb
  head : ∀ step, steps.getLast? = some step →
    (s.processBlock geth block).1.db headTxKey = some (geth.txHash step.t).bytes

/-- The property of a block: it is accepted exactly when its fold succeeds, and then the node settles on
the fold and posts every transaction of it with the logs it emitted. -/
def MatchesReference (s : State World) (block : Block) : Prop :=
  ((∃ root, (s.processBlock geth block).2 = .ok root) ↔
      ∃ steps, s.blockSteps geth block = .ok steps) ∧
    ∀ steps, s.blockSteps geth block = .ok steps → Settled geth s block steps ∧
      ∀ before step after, steps = before ++ step :: after →
        Posted geth (s.processBlock geth block).1.db before step step.executed.emitted

/-- The logs that are filed under a hash when a step of the block comes. -/
def State.filed (geth : Geth World) (s : State World) (block : Block) (before : List (TxStep World))
    (hash : Hash) : List Log :=
  (s.statedb.copy.takeSteps geth (.ofBytes 32 block.hash) 0 before).logs hash

/-- What a block means: it is accepted exactly when its fold succeeds; then the node settles on the
fold, and posts every transaction whose hash no later one of the block has. Its logs are those it emitted
if none are filed under its hash by then. -/
def MeansFold (s : State World) (block : Block) : Prop :=
  ((∃ root, (s.processBlock geth block).2 = .ok root) ↔
      ∃ steps, s.blockSteps geth block = .ok steps) ∧
    ∀ steps, s.blockSteps geth block = .ok steps → Settled geth s block steps ∧
      ∀ before step after, steps = before ++ step :: after →
        (∀ later ∈ after, geth.txHash later.t ≠ geth.txHash step.t) →
        ∃ logs, Posted geth (s.processBlock geth block).1.db before step logs ∧
          (s.filed geth block before (geth.txHash step.t) = [] → logs = step.executed.emitted)

section Records

variable {geth} {s : State World} {block : Block}

variable (geth s block) in
/-- The receipt of a step among those of its block. -/
theorem blockWas_receipts (before after : List (TxStep World)) (step : TxStep World) :
    ∃ added, (s.blockWas geth block (before ++ step :: after)).receipts =
        (s.blockWas geth block before).receipts ++ (s.blockWas geth block before).stepReceipt geth
          (.ofBytes 32 block.hash) before.length step :: added ∧
      added.map Receipt.txHash = after.map fun step => geth.txHash step.t := by
  refine ⟨_, ?_, made_hashes geth (.ofBytes 32 block.hash)
    ((s.blockWas geth block before).take geth (.ofBytes 32 block.hash) before.length step)
    (before.length + 1) after⟩
  unfold State.blockWas
  rw [takeSteps_append, WriteAheadState.takeSteps, Nat.zero_add, takeSteps_receipts,
    WriteAheadState.take, List.append_assoc]
  rfl

/-- The records of a step whose hash no later step of the block has. -/
theorem step_stored (pool : geth.PoolLaws) (codec : geth.CodecLaws) (trie : geth.TrieLaws)
    (fresh : s.was = .fresh s.statedb) {before after : List (TxStep World)} {step : TxStep World}
    (folded : s.blockSteps geth block = .ok (before ++ step :: after))
    (last : ∀ later ∈ after, geth.txHash later.t ≠ geth.txHash step.t) :
    geth.rlpEncode step.t = some (geth.canonical step.t) ∧
      (s.processBlock geth block).1.db (transactionKey (geth.txHash step.t)) =
        some (geth.canonical step.t) ∧
      getReceipt geth (s.processBlock geth block).1.db (geth.txHash step.t) =
        .ok { (s.blockWas geth block before).stepReceipt geth (.ofBytes 32 block.hash) before.length step
          with failed := false } := by
  have encodable : (s.blockWas geth block (before ++ step :: after)).Encodable geth :=
    takeSteps_encodable codec s.statedb 0 (txSteps_sound pool codec trie folded)
  have transactions : (s.blockWas geth block (before ++ step :: after)).transactions =
      before.map TxStep.t ++ step.t :: after.map TxStep.t := by
    rw [State.blockWas, takeSteps_transactions, List.map_append, List.map_cons]
    rfl
  obtain ⟨added, receipts, hashes⟩ := blockWas_receipts geth s block before after step
  rw [processBlock_steps pool codec trie fresh folded]
  refine ⟨encodable.transactions step.t ?_, commit_transaction transactions ?_, ?_⟩
  · rw [transactions]
    exact List.mem_append_right _ List.mem_cons_self
  · intro later member
    obtain ⟨other, inside, rfl⟩ := List.mem_map.mp member
    exact last other inside
  · have storable := encodable.receipts _
      (receipts ▸ List.mem_append_right _ List.mem_cons_self)
    have kept : ∀ later ∈ added, later.txHash ≠ geth.txHash step.t := fun later member same => by
      have inside := List.mem_map_of_mem (f := Receipt.txHash) member
      rw [hashes] at inside
      obtain ⟨other, listed, found⟩ := List.mem_map.mp inside
      exact last other listed (found.trans same)
    exact getReceipt_stored codec storable (commit_receipt receipts kept)

theorem posted (pool : geth.PoolLaws) (codec : geth.CodecLaws) (trie : geth.TrieLaws)
    (fresh : s.was = .fresh s.statedb) {before after : List (TxStep World)} {step : TxStep World}
    (folded : s.blockSteps geth block = .ok (before ++ step :: after))
    (last : ∀ later ∈ after, geth.txHash later.t ≠ geth.txHash step.t) :
    Posted geth (s.processBlock geth block).1.db before step
      ((s.filed geth block before (geth.txHash step.t)).map Log.toLogEntry ++
        step.executed.emitted) := by
  obtain ⟨encoded, found, read⟩ := step_stored pool codec trie fresh folded last
  refine ⟨⟨_, encoded, found⟩, _, read, rfl, rfl, ?_, rfl, ?_, ?_⟩
  · show (s.blockWas geth block before).totalUsedGas + step.executed.gasUsed = _
    rw [State.blockWas, takeSteps_totalUsedGas]
    simp [WriteAheadState.fresh, usedGas]
  · obtain ⟨txBytes, read⟩ := (txSteps_sound pool codec trie folded step
      (List.mem_append_right _ List.mem_cons_self)).read
    obtain ⟨-, recipient, -⟩ := asMessage_some (readMessage_ok read).2
    rw [← recipient]
    rfl
  · show (((s.blockWas geth block before).ethState.take geth _ _ step).getLogs _).map _ = _
    rw [take_getLogs, List.map_append, StateDB.stamp_entries, State.blockWas, takeSteps_ethState]
    rfl

theorem settled (pool : geth.PoolLaws) (codec : geth.CodecLaws) (trie : geth.TrieLaws)
    (fresh : s.was = .fresh s.statedb) {steps : List (TxStep World)}
    (folded : s.blockSteps geth block = .ok steps) : Settled geth s block steps := by
  have sound := txSteps_sound pool codec trie folded
  have moved := processBlock_steps pool codec trie fresh folded
  refine ⟨?_, ?_, fun nonempty => ?_, ?_, fun step found => ?_⟩
  · rw [moved]
  · rw [moved]
  · rw [moved]
    exact lastAccounts_finalised sound nonempty _
  · rw [moved]
  · rw [moved]
    show (s.blockWas geth block steps).stored geth s.db headTxKey = _
    rw [commit_head, WriteAheadState.head, State.blockWas, takeSteps_transactions,
      WriteAheadState.fresh, List.nil_append, List.getLast?_map, found]
    rfl

/-- **A block means its fold.** -/
theorem processBlock_reference (pool : geth.PoolLaws) (codec : geth.CodecLaws)
    (trie : geth.TrieLaws) (fresh : s.was = .fresh s.statedb) : MeansFold geth s block := by
  refine ⟨processBlock_accepted_iff pool codec trie fresh, fun steps folded =>
    ⟨settled pool codec trie fresh folded, ?_⟩⟩
  rintro before step after rfl last
  refine ⟨_, posted pool codec trie fresh folded last, fun none => ?_⟩
  rw [none]
  rfl

end Records

/-! ### A transaction that is accepted twice -/

namespace Sample

/-- Alice's account carries a program that destroys it in favour of its caller. -/
def fragileGenesis : AccountMap := [("0x01", ⟨"33ff", [], "0"⟩)]

def fragile : State Ledger := (blank.createAccounts Sample.geth fragileGenesis).1

/-- A call of that program, twice: the account is gone after the first one, and its nonce with it. -/
def twice : Block := blockOf [signed 0 30000 alice 0, signed 0 30000 alice 0]

theorem fragile_fresh : fragile.was = .fresh fragile.statedb :=
  (Outcome.isOk_iff.mp (by decide +kernel)).elim fun _ => State.createAccounts_fresh

/-- The second receipt replaces the first: under the hash of both there is one with the gas of
both. -/
theorem twice_not_posted : fragile.was = .fresh fragile.statedb ∧
    ¬ MatchesReference Sample.geth fragile twice := by
  refine ⟨fragile_fresh, fun ⟨accepted, posts⟩ => ?_⟩
  obtain ⟨steps, folded⟩ := accepted.mp (Outcome.isOk_iff.mp (by decide +kernel))
  have hashes : ((fragile.blockSteps Sample.geth twice).map fun steps =>
      steps.map fun step => txHash step.t) = .ok [txHash (signed 0 30000 alice 0),
        txHash (signed 0 30000 alice 0)] := by decide +kernel
  rw [folded] at hashes
  have both : steps.map (fun step => txHash step.t) =
    [txHash (signed 0 30000 alice 0), txHash (signed 0 30000 alice 0)] := Outcome.ok.inj hashes
  obtain ⟨first, rest, rfl, here, -⟩ := List.map_eq_cons_iff.mp both
  obtain ⟨receipt, found, -, used, cumulative, -⟩ := ((posts _ folded).2 [] first rest rfl).receipt
  have alone : receipt.cumulativeGasUsed = receipt.gasUsed := by
    rw [used, cumulative]
    simp [usedGas]
  have stored : (match getReceipt Sample.geth (fragile.processBlock Sample.geth twice).1.db
        (txHash (signed 0 30000 alice 0)) with
      | .ok receipt => decide (receipt.cumulativeGasUsed = receipt.gasUsed)
      | .error _ => true) = false := by decide +kernel
  rw [show Sample.geth.txHash first.t = _ from here] at found
  rw [found] at stored
  exact of_decide_eq_false stored alone

theorem twice_means_fold : MeansFold Sample.geth fragile twice :=
  processBlock_reference poolLaws codecLaws trieLaws fragile_fresh

end Sample

end EvmBabble
