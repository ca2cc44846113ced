/-
What one step of the state application can do.

`readMessage` is the part of `applyTransaction` before the write-ahead state is touched, and
`afterMessage` the part after the message has run; `applyTransaction_unread` and
`applyTransaction_read` put the two together, and every fact about a transaction goes through them.
The loop, the commit and the block get the same treatment.
-/

import EvmBabble.State.Core
import EvmBabble.Ethereum.Laws

namespace EvmBabble

open Library

variable {World : Type} (geth : Geth World)

/-- Decoding and sender recovery. -/
def Geth.readMessage (txBytes : Bytes) : Except Failure (Transaction × Message) :=
  match geth.rlpDecode txBytes with
  | none => .error .decodingTransaction
  | some t =>
    match geth.asMessage t with
    | none => .error .convertingTransaction
    | some message => .ok (t, message)

/-- A message that was read is its transaction's own. -/
theorem readMessage_ok {geth : Geth World} {txBytes : Bytes} {t : Transaction} {message : Message}
    (read : geth.readMessage txBytes = .ok (t, message)) :
    geth.rlpDecode txBytes = some t ∧ geth.asMessage t = some message := by
  unfold Geth.readMessage at read
  split at read
  · cases read
  · next decoded found =>
    split at read
    · cases read
    · next converted inside =>
      cases read
      exact ⟨found, inside⟩

/-- The fields of a transaction's message. -/
theorem asMessage_some {geth : Geth World} {t : Transaction} {message : Message}
    (converted : geth.asMessage t = some message) :
    geth.sender t = some message.sender ∧ message.recipient = t.recipient ∧
      message.nonce = t.nonce ∧ message.amount = t.amount ∧ message.gasLimit = t.gasLimit ∧
      message.price = t.price ∧ message.data = t.payload ∧ message.checkNonce = true := by
  obtain ⟨sender, recovered, rfl⟩ := Option.map_eq_some_iff.mp converted
  exact ⟨recovered, rfl, rfl, rfl, rfl, rfl, rfl, rfl⟩

/-- What was decoded has no negative gas limit. -/
theorem gasLimit_nonneg {geth : Geth World} (codec : geth.CodecLaws) {txBytes : Bytes}
    {t : Transaction} {message : Message} (read : geth.readMessage txBytes = .ok (t, message)) :
    0 ≤ message.gasLimit := by
  obtain ⟨decoded, converted⟩ := readMessage_ok read
  obtain ⟨-, -, -, -, gas, -⟩ := asMessage_some converted
  rw [gas]
  exact (codec.decoded txBytes t decoded).1

/-- A message that ended well was admitted. -/
theorem Geth.AdmissionLaws.admitted {geth : Geth World} (admission : geth.AdmissionLaws)
    {context : Context} {message : Message} {accounts : World} {pool : Int} {executed : Executed}
    (finished : (geth.execute context message accounts pool).outcome = .ok executed) :
    geth.Admits message accounts pool := by
  by_contra refused
  obtain ⟨error, ends⟩ := admission.refused context message accounts pool refused
  rw [ends] at finished
  cases finished

namespace WriteAheadState

variable (was : WriteAheadState World)

/-- The message of a transaction, run on the prepared write-ahead state. -/
def runMessage (t : Transaction) (message : Message) (txIndex : Nat) (blockHash : Hash) :
    Applied (StateDB World) :=
  geth.applyMessage (transactionContext message blockHash) message
    (was.ethState.prepare (geth.txHash t) blockHash txIndex) was.gp

/-- The write-ahead state that records an applied transaction. -/
def record (t : Transaction) (message : Message) (applied : Applied (StateDB World))
    (executed : Executed) : WriteAheadState World :=
  let ethState := (geth.intermediateRoot applied.state).2
  let logs := ethState.getLogs (geth.txHash t)
  { ethState
    txIndex := was.txIndex + 1
    transactions := was.transactions ++ [t]
    receipts := was.receipts ++ [makeReceipt geth t message (geth.intermediateRoot applied.state).1
      executed (was.totalUsedGas + executed.gasUsed) logs]
    allLogs := was.allLogs ++ logs
    totalUsedGas := was.totalUsedGas + executed.gasUsed
    gp := applied.pool }

/-- What `applyTransaction` does once the message has run. -/
def afterMessage (t : Transaction) (message : Message) (applied : Applied (StateDB World)) :
    WriteAheadState World × Outcome Unit :=
  match applied.outcome with
  | .error failure => ({ was with ethState := applied.state, gp := applied.pool }, .error failure)
  | .panic => ({ was with ethState := applied.state, gp := applied.pool }, .panic)
  | .ok executed => (was.record geth t message applied executed, .ok ())

end WriteAheadState

section Transactions

variable {geth} {was : WriteAheadState World} {txBytes : Bytes} {txIndex : Nat} {blockHash : Hash}

theorem applyTransaction_unread {failure : Failure}
    (unread : geth.readMessage txBytes = .error failure) :
    applyTransaction geth was txBytes txIndex blockHash = (was, .error failure) := by
  unfold Geth.readMessage at unread
  unfold applyTransaction
  cases decoded : geth.rlpDecode txBytes with
  | none =>
    rw [decoded] at unread
    cases unread
    rfl
  | some t =>
    rw [decoded] at unread
    dsimp only at unread ⊢
    cases converted : geth.asMessage t with
    | none =>
      rw [converted] at unread
      cases unread
      rfl
    | some message =>
      rw [converted] at unread
      cases unread

theorem applyTransaction_read {t : Transaction} {message : Message}
    (read : geth.readMessage txBytes = .ok (t, message)) :
    applyTransaction geth was txBytes txIndex blockHash =
      was.afterMessage geth t message (was.runMessage geth t message txIndex blockHash) := by
  obtain ⟨decoded, converted⟩ := readMessage_ok read
  unfold applyTransaction
  simp only [decoded, converted]
  rfl

/-- **What a transaction that was read can do**: it is recorded, or it leaves nothing but the state
database and the pool of its message. -/
theorem applyTransaction_cases {t : Transaction} {message : Message}
    (read : geth.readMessage txBytes = .ok (t, message)) :
    (∃ executed, (was.runMessage geth t message txIndex blockHash).outcome = .ok executed ∧
        applyTransaction geth was txBytes txIndex blockHash =
          (was.record geth t message (was.runMessage geth t message txIndex blockHash) executed,
            .ok ())) ∨
      ((∀ executed, (was.runMessage geth t message txIndex blockHash).outcome ≠ .ok executed) ∧
        (applyTransaction geth was txBytes txIndex blockHash).1 =
          { was with
            ethState := (was.runMessage geth t message txIndex blockHash).state
            gp := (was.runMessage geth t message txIndex blockHash).pool } ∧
        (applyTransaction geth was txBytes txIndex blockHash).2 =
          (was.runMessage geth t message txIndex blockHash).outcome.map fun _ => ()) := by
  rw [applyTransaction_read read, WriteAheadState.afterMessage]
  cases outcome : (was.runMessage geth t message txIndex blockHash).outcome with
  | ok executed => exact Or.inl ⟨executed, rfl, rfl⟩
  | error failure => exact Or.inr ⟨fun executed => Outcome.error_ne_ok _ _, rfl, rfl⟩
  | panic => exact Or.inr ⟨fun executed => Outcome.panic_ne_ok _, rfl, rfl⟩

end Transactions

/-! ### The loop of a block -/

section Loop

variable (blockHash : Hash) (was : WriteAheadState World) (txIndex : Nat)

@[simp] theorem applyTransactions_nil :
    applyTransactions geth blockHash was txIndex [] = (was, .ok ()) := rfl

/-- What follows a transaction: the rest of the block, or an early end. -/
def continueBlock (rest : List Bytes) (step : WriteAheadState World × Outcome Unit) :
    WriteAheadState World × Outcome Unit :=
  match step.2 with
  | .ok () => applyTransactions geth blockHash step.1 (txIndex + 1) rest
  | .error _ => step
  | .panic => step

theorem applyTransactions_cons (txBytes : Bytes) (rest : List Bytes) :
    applyTransactions geth blockHash was txIndex (txBytes :: rest) =
      continueBlock geth blockHash txIndex rest
        (applyTransaction geth was txBytes txIndex blockHash) := by
  rw [applyTransactions, continueBlock]
  rcases applyTransaction geth was txBytes txIndex blockHash with ⟨next, _ | _ | _⟩ <;> rfl

variable {geth blockHash was txIndex}

/-- A transaction that is not applied ends its block. -/
theorem continueBlock_stopped {step : WriteAheadState World × Outcome Unit} (stopped : step.2 ≠ .ok ())
    (rest : List Bytes) : continueBlock geth blockHash txIndex rest step = step := by
  unfold continueBlock
  split
  · next finished => exact absurd finished stopped
  · rfl
  · rfl

/-- **What every transaction keeps, a block keeps.** -/
theorem applyTransactions_preserves (invariant : WriteAheadState World → Prop)
    (preserved : ∀ was txIndex txBytes, invariant was →
      invariant (applyTransaction geth was txBytes txIndex blockHash).1)
    (transactions : List Bytes) (holds : invariant was) :
    invariant (applyTransactions geth blockHash was txIndex transactions).1 := by
  induction transactions generalizing was txIndex with
  | nil => exact holds
  | cons txBytes rest ih =>
    have here := preserved was txIndex txBytes holds
    rw [applyTransactions_cons, continueBlock]
    split
    · exact ih here
    · exact here
    · exact here

end Loop

/-! ### Commits -/

namespace WriteAheadState

variable {geth} {was : WriteAheadState World} {db : Database}

/-- A commit does not panic. -/
theorem commit_ne_panic : (was.commit geth db).outcome ≠ .panic := by
  unfold commit
  dsimp only
  split
  · exact nofun
  · split
    · exact nofun
    · exact nofun

/-- A commit fails only where a record cannot be encoded. -/
theorem commit_failure {failure : Failure} (failed : (was.commit geth db).outcome = .error failure) :
    failure = .encodingTransaction ∨ failure = .encodingReceipt := by
  unfold commit at failed
  dsimp only at failed
  split at failed
  · cases failed
    exact Or.inl rfl
  · split at failed
    · cases failed
      exact Or.inr rfl
    · cases failed

/-- A commit leaves the finalised account state. -/
theorem commit_accounts :
    (was.commit geth db).ethState.accounts = geth.finalise was.ethState.accounts := by
  unfold commit
  dsimp only
  split
  · rfl
  · split
    · rfl
    · rfl

/-- A commit reads the account state, the transactions and the receipts only. -/
theorem commit_congr {other : WriteAheadState World} (ethState : other.ethState = was.ethState)
    (transactions : other.transactions = was.transactions)
    (receipts : other.receipts = was.receipts) : other.commit geth db = was.commit geth db := by
  unfold commit transactionRecords receiptRecords writeHead head
  rw [ethState, transactions, receipts]

end WriteAheadState

namespace State

variable {geth} {s : State World}

theorem commit_ok {root : Hash} (done : (s.was.commit geth s.db).outcome = .ok root) :
    s.commit geth =
      ({ db := s.db.writes (s.was.commit geth s.db).writes
         statedb := (s.was.commit geth s.db).ethState
         was := .fresh (s.was.commit geth s.db).ethState }, .ok root) := by
  unfold commit
  simp only [done]
  rfl

theorem commit_error {failure : Failure}
    (stopped : (s.was.commit geth s.db).outcome = .error failure) :
    s.commit geth =
      ({ s with
          db := s.db.writes (s.was.commit geth s.db).writes
          was.ethState := (s.was.commit geth s.db).ethState }, .error failure) := by
  unfold commit
  simp only [stopped]

/-- The outcome of a commit is that of the write-ahead state's own. -/
theorem commit_outcome : (s.commit geth).2 = (s.was.commit geth s.db).outcome := by
  unfold commit
  dsimp only
  cases (s.was.commit geth s.db).outcome <;> rfl

/-- The database after a commit, whatever its outcome. -/
theorem commit_db :
    (s.commit geth).1.db = s.db.writes (s.was.commit geth s.db).writes := by
  unfold commit
  dsimp only
  cases (s.was.commit geth s.db).outcome <;> rfl

/-- Either way the write-ahead state holds the finalised accounts. -/
theorem commit_accounts :
    (s.commit geth).1.was.ethState.accounts = geth.finalise s.was.ethState.accounts := by
  cases outcome : (s.was.commit geth s.db).outcome with
  | ok root =>
    rw [commit_ok outcome]
    exact WriteAheadState.commit_accounts
  | error failure =>
    rw [commit_error outcome]
    exact WriteAheadState.commit_accounts
  | panic => exact absurd outcome WriteAheadState.commit_ne_panic

/-- The transactions of a block, applied to the write-ahead state. -/
def applyBlock (geth : Geth World) (s : State World) (block : Block) :
    WriteAheadState World × Outcome Unit :=
  applyTransactions geth (.ofBytes 32 block.hash) s.was 0 block.transactions

theorem processBlock_ok {block : Block} {was : WriteAheadState World}
    (applied : s.applyBlock geth block = (was, .ok ())) :
    s.processBlock geth block = State.commit geth { s with was } := by
  unfold applyBlock at applied
  unfold processBlock
  simp only [applied]

theorem processBlock_error {block : Block} {was : WriteAheadState World} {failure : Failure}
    (applied : s.applyBlock geth block = (was, .error failure)) :
    s.processBlock geth block = ({ s with was }, .error failure) := by
  unfold applyBlock at applied
  unfold processBlock
  simp only [applied]

theorem processBlock_panic {block : Block} {was : WriteAheadState World}
    (applied : s.applyBlock geth block = (was, .panic)) :
    s.processBlock geth block = ({ s with was }, .panic) := by
  unfold applyBlock at applied
  unfold processBlock
  simp only [applied]

/-- A commit that succeeds resets the write-ahead state on the new committed one. -/
theorem commit_fresh {root : Hash} (done : (s.commit geth).2 = .ok root) :
    (s.commit geth).1.was = .fresh (s.commit geth).1.statedb := by
  rw [commit_outcome] at done
  rw [commit_ok done]

/-- An accepted block ran to its end and was committed. -/
theorem processBlock_accepted {block : Block} {root : Hash}
    (accepted : (s.processBlock geth block).2 = .ok root) :
    ∃ was, s.applyBlock geth block = (was, .ok ()) ∧
      s.processBlock geth block = State.commit geth { s with was } := by
  rcases applied : s.applyBlock geth block with ⟨was, _ | _ | _⟩
  · exact ⟨was, rfl, processBlock_ok applied⟩
  · rw [processBlock_error applied] at accepted
    cases accepted
  · rw [processBlock_panic applied] at accepted
    cases accepted

theorem processBlock_fresh {block : Block} {root : Hash}
    (accepted : (s.processBlock geth block).2 = .ok root) :
    (s.processBlock geth block).1.was = .fresh (s.processBlock geth block).1.statedb := by
  obtain ⟨was, -, same⟩ := processBlock_accepted accepted
  rw [same] at accepted ⊢
  exact commit_fresh accepted

/-- The state `CreateAccounts` commits. -/
def withAccounts (s : State World) (accounts : World) : State World :=
  { s with was.ethState.accounts := accounts }

/-- Accounts whose loop ran to its end are committed. -/
theorem createAccounts_ran {accounts : AccountMap} {created : World}
    (ran : createAccountsLoop geth s.was.ethState.accounts accounts = (created, true)) :
    s.createAccounts geth accounts = (s.withAccounts created).commit geth := by
  unfold createAccounts
  rw [ran]
  rfl

/-- Accounts that were created without an error: the loop ran to its end. -/
theorem createAccounts_accepted {accounts : AccountMap} {root : Hash}
    (accepted : (s.createAccounts geth accounts).2 = .ok root) :
    ∃ created, createAccountsLoop geth s.was.ethState.accounts accounts = (created, true) := by
  unfold createAccounts at accepted
  dsimp only at accepted
  split at accepted
  · next ran => exact ⟨_, Prod.ext rfl ran⟩
  · cases accepted

theorem createAccounts_fresh {accounts : AccountMap} {root : Hash}
    (accepted : (s.createAccounts geth accounts).2 = .ok root) :
    (s.createAccounts geth accounts).1.was = .fresh (s.createAccounts geth accounts).1.statedb := by
  obtain ⟨created, ran⟩ := createAccounts_accepted accepted
  rw [createAccounts_ran ran] at accepted ⊢
  exact commit_fresh accepted

end State

end EvmBabble
