/-
Failed transactions.

`applyTransaction` hands the write-ahead state itself to the message and returns at its error without
putting anything back. What the transactions before it recorded stays; what the message did to the
accounts and the pool by then stays too.

* `failed_records` — a transaction that fails changes no record of the ones applied before it.
* `applyTransaction_atomic_iff` — it leaves the accounts and the pool alone exactly when it never came
  to buy gas: it could not be read, was not admitted, or has a gas limit of zero.
-/

import EvmBabble.State.Rejected

namespace EvmBabble

open Library

variable {World : Type} (geth : Geth World)

/-- What a block has recorded by now. -/
structure WriteAheadState.SameRecords (was left : WriteAheadState World) : Prop where
  totalUsedGas : left.totalUsedGas = was.totalUsedGas
  txIndex : left.txIndex = was.txIndex
  transactions : left.transactions = was.transactions
  receipts : left.receipts = was.receipts
  allLogs : left.allLogs = was.allLogs

/-- Write-ahead states with the same accounts, pool and records. -/
structure WriteAheadState.Same (was left : WriteAheadState World) : Prop extends
    was.SameRecords left where
  accounts : ∀ address,
    geth.account left.ethState.accounts address = geth.account was.ethState.accounts address
  gp : left.gp = was.gp

/-- The property of a transaction that fails: it leaves everything as it was. -/
def AllOrNothing (was : WriteAheadState World) (txBytes : Bytes) (txIndex : Nat) (blockHash : Hash) :
    Prop :=
  ∀ failure, (applyTransaction geth was txBytes txIndex blockHash).2 = .error failure →
    was.Same geth (applyTransaction geth was txBytes txIndex blockHash).1

/-- A transaction that cannot be read, is not admitted, or has no gas to buy. -/
def Idle (was : WriteAheadState World) (txBytes : Bytes) : Prop :=
  match geth.readMessage txBytes with
  | .error _ => True
  | .ok (_, message) =>
    ¬ geth.Admits message was.ethState.accounts was.gp ∨ message.gasLimit = 0

instance (was : WriteAheadState World) (txBytes : Bytes) : Decidable (Idle geth was txBytes) := by
  unfold Idle
  exact match geth.readMessage txBytes with
    | .error _ => inferInstanceAs (Decidable True)
    | .ok (_, message) => inferInstanceAs (Decidable (_ ∨ _))

section Failed

variable {geth} {was : WriteAheadState World} {txBytes : Bytes} {txIndex : Nat} {blockHash : Hash}

/-- **A transaction that is not applied changes no record.** -/
theorem failed_records (failed : (applyTransaction geth was txBytes txIndex blockHash).2 ≠ .ok ()) :
    was.SameRecords (applyTransaction geth was txBytes txIndex blockHash).1 := by
  cases read : geth.readMessage txBytes with
  | error failure =>
    rw [applyTransaction_unread read]
    exact ⟨rfl, rfl, rfl, rfl, rfl⟩
  | ok found =>
    obtain ⟨t, message⟩ := found
    rcases applyTransaction_cases read with ⟨executed, -, applied⟩ | ⟨-, left, -⟩
    · exact absurd (congrArg Prod.snd applied) failed
    · rw [left]
      exact ⟨rfl, rfl, rfl, rfl, rfl⟩

/-- The accounts and the pool a failed transaction leaves are those of its message. -/
theorem failed_message {t : Transaction} {message : Message}
    (read : geth.readMessage txBytes = .ok (t, message)) {failure : Failure}
    (failed : (applyTransaction geth was txBytes txIndex blockHash).2 = .error failure) :
    let applied := geth.execute (transactionContext message blockHash) message
      was.ethState.accounts was.gp
    applied.outcome = .error failure ∧
      (applyTransaction geth was txBytes txIndex blockHash).1.ethState.accounts = applied.state ∧
      (applyTransaction geth was txBytes txIndex blockHash).1.gp = applied.pool := by
  rcases applyTransaction_cases read with ⟨executed, -, applied⟩ | ⟨-, left, ended⟩
  · rw [applied] at failed
    cases failed
  · rw [left]
    rw [ended] at failed
    refine ⟨?_, Geth.applyMessage_accounts .., rfl⟩
    show (was.runMessage geth t message txIndex blockHash).outcome = _
    cases outcome : (was.runMessage geth t message txIndex blockHash).outcome with
    | ok executed =>
      rw [outcome] at failed
      cases failed
    | error other =>
      rw [outcome] at failed
      cases failed
      rfl
    | panic =>
      rw [outcome] at failed
      cases failed

/-- **A failed transaction leaves everything as it was exactly when it never bought gas.** -/
theorem failed_same_iff (admission : geth.AdmissionLaws) (setters : geth.SetterLaws)
    (pool : geth.PoolLaws) {failure : Failure}
    (failed : (applyTransaction geth was txBytes txIndex blockHash).2 = .error failure) :
    was.Same geth (applyTransaction geth was txBytes txIndex blockHash).1 ↔ Idle geth was txBytes := by
  have records := failed_records (by rw [failed]; exact Outcome.error_ne_ok failure ())
  unfold Idle
  cases read : geth.readMessage txBytes with
  | error _ =>
    refine iff_of_true ⟨records, fun _ => ?_, ?_⟩ trivial
    · rw [applyTransaction_unread read]
    · rw [applyTransaction_unread read]
  | ok found =>
    obtain ⟨t, message⟩ := found
    obtain ⟨ended, accounts, left⟩ := failed_message read failed
    constructor
    · intro same
      by_contra entered
      obtain ⟨admitted, limit⟩ := not_or.mp entered
      -- its gas was bought and did not come back
      have taken := pool.failure _ _ _ _ _ (not_not.mp admitted) ended
      have kept := same.gp
      rw [left, taken] at kept
      omega
    · intro idle
      obtain ⟨error, unchanged⟩ :=
        execute_idle admission setters (transactionContext message blockHash) idle
      rw [unchanged] at accounts left
      refine ⟨records, fun address => ?_, left⟩
      rw [accounts, setters.account_getOrNew]

/-- A transaction is all or nothing exactly when it never buys gas, for every one that fails. -/
theorem applyTransaction_atomic_iff (admission : geth.AdmissionLaws) (setters : geth.SetterLaws)
    (pool : geth.PoolLaws)
    (failed : ∃ failure, (applyTransaction geth was txBytes txIndex blockHash).2 = .error failure) :
    AllOrNothing geth was txBytes txIndex blockHash ↔ Idle geth was txBytes := by
  obtain ⟨failure, stopped⟩ := failed
  rw [← failed_same_iff admission setters pool stopped]
  exact ⟨fun whole => whole failure stopped, fun same _ _ => same⟩

end Failed

/-! ### Transactions of the small chain -/

namespace Sample

/-- A transfer of more than alice has: its gas stays bought and her nonce is raised. -/
theorem overdraft_not_atomic :
    ¬ AllOrNothing Sample.geth started.was (encoded (signed 0 21000 bob 2000000)) 0 default := by
  intro whole
  have same := (whole (.applying .insufficientBalance) (by decide +kernel)).gp
  exact absurd same (by decide +kernel)

/-- A transaction with a nonce to come is refused before that. -/
theorem early_nonce_atomic :
    AllOrNothing Sample.geth started.was (encoded (signed 3 21000 bob 5)) 0 default :=
  (applyTransaction_atomic_iff admissionLaws setterLaws poolLaws
    ⟨.applying .nonceTooHigh, by decide +kernel⟩).mpr (by decide +kernel)

end Sample

end EvmBabble
