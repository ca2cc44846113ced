/-
The life of a node's state application.

Genesis accounts, blocks, calls and restarts, in any order and with any outcome. The database changes
only by a commit; `State.committing` is the write-ahead state that a happening commits.

* `live_committed`, `live_uncommitted` — a happening that comes to a commit leaves what the commit
  leaves, and any other one leaves the database as it is.
* `receipt_kept` — a receipt stays in the database as long as no commit has another one of its hash.
-/

import EvmBabble.State.Recovery

namespace EvmBabble

open Library

variable {World : Type} (geth : Geth World)

inductive Happening
  | createAccounts (accounts : AccountMap)
  | block (block : Block)
  | call (message : Message)
  | restart

namespace State

variable (s : State World)

/-- A start on the node's own database; one that fails leaves nothing behind. -/
def reopen : State World × Outcome Unit :=
  match newState geth s.db with
  | .ok opened => (opened, .ok ())
  | .error failure => (s, .error failure)

def live : Happening → State World × Outcome Unit
  | .createAccounts accounts =>
    ((s.createAccounts geth accounts).1, (s.createAccounts geth accounts).2.map fun _ => ())
  | .block block => ((s.processBlock geth block).1, (s.processBlock geth block).2.map fun _ => ())
  | .call message => ((s.call geth message).1, (s.call geth message).2.map fun _ => ())
  | .restart => s.reopen geth

/-- The write-ahead state that a happening commits, if it comes to a commit. -/
def committing : Happening → Option (WriteAheadState World)
  | .createAccounts accounts =>
    let created := createAccountsLoop geth s.was.ethState.accounts accounts
    if created.2 then some (s.withAccounts created.1).was else none
  | .block block =>
    match s.applyBlock geth block with
    | (was, .ok ()) => some was
    | (_, .error _) => none
    | (_, .panic) => none
  | .call _ => none
  | .restart => none

end State

section Lifetime

variable {geth} {s : State World} {happening : Happening}

/-- **A happening that comes to a commit** is that commit. -/
theorem live_committed {was : WriteAheadState World} (commits : s.committing geth happening = some was) :
    s.live geth happening =
      ((State.commit geth { s with was }).1, (State.commit geth { s with was }).2.map fun _ => ()) := by
  cases happening with
  | createAccounts accounts =>
    simp only [State.committing] at commits
    split at commits
    · next ran =>
      cases commits
      have loop : createAccountsLoop geth s.was.ethState.accounts accounts =
        ((createAccountsLoop geth s.was.ethState.accounts accounts).1, true) := Prod.ext rfl ran
      rw [State.live, State.createAccounts_ran loop]
      rfl
    · cases commits
  | block block =>
    simp only [State.committing] at commits
    split at commits
    · next applied =>
      cases commits
      rw [State.live, State.processBlock_ok applied]
    · cases commits
    · cases commits
  | call message => cases commits
  | restart => cases commits

/-- **Any other happening** leaves the database as it is. -/
theorem live_uncommitted (idle : s.committing geth happening = none) :
    (s.live geth happening).1.db = s.db := by
  cases happening with
  | createAccounts accounts =>
    simp only [State.committing] at idle
    split at idle
    · cases idle
    · next stopped =>
      rw [State.live, State.createAccounts, if_neg stopped]
  | block block =>
    simp only [State.committing] at idle
    split at idle
    · cases idle
    · next applied => rw [State.live, State.processBlock_error applied]
    · next applied => rw [State.live, State.processBlock_panic applied]
  | call message => rfl
  | restart =>
    rw [State.live, State.reopen]
    cases opened : newState geth s.db with
    | ok other => exact (newState_fresh opened).1
    | error failure => rfl

variable (geth) in
/-- A happening that commits no receipt of a hash. -/
def Unrepeated (hash : Hash) (s : State World) (happening : Happening) : Prop :=
  ∀ was, s.committing geth happening = some was → ∀ receipt ∈ was.receipts, receipt.txHash ≠ hash

/-- A happening that commits no other receipt of its hash leaves a receipt where it is. -/
theorem receipt_kept (laws : geth.TrieLaws) {hash : Hash}
    (unrepeated : Unrepeated geth hash s happening) :
    (s.live geth happening).1.db (receiptKey hash) = s.db (receiptKey hash) := by
  cases commits : s.committing geth happening with
  | none => rw [live_uncommitted commits]
  | some was =>
    rw [live_committed commits]
    show (State.commit geth { s with was }).1.db (receiptKey hash) = _
    rw [State.commit_db]
    exact commit_receipt_kept laws (unrepeated was commits)

/-- **A receipt stays** for as long as no commit has another one of its hash. -/
theorem receipt_kept_run (laws : geth.TrieLaws) {hash : Hash} {happenings : List Happening}
    (unrepeated : Along (State.live geth) (Unrepeated geth hash) s happenings) :
    (run (State.live geth) s happenings).1.db (receiptKey hash) = s.db (receiptKey hash) :=
  run_invariant (State.live geth) (fun later => later.db (receiptKey hash) = s.db (receiptKey hash))
    (fun _ _ kept other => (receipt_kept laws other).trans kept) rfl unrepeated

end Lifetime

end EvmBabble
