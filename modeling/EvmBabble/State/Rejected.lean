/-
Rejected blocks.

`ProcessBlock` returns at the first transaction that fails and leaves the write-ahead state as it is
then: everything the block did before stays in it until the next commit. Only a block that fails
before it changes anything leaves no trace. `Prepare` has run by then, so the state is the same up to
the prepared hashes, which the next `Prepare` or `Copy` replaces; `plain` forgets them, and every
request commutes with it.

* `rejected_plain_iff` — a rejected block leaves the state as it was exactly when it was refused at
  its first transaction.
* `rejections_traceless` — in a run whose rejected blocks are all refused so, every other request is
  answered as in the run without them, and the same records are stored.
-/

import EvmBabble.State.Requests
import EvmBabble.State.Sample

namespace EvmBabble

open Library

variable {World : Type} (geth : Geth World)

/-! ### Up to the prepared hashes -/

/-- The write-ahead state without its prepared hashes. -/
def WriteAheadState.plain (was : WriteAheadState World) : WriteAheadState World :=
  { was with ethState := was.ethState.copy }

/-- The state without its prepared hashes. -/
def State.plain (s : State World) : State World :=
  { s with statedb := s.statedb.copy, was := s.was.plain }

@[simp] theorem WriteAheadState.plain_plain (was : WriteAheadState World) :
    was.plain.plain = was.plain := rfl

@[simp] theorem State.plain_plain (s : State World) : s.plain.plain = s.plain := rfl

section Plain

variable (was : WriteAheadState World) (s : State World)

theorem runMessage_plain (t : Transaction) (message : Message) (txIndex : Nat) (blockHash : Hash) :
    was.plain.runMessage geth t message txIndex blockHash =
      was.runMessage geth t message txIndex blockHash := rfl

theorem applyTransaction_plain (txBytes : Bytes) (txIndex : Nat) (blockHash : Hash) :
    applyTransaction geth was.plain txBytes txIndex blockHash =
        applyTransaction geth was txBytes txIndex blockHash ∨
      ∃ failure, applyTransaction geth was.plain txBytes txIndex blockHash =
          (was.plain, .error failure) ∧
        applyTransaction geth was txBytes txIndex blockHash = (was, .error failure) := by
  cases read : geth.readMessage txBytes with
  | error failure =>
    exact Or.inr ⟨failure, applyTransaction_unread read, applyTransaction_unread read⟩
  | ok found =>
    obtain ⟨t, message⟩ := found
    refine Or.inl ?_
    rw [applyTransaction_read read, applyTransaction_read read, runMessage_plain]
    unfold WriteAheadState.afterMessage
    split <;> rfl

theorem applyTransactions_plain (blockHash : Hash) (txIndex : Nat) (transactions : List Bytes) :
    (applyTransactions geth blockHash was.plain txIndex transactions).1.plain =
        (applyTransactions geth blockHash was txIndex transactions).1.plain ∧
      (applyTransactions geth blockHash was.plain txIndex transactions).2 =
        (applyTransactions geth blockHash was txIndex transactions).2 := by
  cases transactions with
  | nil => exact ⟨rfl, rfl⟩
  | cons txBytes rest =>
    rw [applyTransactions_cons, applyTransactions_cons]
    rcases applyTransaction_plain geth was txBytes txIndex blockHash with
      same | ⟨failure, plain, full⟩
    · rw [same]
      exact ⟨rfl, rfl⟩
    · rw [plain, full]
      exact ⟨rfl, rfl⟩

/-- A commit writes the same from a plain state and leaves it plain. -/
theorem WriteAheadState.commit_plain (db : Database) : was.plain.commit geth db =
    { was.commit geth db with ethState := (was.commit geth db).ethState.copy } := by
  unfold WriteAheadState.commit
  rw [show was.plain.transactionRecords geth = was.transactionRecords geth from rfl,
    show was.plain.receiptRecords geth = was.receiptRecords geth from rfl]
  cases was.transactionRecords geth with
  | none => rfl
  | some transactions =>
    cases was.receiptRecords geth with
    | none => rfl
    | some receipts => rfl

theorem State.commit_plain : (s.plain.commit geth).1.plain = (s.commit geth).1.plain ∧
    (s.plain.commit geth).2 = (s.commit geth).2 := by
  unfold State.commit
  rw [show s.plain.was.commit geth s.plain.db = s.was.plain.commit geth s.db from rfl,
    WriteAheadState.commit_plain]
  dsimp only
  cases (s.was.commit geth s.db).outcome with
  | ok root => exact ⟨rfl, rfl⟩
  | error failure => exact ⟨rfl, rfl⟩
  | panic => exact ⟨rfl, rfl⟩

theorem processBlock_plain (block : Block) :
    (s.plain.processBlock geth block).1.plain = (s.processBlock geth block).1.plain ∧
      (s.plain.processBlock geth block).2 = (s.processBlock geth block).2 := by
  obtain ⟨states, outcomes⟩ :=
    applyTransactions_plain geth s.was (.ofBytes 32 block.hash) 0 block.transactions
  rcases full : s.applyBlock geth block with ⟨was, outcome⟩
  rcases plain : s.plain.applyBlock geth block with ⟨other, _⟩
  change (s.plain.applyBlock geth block).1.plain = (s.applyBlock geth block).1.plain at states
  change (s.plain.applyBlock geth block).2 = (s.applyBlock geth block).2 at outcomes
  rw [full, plain] at states outcomes
  cases outcomes
  cases outcome with
  | ok _ =>
    rw [State.processBlock_ok full, State.processBlock_ok plain]
    have one := State.commit_plain geth { s with was }
    have two := State.commit_plain geth { s.plain with was := other }
    have same : State.plain { s with was } = State.plain { s.plain with was := other } := by
      show State.mk _ _ was.plain = State.mk _ _ other.plain
      rw [← states]
      rfl
    rw [same] at one
    exact ⟨two.1.symm.trans one.1, two.2.symm.trans one.2⟩
  | error failure =>
    rw [State.processBlock_error full, State.processBlock_error plain]
    refine ⟨?_, rfl⟩
    show State.mk _ _ other.plain = State.mk _ _ was.plain
    rw [states]
    rfl
  | panic =>
    rw [State.processBlock_panic full, State.processBlock_panic plain]
    refine ⟨?_, rfl⟩
    show State.mk _ _ other.plain = State.mk _ _ was.plain
    rw [states]
    rfl

/-- Genesis accounts are created alike up to the prepared hashes. -/
theorem createAccounts_plain (accounts : AccountMap) :
    (s.plain.createAccounts geth accounts).1.plain = (s.createAccounts geth accounts).1.plain ∧
      (s.plain.createAccounts geth accounts).2 = (s.createAccounts geth accounts).2 := by
  unfold State.createAccounts
  rw [show s.plain.was.ethState.accounts = s.was.ethState.accounts from rfl]
  generalize createAccountsLoop geth s.was.ethState.accounts accounts = created
  dsimp only
  split
  · have one := State.commit_plain geth (s.withAccounts created.1)
    have two := State.commit_plain geth (s.plain.withAccounts created.1)
    rw [show (s.plain.withAccounts created.1).plain = (s.withAccounts created.1).plain from rfl] at two
    exact ⟨two.1.symm.trans one.1, two.2.symm.trans one.2⟩
  · exact ⟨rfl, rfl⟩

/-- A request is answered alike up to the prepared hashes. -/
theorem serve_plain (request : Request) :
    (s.plain.serve geth request).1.plain = (s.serve geth request).1.plain ∧
      (s.plain.serve geth request).2 = (s.serve geth request).2 := by
  cases request with
  | block block =>
    obtain ⟨states, outcomes⟩ := processBlock_plain geth s block
    exact ⟨states, congrArg Answer.root outcomes⟩
  | query query => cases query <;> exact ⟨rfl, rfl⟩

end Plain

/-- States that are equal up to the prepared hashes answer a request alike. -/
theorem serve_congr {first second : State World}
    (same : first.plain = second.plain) (request : Request) :
    (first.serve geth request).1.plain = (second.serve geth request).1.plain ∧
      (first.serve geth request).2 = (second.serve geth request).2 := by
  obtain ⟨oneState, oneAnswer⟩ := serve_plain geth first request
  obtain ⟨twoState, twoAnswer⟩ := serve_plain geth second request
  rw [same] at oneState oneAnswer
  exact ⟨oneState.symm.trans twoState, oneAnswer.symm.trans twoAnswer⟩

theorem processBlock_congr {first second : State World}
    (same : first.plain = second.plain) (block : Block) :
    (first.processBlock geth block).1.plain = (second.processBlock geth block).1.plain ∧
      (first.processBlock geth block).2 = (second.processBlock geth block).2 := by
  obtain ⟨oneState, oneOutcome⟩ := processBlock_plain geth first block
  obtain ⟨twoState, twoOutcome⟩ := processBlock_plain geth second block
  rw [same] at oneState oneOutcome
  exact ⟨oneState.symm.trans twoState, oneOutcome.symm.trans twoOutcome⟩

theorem createAccounts_congr {first second : State World}
    (same : first.plain = second.plain) (accounts : AccountMap) :
    (first.createAccounts geth accounts).1.plain = (second.createAccounts geth accounts).1.plain ∧
      (first.createAccounts geth accounts).2 = (second.createAccounts geth accounts).2 := by
  obtain ⟨oneState, oneOutcome⟩ := createAccounts_plain geth first accounts
  obtain ⟨twoState, twoOutcome⟩ := createAccounts_plain geth second accounts
  rw [same] at oneState oneOutcome
  exact ⟨oneState.symm.trans twoState, oneOutcome.symm.trans twoOutcome⟩

/-! ### What a rejected block leaves -/

/-- A transaction that fails before it changes anything: it cannot be read, or its sender's account is
there and it is not admitted or has a gas limit of zero. -/
def Refuses (was : WriteAheadState World) (txBytes : Bytes) : Prop :=
  match geth.readMessage txBytes with
  | .error _ => True
  | .ok (_, message) => geth.exist was.ethState.accounts message.sender = true ∧
    (¬ geth.Admits message was.ethState.accounts was.gp ∨ message.gasLimit = 0)

/-- A block whose first transaction fails before it changes anything. -/
def RefusedAtOnce (s : State World) (block : Block) : Prop :=
  match block.transactions with
  | [] => False
  | txBytes :: _ => Refuses geth s.was txBytes

instance (was : WriteAheadState World) (txBytes : Bytes) : Decidable (Refuses geth was txBytes) := by
  unfold Refuses
  exact match geth.readMessage txBytes with
    | .error _ => inferInstanceAs (Decidable True)
    | .ok (_, message) => inferInstanceAs (Decidable (_ ∧ (_ ∨ _)))

instance (s : State World) (block : Block) : Decidable (RefusedAtOnce geth s block) := by
  unfold RefusedAtOnce
  exact match block.transactions with
    | [] => inferInstanceAs (Decidable False)
    | txBytes :: _ => inferInstanceAs (Decidable (Refuses geth s.was txBytes))

section Refused

variable {geth} {was : WriteAheadState World} {txBytes : Bytes} (txIndex : Nat) (blockHash : Hash)

/-- A message that is not admitted or has a gas limit of zero fails, takes nothing from the pool and
has made its sender's account. -/
theorem execute_idle (laws : geth.AdmissionLaws) (setters : geth.SetterLaws) (context : Context)
    {message : Message} {accounts : World} {pool : Int}
    (idle : ¬ geth.Admits message accounts pool ∨ message.gasLimit = 0) :
    ∃ error, geth.execute context message accounts pool =
      ⟨geth.getOrNewStateObject accounts message.sender, pool, .error (.applying error)⟩ := by
  by_cases admitted : geth.Admits message accounts pool
  · have free : message.gasLimit = 0 := idle.resolve_left (not_not.mpr admitted)
    refine ⟨.outOfGas, ?_⟩
    rw [laws.underpaid _ _ _ _ admitted (by rw [free]; decide), Geth.bought, free, Int.zero_mul,
      Int.neg_zero, setters.addBalance_zero, Int.sub_zero]
  · exact laws.refused _ _ _ _ admitted

/-- A refused transaction fails and changes nothing but the prepared hashes. -/
theorem applyTransaction_refused (laws : geth.AdmissionLaws) (setters : geth.SetterLaws)
    (refused : Refuses geth was txBytes) :
    (applyTransaction geth was txBytes txIndex blockHash).1.plain = was.plain ∧
      ∃ failure, (applyTransaction geth was txBytes txIndex blockHash).2 = .error failure := by
  unfold Refuses at refused
  split at refused
  · next failure unread =>
    rw [applyTransaction_unread unread]
    exact ⟨rfl, failure, rfl⟩
  · next t message read =>
    obtain ⟨found, idle⟩ := refused
    obtain ⟨error, finished⟩ :=
      execute_idle laws setters (transactionContext message blockHash) idle
    rw [setters.getOrNew_exist _ _ found] at finished
    rw [applyTransaction_read read]
    unfold WriteAheadState.afterMessage WriteAheadState.runMessage Geth.applyMessage
    rw [StateDB.prepare_accounts, finished]
    exact ⟨rfl, .applying error, rfl⟩

/-- A transaction that fails but was not refused has taken its gas limit out of the pool, or made its
sender's account. -/
theorem applyTransaction_spent (admission : geth.AdmissionLaws) (setters : geth.SetterLaws)
    (laws : geth.PoolLaws) {failure : Failure} (entered : ¬ Refuses geth was txBytes)
    (failed : (applyTransaction geth was txBytes txIndex blockHash).2 = .error failure) :
    (applyTransaction geth was txBytes txIndex blockHash).1.gp ≠ was.gp ∨
      (applyTransaction geth was txBytes txIndex blockHash).1.ethState.accounts ≠
        was.ethState.accounts := by
  unfold Refuses at entered
  split at entered
  · exact absurd trivial entered
  · next t message read =>
    rw [applyTransaction_read read] at failed ⊢
    unfold WriteAheadState.afterMessage at failed ⊢
    split at failed
    · next failure stopped =>
      show (geth.execute (transactionContext message blockHash) message was.ethState.accounts
          was.gp).pool ≠ was.gp ∨
        (geth.applyMessage (transactionContext message blockHash) message _ was.gp).state.accounts ≠ _
      rw [Geth.applyMessage_accounts, StateDB.prepare_accounts]
      by_cases idle : ¬ geth.Admits message was.ethState.accounts was.gp ∨ message.gasLimit = 0
      · refine Or.inr fun same => entered ⟨?_, idle⟩
        obtain ⟨error, ends⟩ :=
          execute_idle admission setters (transactionContext message blockHash) idle
        rw [ends] at same
        rw [← same]
        exact setters.exist_getOrNew _ _
      · obtain ⟨admitted, paid⟩ := not_or.mp idle
        have taken := laws.failure _ _ _ _ _ (not_not.mp admitted) stopped
        refine Or.inl ?_
        rw [taken]
        omega
    · cases failed
    · cases failed

/-- An applied transaction is recorded. -/
theorem applyTransaction_recorded
    (applied : (applyTransaction geth was txBytes txIndex blockHash).2 = .ok ()) :
    was.transactions.length <
      (applyTransaction geth was txBytes txIndex blockHash).1.transactions.length := by
  cases read : geth.readMessage txBytes with
  | error failure =>
    rw [applyTransaction_unread read] at applied
    cases applied
  | ok found =>
    obtain ⟨t, message⟩ := found
    rw [applyTransaction_read read] at applied ⊢
    unfold WriteAheadState.afterMessage at applied ⊢
    split at applied
    · cases applied
    · cases applied
    · simp [WriteAheadState.record]

theorem applyTransaction_length_le :
    was.transactions.length ≤
      (applyTransaction geth was txBytes txIndex blockHash).1.transactions.length := by
  cases read : geth.readMessage txBytes with
  | error failure =>
    exact Nat.le_of_eq (by rw [applyTransaction_unread read])
  | ok found =>
    obtain ⟨t, message⟩ := found
    rw [applyTransaction_read read]
    unfold WriteAheadState.afterMessage
    split <;> simp [WriteAheadState.record]

theorem applyTransactions_length_le (transactions : List Bytes) :
    was.transactions.length ≤
      (applyTransactions geth blockHash was txIndex transactions).1.transactions.length :=
  applyTransactions_preserves (fun later => was.transactions.length ≤ later.transactions.length)
    (fun _ txIndex _ longer => Nat.le_trans longer (applyTransaction_length_le txIndex blockHash))
    transactions (Nat.le_refl _)

end Refused

/-- A block that is refused at once fails and leaves the state as it was. -/
theorem processBlock_refused {geth : Geth World} (admission : geth.AdmissionLaws)
    (setters : geth.SetterLaws) {s : State World} {block : Block}
    (refused : RefusedAtOnce geth s block) :
    (s.processBlock geth block).1.plain = s.plain ∧
      ∃ failure, (s.processBlock geth block).2 = .error failure := by
  unfold RefusedAtOnce at refused
  cases transactions : block.transactions with
  | nil =>
    rw [transactions] at refused
    exact refused.elim
  | cons txBytes rest =>
    rw [transactions] at refused
    obtain ⟨same, failure, failed⟩ := applyTransaction_refused 0
      (.ofBytes 32 block.hash) admission setters refused
    have applied : s.applyBlock geth block =
        ((applyTransaction geth s.was txBytes 0 (.ofBytes 32 block.hash)).1, .error failure) := by
      unfold State.applyBlock
      rw [transactions, applyTransactions_cons, continueBlock, failed]
      exact Prod.ext rfl failed
    rw [State.processBlock_error applied]
    refine ⟨?_, failure, rfl⟩
    show State.mk _ _ (WriteAheadState.plain _) = _
    rw [same]
    rfl

/-- **What a rejected block leaves**: the state as it was, exactly when the block was refused at its
first transaction. -/
theorem rejected_plain_iff {geth : Geth World} (admission : geth.AdmissionLaws)
    (setters : geth.SetterLaws) (pool : geth.PoolLaws) {s : State World} {block : Block}
    {failure : Failure} (rejected : (s.applyBlock geth block).2 = .error failure) :
    (s.processBlock geth block).1.plain = s.plain ↔ RefusedAtOnce geth s block := by
  refine ⟨fun same => ?_, fun refused => (processBlock_refused admission setters refused).1⟩
  rcases applied : s.applyBlock geth block with ⟨was, outcome⟩
  rw [applied] at rejected
  cases rejected
  rw [State.processBlock_error applied] at same
  have samePool : was.gp = s.was.gp := congrArg (fun s : State World => s.was.gp) same
  have sameLength : was.transactions.length = s.was.transactions.length :=
    congrArg (fun s : State World => s.was.transactions.length) same
  have sameAccounts : was.ethState.accounts = s.was.ethState.accounts :=
    congrArg (fun s : State World => s.was.ethState.accounts) same
  unfold State.applyBlock at applied
  unfold RefusedAtOnce
  cases transactions : block.transactions with
  | nil =>
    rw [transactions] at applied
    cases applied
  | cons txBytes rest =>
    rw [transactions, applyTransactions_cons, continueBlock] at applied
    -- a transaction that was not refused is recorded, has taken gas or has made its sender
    by_contra entered
    split at applied
    · next finished =>
      have longer := applyTransaction_recorded 0 (.ofBytes 32 block.hash) finished
      have later : (applyTransaction geth s.was txBytes 0
            (.ofBytes 32 block.hash)).1.transactions.length ≤
          (applyTransactions geth (.ofBytes 32 block.hash) (applyTransaction geth s.was txBytes 0
            (.ofBytes 32 block.hash)).1 1 rest).1.transactions.length :=
        applyTransactions_length_le 1 _ rest
      rw [applied, sameLength] at later
      omega
    · next failed =>
      have spent := applyTransaction_spent 0 _ admission setters pool entered failed
      rw [applied] at spent
      exact spent.elim (fun taken => taken samePool) fun made => made sameAccounts
    · next panicked =>
      rw [applied] at panicked
      cases panicked

/-! ### Runs with rejected blocks -/

/-- The blocks that are rejected because a transaction fails. -/
def rejects (s : State World) : Request → Bool
  | .block block =>
    match (s.applyBlock geth block).2 with
    | .ok _ => false
    | .error _ => true
    | .panic => false
  | .query _ => false

theorem rejects_block {geth : Geth World} {s : State World} {block : Block}
    (rejected : rejects geth s (.block block) = true) :
    ∃ failure, (s.applyBlock geth block).2 = .error failure := by
  change (match (s.applyBlock geth block).2 with
    | .ok _ => false
    | .error _ => true
    | .panic => false) = true at rejected
  split at rejected
  · cases rejected
  · next failure stopped => exact ⟨failure, stopped⟩
  · cases rejected

/-- A rejected block is refused at its first transaction. -/
def RejectsAtOnce (s : State World) (request : Request) : Prop :=
  match request with
  | .block block => rejects geth s request = true → RefusedAtOnce geth s block
  | .query _ => True

/-- The property of rejected blocks: every other request is answered as if they had never been
delivered, and the same records are stored. -/
def RejectionsTraceless (s : State World) (requests : List Request) : Prop :=
  visibleAnswers (State.serve geth) (rejects geth) s requests =
      (run (State.serve geth) s (visibleInputs (State.serve geth) (rejects geth) s requests)).2 ∧
    (run (State.serve geth) s requests).1.db =
      (run (State.serve geth) s (visibleInputs (State.serve geth) (rejects geth) s requests)).1.db

/-- **A run whose rejected blocks are refused at once** answers as the run without them. -/
theorem rejections_traceless {geth : Geth World} (admission : geth.AdmissionLaws)
    (setters : geth.SetterLaws) (pool : geth.PoolLaws) (s : State World) (requests : List Request)
    (atOnce : Along (State.serve geth) (RejectsAtOnce geth) s requests) :
    RejectionsTraceless geth s requests := by
  obtain ⟨answers, ends⟩ := erasure (State.serve geth) (rejects geth)
    (fun left right => left.plain = right.plain)
    (fun left right request same atOnce shown => by
      cases request with
      | query query => cases shown
      | block block =>
        obtain ⟨failure, failed⟩ := rejects_block shown
        exact ((rejected_plain_iff admission setters pool failed).mpr (atOnce shown)).trans same)
    (fun left right request same _ _ => serve_congr geth same request)
    s s rfl (guarded_of_along _ _ s atOnce)
  have records := congrArg (fun s : State World => s.db) ends
  exact ⟨answers, records⟩

/-! ### Two runs of the small chain -/

namespace Sample

/-- A payment with bytes behind it that are no transaction. -/
def spoiled : Block := ⟨[5], [encoded (signed 0 21000 bob 5), []]⟩

/-- The payment in front of the bytes that cannot be decoded stays, and the same payment in the next
block is refused. -/
theorem spoiled_leaves_trace : newState Sample.geth Store.empty = .ok blank ∧
    ¬ RejectionsTraceless Sample.geth started
      [.block spoiled, .query (.getNonce alice), .block payment] :=
  ⟨newState_empty, fun traceless => absurd traceless.1 (by decide +kernel)⟩

/-- A block that is refused at its second payment only would leave the first one. -/
theorem early_rejection_traceless : RejectionsTraceless Sample.geth started
    [.block ⟨[5], [[], encoded (signed 0 21000 bob 5)]⟩, .block (blockOf [signed 3 21000 bob 5]),
      .query (.getNonce alice), .block payment] :=
  rejections_traceless admissionLaws setterLaws poolLaws started _
    ⟨fun _ => by decide +kernel, fun _ => by decide +kernel, trivial,
      fun rejected => absurd rejected (by decide +kernel), trivial⟩

end Sample

end EvmBabble
