/-
What a call tells about a transaction.

`Call` and `applyTransaction` fill in their contexts apart: a transaction finds block number 0 and its
own gas limit there, a call finds no number at all. Both run the same message otherwise, so a call
predicts a transaction as long as its program looks at none of them.

* `call_run` — the program of a call is that of the transaction, under a context with nothing in it.
* `call_predicts_iff` — a call returns what the transaction would exactly when the program reads no
  block field, or one that the transaction's context leaves out as well.
-/

import EvmBabble.Service.Node

namespace EvmBabble

open Library

variable {World : Type} (geth : Geth World)

/-! ### The property -/

/-- The message of a transaction with the fields of a call and the current nonce of its sender. -/
def State.signedMessage (s : State World) (message : Message) : Message :=
  { message with nonce := s.getNonce geth message.sender, checkNonce := true }

/-- A transaction that is applied as the next one, and whose execution returns the data. -/
def Produces (s : State World) (txBytes : Bytes) (txIndex : Nat) (blockHash : Hash) (data : Bytes) :
    Prop :=
  (applyTransaction geth s.was txBytes txIndex blockHash).2 = .ok () ∧
    ∃ t message executed, geth.readMessage txBytes = .ok (t, message) ∧
      (s.was.runMessage geth t message txIndex blockHash).outcome = .ok executed ∧
        executed.ret = data

/-- The property of a call and a transaction: one returns data without an error exactly when the other
is applied and returns the same. -/
def CallPredicts (s : State World) (message : Message) (txBytes : Bytes) (txIndex : Nat)
    (blockHash : Hash) : Prop :=
  ∀ data, (s.call geth message).2 = .ok data ↔ Produces geth s txBytes txIndex blockHash data

/-- The block fields a message's program reads in the context of a transaction, with the time and the
difficulty filled in. -/
def State.fieldsRead (s : State World) (fill : BlockField → Int) (message : Message)
    (blockHash : Hash) : List BlockField :=
  (geth.transition (transactionContext message blockHash).toMessageContext message
    s.was.ethState.accounts s.was.gp).path ((transactionContext message blockHash).filled fill)

section Programs

variable {geth} {s : State World} {message : Message} {blockHash : Hash}

/-- A call returns what its execution does. -/
theorem call_outcome : (s.call geth message).2 =
    (geth.execute (callContext message) message s.was.ethState.accounts s.was.gp).outcome.map
      Executed.ret := by
  unfold State.call
  rw [← StateDB.copy_accounts, ← Geth.applyMessage_outcome]
  dsimp only
  cases (geth.applyMessage (callContext message) message s.was.ethState.copy s.was.gp).outcome with
  | ok executed => rfl
  | error failure => rfl
  | panic => rfl

variable (s blockHash) in
/-- **The program of a call** is that of the transaction with its fields. -/
theorem call_run (hash : geth.HashLaws) (entry : geth.EntryLaws) (free : message.checkNonce = false) :
    (geth.transition (callContext message).toMessageContext message s.was.ethState.accounts
        s.was.gp).run (callContext message).field =
      (geth.transition (transactionContext (s.signedMessage geth message) blockHash).toMessageContext
        (s.signedMessage geth message) s.was.ethState.accounts s.was.gp).run
          (callContext message).field := by
  have same : { s.signedMessage geth message with nonce := message.nonce, checkNonce := false } =
      message := by
    rw [State.signedMessage, ← free]
  rw [entry.unchecked _ (s.signedMessage geth message) _ _ message.nonce fun _ => rfl, same]
  exact ((hash.unasked (callContext message).toMessageContext message s.was.ethState.accounts
    s.was.gp (fun _ => blockHash) (callContext message).field (Or.inl rfl)).1).symm

/-- An applied transaction produces what its message returns. -/
theorem produces_iff {txBytes : Bytes} {txIndex : Nat} {t : Transaction} {data : Bytes}
    (read : geth.readMessage txBytes = .ok (t, message)) :
    Produces geth s txBytes txIndex blockHash data ↔
      ∃ executed, (geth.execute (transactionContext message blockHash) message
        s.was.ethState.accounts s.was.gp).outcome = .ok executed ∧ executed.ret = data := by
  constructor
  · rintro ⟨-, other, same, executed, found, finished, returned⟩
    rw [read] at found
    cases found
    exact ⟨executed, finished, returned⟩
  · rintro ⟨executed, finished, returned⟩
    refine ⟨?_, t, message, executed, read, finished, returned⟩
    rw [applyTransaction_read read, WriteAheadState.afterMessage,
      show (s.was.runMessage geth t message txIndex blockHash).outcome = .ok executed from finished]

end Programs

section Predictions

variable {geth} {s : State World} {message : Message} {blockHash : Hash} {txBytes : Bytes}
  {txIndex : Nat} {t : Transaction}

/-- **A call predicts the transaction with its fields** exactly when the program reads no block field,
or one that the context of a transaction leaves out. -/
theorem call_predicts_iff (hash : geth.HashLaws) (entry : geth.EntryLaws) (fill : BlockField → Int)
    (free : message.checkNonce = false)
    (read : geth.readMessage txBytes = .ok (t, s.signedMessage geth message)) :
    CallPredicts geth s message txBytes txIndex blockHash ↔
      s.fieldsRead geth fill (s.signedMessage geth message) blockHash = [] ∨
        ∃ field ∈ s.fieldsRead geth fill (s.signedMessage geth message) blockHash,
          field = .time ∨ field = .difficulty := by
  have run := call_run s blockHash hash entry free
  have early := entry.early
    (transactionContext (s.signedMessage geth message) blockHash).toMessageContext
    (s.signedMessage geth message) s.was.ethState.accounts s.was.gp
    (transactionContext (s.signedMessage geth message) blockHash).field
  have gaps := Reading.path_filled_iff
    (transactionContext (s.signedMessage geth message) blockHash).field
    ((transactionContext (s.signedMessage geth message) blockHash).filled fill) (fun field set => by
      obtain ⟨value, found⟩ := Option.ne_none_iff_exists'.mp set
      rw [Context.filled, found]
      rfl)
    (geth.transition (transactionContext (s.signedMessage geth message) blockHash).toMessageContext
      (s.signedMessage geth message) s.was.ethState.accounts s.was.gp)
  unfold CallPredicts State.fieldsRead
  simp only [produces_iff read, call_outcome, Outcome.map_ok_iff, Geth.execute, run]
  simp only [transactionContext_gap] at gaps
  generalize geth.transition
    (transactionContext (s.signedMessage geth message) blockHash).toMessageContext
    (s.signedMessage geth message) s.was.ethState.accounts s.was.gp = program at early gaps ⊢
  by_cases nothing : program.path
      ((transactionContext (s.signedMessage geth message) blockHash).filled fill) = []
  · obtain ⟨value, rfl⟩ := Reading.path_nil _ nothing
    exact iff_of_true (fun data => Iff.rfl) (Or.inl nothing)
  -- a program that asks for something stops a call at once
  obtain ⟨held, stopped⟩ := Reading.run_unset (callContext message).field program
    (callContext_gap message) fun value same => nothing (by rw [same]; rfl)
  rw [stopped, or_iff_right nothing, ← gaps]
  constructor
  · intro predicts
    by_contra set
    obtain ⟨⟨accounts, left, result⟩, ends⟩ := Reading.run_total
      (transactionContext (s.signedMessage geth message) blockHash).field program
      fun field member unset => set ⟨field, member, (transactionContext_gap _ _ field).mp unset⟩
    cases result with
    | error error =>
      obtain ⟨value, rfl⟩ := Reading.path_nil _ (early accounts left error ends)
      exact nothing rfl
    | ok executed =>
      rw [ends] at predicts
      obtain ⟨other, panicked, -⟩ := (predicts executed.ret).mpr ⟨executed, rfl, rfl⟩
      cases panicked
  · rintro ⟨field, member, gap⟩ data
    obtain ⟨left, panics⟩ := (Reading.run_stuck_iff _ program).mpr
      ⟨field, member, (transactionContext_gap _ _ field).mpr gap⟩
    rw [panics]
    refine iff_of_false ?_ ?_
    · rintro ⟨executed, found, -⟩
      cases found
    · rintro ⟨executed, found, -⟩
      cases found

end Predictions

/-! ### Programs of the small chain -/

namespace Sample

/-- Alice, and a contract that reads the block number. -/
def heightGenesis : AccountMap := [("0x01", ⟨"", [], "1000000"⟩), ("0x04", ⟨"43", [], "0"⟩)]

def height : State Ledger := (blank.createAccounts Sample.geth heightGenesis).1

/-- A call from alice, with the fields of `signed`. -/
def callTo (recipient : Address) (amount : Int) : Message where
  sender := alice
  recipient := some recipient
  nonce := 0
  amount
  gasLimit := 30000
  price := 0
  data := []
  checkNonce := false

/-- The transaction finds block number 0, and the call finds none. -/
theorem height_not_predicted : height.was = .fresh height.statedb ∧
    Sample.geth.readMessage (encoded (signed 0 30000 (.ofBytes 20 [4]) 0)) =
        .ok (signed 0 30000 (.ofBytes 20 [4]) 0,
          height.signedMessage Sample.geth (callTo (.ofBytes 20 [4]) 0)) ∧
      ¬ CallPredicts Sample.geth height (callTo (.ofBytes 20 [4]) 0)
        (encoded (signed 0 30000 (.ofBytes 20 [4]) 0)) 0 default := by
  refine ⟨(Outcome.isOk_iff.mp (by decide +kernel)).elim fun _ => State.createAccounts_fresh,
    by decide +kernel, fun predicts => ?_⟩
  have read : Sample.geth.readMessage (encoded (signed 0 30000 (.ofBytes 20 [4]) 0)) =
      .ok (signed 0 30000 (.ofBytes 20 [4]) 0,
        height.signedMessage Sample.geth (callTo (.ofBytes 20 [4]) 0)) := by decide +kernel
  have panicked : (height.call Sample.geth (callTo (.ofBytes 20 [4]) 0)).2 = .panic := by
    decide +kernel
  obtain ⟨executed, finished⟩ := Outcome.isOk_iff.mp (show
    (height.was.runMessage Sample.geth (signed 0 30000 (.ofBytes 20 [4]) 0)
      (height.signedMessage Sample.geth (callTo (.ofBytes 20 [4]) 0)) 0 default).outcome.isOk = true
    by decide +kernel)
  have returned := (predicts executed.ret).mpr ((produces_iff read).mpr ⟨executed, finished, rfl⟩)
  rw [panicked] at returned
  cases returned

theorem payment_predicted : CallPredicts Sample.geth started (callTo bob 5)
    (encoded (signed 0 30000 bob 5)) 0 default :=
  (call_predicts_iff (t := signed 0 30000 bob 5) hashLaws entryLaws (fun _ => 0) rfl
    (by decide +kernel)).mpr (Or.inl (by decide +kernel))

end Sample

end EvmBabble
