/-
Receipts that are read back.

A receipt is stored in the form of `ReceiptForStorage`, whose single status slot holds the post state
when there is one and the outcome otherwise. `applyTransaction` always fills in a post state, so the
outcome of a transaction that failed in the EVM is not stored; every other field comes back.

* `made_posted`, `made_sums` — the receipts of a block have a post state, and each has more cumulative
  gas than those before it.
* `receipt_read_back_iff` — the receipt read under a hash, then or later, is the one that was made
  exactly when the transaction did not fail and no later receipt of the block replaced it.
-/

import EvmBabble.State.Lifetime

namespace EvmBabble

open Library

variable {World : Type} (geth : Geth World)

/-! ### The property -/

/-- Receipts that agree in what `transactionReceiptHandler` reports. -/
structure Receipt.Reports (receipt made : Receipt) : Prop where
  postState : receipt.postState = made.postState
  failed : receipt.failed = made.failed
  gasUsed : receipt.gasUsed = made.gasUsed
  cumulativeGasUsed : receipt.cumulativeGasUsed = made.cumulativeGasUsed
  contractAddress : receipt.contractAddress = made.contractAddress
  logs : receipt.logs = made.logs
  bloom : receipt.bloom = made.bloom

/-- The property of a receipt: the one read back reports what the one that was made does. -/
def ReadsBack (db : Database) (made : Receipt) : Prop :=
  ∃ receipt, getReceipt geth db made.txHash = .ok receipt ∧ receipt.Reports made

section Made

variable {geth} {blockHash : Hash}

/-- A message that used gas. -/
theorem txSteps_spent (codec : geth.CodecLaws) (spent : geth.SpentLaws) {transactions : List Bytes}
    {accounts : World} {gas : Int} {steps : List (TxStep World)}
    (folded : geth.txSteps blockHash accounts gas transactions = .ok steps) :
    ∀ step ∈ steps, 0 < step.executed.gasUsed := by
  refine txSteps_each (fun accounts gas txBytes step stepped => ?_) folded
  obtain ⟨t, message, executed, read, finished, rfl⟩ := txStep_ok stepped
  exact spent.positive _ _ _ _ _ finished (gasLimit_nonneg codec read)

variable (was : WriteAheadState World) (txIndex : Nat) {steps : List (TxStep World)}

/-- The receipts a block makes have a post state. -/
theorem made_posted (steps : List (TxStep World)) :
    ∀ receipt ∈ was.made geth blockHash txIndex steps, receipt.postState.length = 32 := by
  induction steps generalizing was txIndex with
  | nil => exact List.forall_mem_nil _
  | cons step steps ih =>
    exact List.forall_mem_cons.mpr ⟨(geth.root step.accounts).length_eq, ih _ _⟩

/-- They have more cumulative gas than was used before. -/
theorem made_above (spent : ∀ step ∈ steps, 0 < step.executed.gasUsed) :
    ∀ receipt ∈ was.made geth blockHash txIndex steps,
      was.totalUsedGas < receipt.cumulativeGasUsed := by
  induction steps generalizing was txIndex with
  | nil => exact List.forall_mem_nil _
  | cons step steps ih =>
    obtain ⟨here, rest⟩ := List.forall_mem_cons.mp spent
    refine List.forall_mem_cons.mpr ⟨Int.lt_add_of_pos_right _ here, fun receipt member => ?_⟩
    exact (Int.lt_add_of_pos_right _ here).trans (ih _ _ rest receipt member)

/-- **The receipts a block makes** each have more cumulative gas than the ones before it. -/
theorem made_sums (spent : ∀ step ∈ steps, 0 < step.executed.gasUsed) :
    (was.made geth blockHash txIndex steps).Pairwise fun earlier later =>
      earlier.cumulativeGasUsed < later.cumulativeGasUsed := by
  induction steps generalizing was txIndex with
  | nil => exact List.Pairwise.nil
  | cons step steps ih =>
    have rest := (List.forall_mem_cons.mp spent).2
    exact List.pairwise_cons.mpr ⟨made_above _ _ rest, ih _ _ rest⟩

end Made

/-! ### Reading back -/

section Reading

variable {geth} {s : State World} {block : Block}

/-- The receipts made by an accepted block, behind those that were there. -/
theorem accepted_made (codec : geth.CodecLaws) (spent : geth.SpentLaws)
    {was : WriteAheadState World} (applied : s.applyBlock geth block = (was, .ok ())) :
    ∃ made, was.receipts = s.was.receipts ++ made ∧
      (∀ receipt ∈ made, receipt.postState.length = 32) ∧
      made.Pairwise fun earlier later => earlier.cumulativeGasUsed < later.cumulativeGasUsed := by
  obtain ⟨outcome, taken⟩ := applyTransactions_steps geth (.ofBytes 32 block.hash) s.was 0
    block.transactions
  change (s.applyBlock geth block).2 = _ at outcome
  rw [applied] at outcome
  obtain ⟨steps, folded, -⟩ := Outcome.map_ok outcome.symm
  have same : was = s.was.takeSteps geth (.ofBytes 32 block.hash) 0 steps := by
    rw [← taken steps folded]
    show was = (s.applyBlock geth block).1
    rw [applied]
  rw [same]
  exact ⟨_, takeSteps_receipts geth _ s.was 0 steps, made_posted s.was 0 steps,
    made_sums s.was 0 (txSteps_spent codec spent folded)⟩

/-- The last receipt of a hash is read back, without the outcome if it has a post state. -/
theorem read_last (receiptLaws : geth.ReceiptLaws) {was : WriteAheadState World} {db : Database}
    (encodes : was.Encodes geth) {before after : List Receipt} {made : Receipt}
    (inside : was.receipts = before ++ made :: after)
    (last : ∀ later ∈ after, later.txHash ≠ made.txHash) :
    getReceipt geth (was.stored geth db) made.txHash = .ok (Geth.stored made) := by
  have listed : made ∈ was.receipts := inside ▸ List.mem_append_right _ List.mem_cons_self
  unfold getReceipt
  rw [commit_receipt inside last]
  dsimp only
  rw [receiptLaws.read _ _ (encodes.receipts made listed)]

theorem stored_posted {receipt : Receipt} (posted : receipt.postState.length = 32) :
    Geth.stored receipt = { receipt with failed := false } := by
  refine if_neg fun blank => ?_
  rw [blank] at posted
  cases posted

/-- A receipt behind those that were there is one of the block's. -/
theorem built_split {built made before after : List Receipt} {receipt : Receipt}
    (same : built ++ made = before ++ receipt :: after) (behind : built.length ≤ before.length) :
    ∃ middle, before = built ++ middle ∧ made = middle ++ receipt :: after := by
  rcases List.append_eq_append_iff.mp same with ⟨middle, front, back⟩ | ⟨rest, front, back⟩
  · exact ⟨middle, front, back⟩
  · have lengths := congrArg List.length front
    rw [List.length_append] at lengths
    obtain rfl : rest = [] := List.length_eq_zero_iff.mp (by omega)
    rw [List.append_nil] at front
    exact ⟨[], by rw [front, List.append_nil], by rw [back]; rfl⟩

/-- A receipt that a later one of the block replaced: the one read back has more cumulative gas. -/
theorem replaced_unread (receiptLaws : geth.ReceiptLaws) {was : WriteAheadState World} {db : Database}
    (encodes : was.Encodes geth) {before middle after : List Receipt} {made : Receipt}
    (appended : was.receipts = before ++ (middle ++ made :: after))
    (posted : ∀ receipt ∈ middle ++ made :: after, receipt.postState.length = 32)
    (sums : (middle ++ made :: after).Pairwise fun earlier later =>
      earlier.cumulativeGasUsed < later.cumulativeGasUsed)
    (replaced : ∃ other ∈ after, other.txHash = made.txHash) :
    ¬ ReadsBack geth (was.stored geth db) made := by
  obtain ⟨skipped, last, rest, rfl, hash, final⟩ := Store.exists_last _ replaced
  have listed : was.receipts = (before ++ middle ++ made :: skipped) ++ last :: rest := by
    rw [appended]
    simp only [List.append_assoc, List.cons_append]
  have read : getReceipt geth (was.stored geth db) last.txHash = .ok (Geth.stored last) :=
    read_last receiptLaws encodes listed (by rw [hash]; exact final)
  rw [hash, stored_posted (posted last (by simp))] at read
  have more : made.cumulativeGasUsed < last.cumulativeGasUsed := by
    have tail := (List.pairwise_append.mp sums).2.1
    exact (List.pairwise_cons.mp tail).1 last (by simp)
  rintro ⟨receipt, found, reports⟩
  obtain rfl := Except.ok.inj (read.symm.trans found)
  have equal := reports.cumulativeGasUsed
  change last.cumulativeGasUsed = made.cumulativeGasUsed at equal
  omega

/-- **The receipt read back is the one that was made** exactly when its transaction did not fail and no
later receipt of the block has its hash, now and as long as no other one is committed. -/
theorem receipt_read_back_iff (codec : geth.CodecLaws) (receiptLaws : geth.ReceiptLaws)
    (trie : geth.TrieLaws) (spent : geth.SpentLaws) {root : Hash}
    (accepted : (s.processBlock geth block).2 = .ok root) {before after : List Receipt}
    {made : Receipt} (receipts : (s.applyBlock geth block).1.receipts = before ++ made :: after)
    (built : s.was.receipts.length ≤ before.length) {later : List Happening}
    (unrepeated : Along (State.live geth) (Unrepeated geth made.txHash)
      (s.processBlock geth block).1 later) :
    ReadsBack geth (run (State.live geth) (s.processBlock geth block).1 later).1.db made ↔
      made.failed = false ∧ ∀ other ∈ after, other.txHash ≠ made.txHash := by
  obtain ⟨was, applied, same⟩ := State.processBlock_accepted accepted
  rw [same] at accepted unrepeated ⊢
  rw [applied] at receipts
  -- the database of the commit is the one that is read
  have done : (was.commit geth s.db).outcome = .ok root := State.commit_outcome.symm.trans accepted
  have encodes := commit_ok_encodes done
  have stored : (State.commit geth { s with was }).1.db = was.stored geth s.db := by
    rw [State.commit_db]
    exact commit_stored encodes
  have reads : ReadsBack geth (run (State.live geth) (State.commit geth { s with was }).1 later).1.db
      made ↔ ReadsBack geth (was.stored geth s.db) made := by
    unfold ReadsBack
    rw [getReceipt_congr (receipt_kept_run trie unrepeated), stored]
  rw [reads]
  -- the receipts from `made` on are those of the block
  obtain ⟨all, appended, posted, sums⟩ := accepted_made codec spent applied
  change was.receipts = before ++ made :: after at receipts
  obtain ⟨middle, rfl, rfl⟩ := built_split (appended.symm.trans receipts) built
  by_cases replaced : ∃ other ∈ after, other.txHash = made.txHash
  · exact iff_of_false (replaced_unread receiptLaws encodes appended posted sums replaced)
      fun ⟨_, last⟩ => replaced.elim fun other found => last other found.1 found.2
  · have last : ∀ other ∈ after, other.txHash ≠ made.txHash := fun other member same =>
      replaced ⟨other, member, same⟩
    have read : getReceipt geth (was.stored geth s.db) made.txHash = .ok (Geth.stored made) :=
      read_last receiptLaws encodes receipts last
    rw [stored_posted (posted made (by simp))] at read
    constructor
    · rintro ⟨receipt, found, reports⟩
      obtain rfl := Except.ok.inj (read.symm.trans found)
      exact ⟨reports.failed.symm, last⟩
    · rintro ⟨succeeded, -⟩
      exact ⟨_, read, rfl, succeeded.symm, rfl, rfl, rfl, rfl, rfl⟩

end Reading

/-! ### Receipts of the small chain -/

namespace Sample

/-- Alice, and a contract whose code is no program. -/
def brokenGenesis : AccountMap := [("0x01", ⟨"", [], "1000000"⟩), ("0x04", ⟨"fe", [], "0"⟩)]

def broken : State Ledger := (blank.createAccounts Sample.geth brokenGenesis).1

/-- A transaction that fails in the contract: it is applied, and its receipt says that it failed. -/
def failing : Block := blockOf [signed 0 30000 (.ofBytes 20 [4]) 0]

/-- The receipt read back says that it did not fail. -/
theorem failure_not_read_back : (broken.processBlock Sample.geth failing).2.isOk = true ∧
    ∃ made, (broken.applyBlock Sample.geth failing).1.receipts = [made] ∧
      ¬ ReadsBack Sample.geth (broken.processBlock Sample.geth failing).1.db made := by
  obtain ⟨made, alone⟩ := List.length_eq_one_iff.mp (show
    (broken.applyBlock Sample.geth failing).1.receipts.length = 1 by decide +kernel)
  have failed : (broken.applyBlock Sample.geth failing).1.receipts.map Receipt.failed = [true] := by
    decide +kernel
  have hash : (broken.applyBlock Sample.geth failing).1.receipts.map Receipt.txHash =
      [txHash (signed 0 30000 (.ofBytes 20 [4]) 0)] := by decide +kernel
  have read : (match getReceipt Sample.geth (broken.processBlock Sample.geth failing).1.db
        (txHash (signed 0 30000 (.ofBytes 20 [4]) 0)) with
      | .ok receipt => receipt.failed
      | .error _ => false) = false := by decide +kernel
  rw [alone] at failed hash
  refine ⟨by decide +kernel, made, alone, ?_⟩
  rintro ⟨receipt, found, reports⟩
  rw [(List.cons.inj hash).1] at found
  rw [found] at read
  exact absurd (read.symm.trans (reports.failed.trans (List.cons.inj failed).1)) (by decide)

/-- The receipt of a payment is read back after a restart. -/
theorem payment_read_back : ∃ made, (started.applyBlock Sample.geth payment).1.receipts = [made] ∧
    ReadsBack Sample.geth (run (State.live Sample.geth) (started.processBlock Sample.geth payment).1
      [.restart]).1.db made := by
  obtain ⟨made, alone⟩ := List.length_eq_one_iff.mp (show
    (started.applyBlock Sample.geth payment).1.receipts.length = 1 by decide +kernel)
  have failed : (started.applyBlock Sample.geth payment).1.receipts.map Receipt.failed = [false] := by
    decide +kernel
  obtain ⟨root, accepted⟩ := Outcome.isOk_iff.mp (show
    (started.processBlock Sample.geth payment).2.isOk = true by decide +kernel)
  rw [alone] at failed
  have unrepeated : Along (State.live Sample.geth) (Unrepeated Sample.geth made.txHash)
      (started.processBlock Sample.geth payment).1 [.restart] :=
    ⟨fun was commits => (by cases commits), trivial⟩
  exact ⟨made, alone, (receipt_read_back_iff codecLaws receiptLaws trieLaws spentLaws accepted
    (show _ = [] ++ made :: [] from alone) (by decide +kernel) unrepeated).mpr
      ⟨(List.cons.inj failed).1, List.forall_mem_nil _⟩⟩

end Sample

end EvmBabble
