/-
A stop in the middle of a commit.

A commit issues the trie records, the head, the transaction batch and the receipt batch, in this
order; a process that stops leaves the database after a prefix of these writes. The head is written
before the receipt it leads to, so between the two the database cannot be opened.

* `OneValue` — the records a commit writes under 32-byte keys are keyed by a hash of their contents:
  they repeat each other and what is there.
* `trie_prefix_opens` — a prefix of the trie records leaves the old way to the old root.
* `stopped_between` — between the head and the receipts the database does not open, when the block's
  last transaction has no receipt yet.
* `stopped_readBack` — what is read back there: the receipts from before, and the transactions that are
  in the database, among the trie records or in a batch that the stop is behind.
* `crash_consistent_iff` — the database opens with the old root or with the new one and all of the
  block's records exactly when the stop is not there, or the database had a receipt of the last
  transaction before the block that leads to the old root, or to the new one with the rest on record.
-/

import EvmBabble.State.Recovery

namespace EvmBabble

open Library

variable {World : Type} (geth : Geth World)

/-- Records under 32-byte keys that repeat each other and what the database holds. -/
def OneValue (db : Database) (records : List (Bytes × Bytes)) : Prop :=
  ∀ record ∈ records, record.1.length = 32 →
    (db record.1 = none ∨ db record.1 = some record.2) ∧
      ∀ other ∈ records, other.1 = record.1 → other.2 = record.2

instance (db : Database) (records : List (Bytes × Bytes)) : Decidable (OneValue db records) :=
  inferInstanceAs (Decidable (∀ _ ∈ _, _))

theorem OneValue.sub {db : Database} {part all : List (Bytes × Bytes)} (one : OneValue db all)
    (inside : ∀ record ∈ part, record ∈ all) : OneValue db part := fun record member short =>
  ⟨(one record (inside record member) short).1, fun other listed =>
    (one record (inside record member) short).2 other (inside other listed)⟩

/-- So do the records of a prefix of some writes. -/
theorem OneValue.take {db : Database} {writes : List (Write Bytes Bytes)}
    (one : OneValue db (writes.flatMap Write.records)) (count : Nat) :
    OneValue db ((writes.take count).flatMap Write.records) := by
  refine one.sub fun record member => ?_
  obtain ⟨write, listed, inside⟩ := List.mem_flatMap.mp member
  exact List.mem_flatMap.mpr ⟨write, List.mem_of_mem_take listed, inside⟩

/-- Of records that repeat each other, the later ones lose nothing that the earlier ones or the
database hold. -/
theorem OneValue.keeps (db : Database) (first second : List (Write Bytes Bytes))
    (one : OneValue db ((first ++ second).flatMap Write.records)) :
    Store.Keeps (fun key : Bytes => key.length = 32) (Store.writes db first)
      (Store.writes db (first ++ second)) := by
  rw [Store.writes_append]
  refine Store.keeps_writes _ second fun write member record inside short value found => ?_
  have listed : record ∈ (first ++ second).flatMap Write.records :=
    List.mem_flatMap.mpr ⟨write, List.mem_append_right _ member, inside⟩
  obtain ⟨held, alike⟩ := one record listed short
  rcases Store.writes_some found with old | ⟨earlier, before, same⟩
  · rcases held with none | some
    · rw [none] at old
      cases old
    · rw [some] at old
      exact Option.some.inj old
  · exact (alike _ (List.mem_flatMap.mpr ⟨earlier, List.mem_append_left _ before, same⟩) rfl).symm

/-! ### Prefixes of a commit -/

/-- The writes a block's commit issues. -/
def State.blockWrites (s : State World) (block : Block) : List (Write Bytes Bytes) :=
  ((s.applyBlock geth block).1.commit geth s.db).writes

/-- The trie records among them. -/
def State.blockTrie (s : State World) (block : Block) : List (Write Bytes Bytes) :=
  (s.applyBlock geth block).1.trie geth s.db

/-- The database of a process that stopped after so many writes of a block's commit. -/
def State.stoppedAt (s : State World) (block : Block) (count : Nat) : Database :=
  Store.writes s.db ((s.blockWrites geth block).take count)

/-- The records behind the head at a stop between the head and the receipts: none, or the
transactions. -/
def State.behindHead (s : State World) (block : Block) (steps : List (TxStep World)) (count : Nat) :
    List (Bytes × Bytes) :=
  if (s.blockTrie geth block).length + 2 ≤ count then
    (s.blockWas geth block steps).transactionBatch geth
  else []

/-- The receipts are there when the head is. -/
def HeadFollowed (s : State World) (block : Block) (count : Nat) : Prop :=
  count ≤ (s.blockTrie geth block).length ∨ (s.blockTrie geth block).length + 3 ≤ count

instance (s : State World) (block : Block) (count : Nat) : Decidable (HeadFollowed geth s block count) :=
  inferInstanceAs (Decidable (_ ∨ _))

/-- A transaction that is read back under its hash, with its receipt. -/
def ReadBack (db : Database) (hash : Hash) : Prop :=
  (∃ t, getTransaction geth db hash = .ok t ∧ geth.txHash t = hash) ∧
    ∃ receipt, getReceipt geth db hash = .ok receipt ∧ receipt.txHash = hash

/-- The property of a stop after so many writes: the database opens, with the old root, or with the
new one and every transaction of the block and its receipt. -/
def CrashConsistent (s : State World) (block : Block) (count : Nat) : Prop :=
  ∃ recovered, newState geth (s.stoppedAt geth block count) = .ok recovered ∧
    (geth.root recovered.statedb.accounts = geth.root s.statedb.accounts ∨
      (s.processBlock geth block).2 = .ok (geth.root recovered.statedb.accounts) ∧
        ∀ txBytes ∈ block.transactions, ∀ t, geth.rlpDecode txBytes = some t →
          ReadBack geth (s.stoppedAt geth block count) (geth.txHash t))

/-- The root of the account state that a block's commit is handed. -/
def State.blockRoot (s : State World) (block : Block) : Hash :=
  geth.root (geth.finalise (s.applyBlock geth block).1.ethState.accounts)

/-- The database has a receipt of the block's last transaction, and it leads to this root. -/
def PostedBefore (blank : World) (s : State World) (block : Block) (root : Hash) : Prop :=
  ∃ t posted, block.transactions.getLast?.bind geth.rlpDecode = some t ∧
    receiptRoot geth s.db (geth.txHash t) = .ok posted ∧ geth.openedRoot blank posted = root

/-- The database has a receipt of every transaction of the block; the transactions are there as well, or
among the trie records, unless the stop is behind their batch. -/
def RecordedBefore (s : State World) (block : Block) (count : Nat) : Prop :=
  ∀ txBytes ∈ block.transactions, ∀ t, geth.rlpDecode txBytes = some t →
    (∃ receipt, getReceipt geth s.db (geth.txHash t) = .ok receipt ∧
        receipt.txHash = geth.txHash t) ∧
      ((s.blockTrie geth block).length + 2 ≤ count ∨
        Store.writes s.db (s.blockTrie geth block) (transactionKey (geth.txHash t)) ≠ none)

section Prefixes

variable {geth} {db : Database}

/-- Opening a database looks at the head and the receipts only. -/
theorem headRoot_congr {later : Database} (head : later headTxKey = db headTxKey)
    (receipts : ∀ hash, later (receiptKey hash) = db (receiptKey hash)) :
    headRoot geth later = headRoot geth db := by
  have same : ∀ hash, getReceipt geth later hash = getReceipt geth db hash := fun hash => by
    unfold getReceipt
    rw [receipts]
  unfold headRoot
  rw [head]
  split
  · rfl
  · rfl
  · rw [same]

/-- A prefix of the trie records leaves the head and the receipts. -/
theorem trie_prefix (trie : geth.TrieLaws) (was : WriteAheadState World) (count : Nat) {key : Bytes}
    (apart : key.length ≠ 32 ∧ key.length ≠ 43) :
    Store.writes db ((was.trie geth db).take count) key = db key :=
  Store.writes_other _ _ _ fun write member =>
    trie_other trie apart write (List.mem_of_mem_take member)

theorem trie_prefix_head (trie : geth.TrieLaws) (was : WriteAheadState World) (count : Nat) :
    Store.writes db ((was.trie geth db).take count) headTxKey = db headTxKey :=
  trie_prefix trie was count ⟨by decide, by decide⟩

theorem trie_prefix_receipt (trie : geth.TrieLaws) (was : WriteAheadState World) (count : Nat)
    (hash : Hash) :
    Store.writes db ((was.trie geth db).take count) (receiptKey hash) = db (receiptKey hash) :=
  trie_prefix trie was count (by rw [receiptKey_length]; decide)

/-- **A prefix of the trie records leaves the old way to the old root.** -/
theorem trie_prefix_opens (trie : geth.TrieLaws) {s : State World}
    (opened : newState geth s.db = .ok s) (was : WriteAheadState World) (count : Nat)
    (one : OneValue s.db ((was.trie geth s.db).flatMap Write.records)) :
    newState geth (Store.writes s.db ((was.trie geth s.db).take count)) =
      .ok { s with db := Store.writes s.db ((was.trie geth s.db).take count) } := by
  obtain ⟨root, accounts, headed, found, same⟩ := newState_some opened
  have keeps := OneValue.keeps s.db [] ((was.trie geth s.db).take count) (one.take count)
  rw [List.nil_append] at keeps
  rw [newState_ok (by rw [headRoot_congr (trie_prefix_head trie was count)
    (trie_prefix_receipt trie was count), headed]) (trie.open_keeps _ _ _ _ found keeps)]
  rw [same]

end Prefixes

/-! ### Stops -/

section Stops

variable {geth} {s : State World} {block : Block} {steps : List (TxStep World)}

/-- The writes of a block whose fold succeeds. -/
theorem blockWrites_eq (pool : geth.PoolLaws) (codec : geth.CodecLaws) (trie : geth.TrieLaws)
    (fresh : s.was = .fresh s.statedb) (folded : s.blockSteps geth block = .ok steps) :
    s.blockWrites geth block = s.blockTrie geth block ++
      [(s.blockWas geth block steps).writeHead geth,
        .batch ((s.blockWas geth block steps).transactionBatch geth),
        .batch ((s.blockWas geth block steps).receiptBatch geth)] := by
  have encodable : (s.blockWas geth block steps).Encodable geth :=
    takeSteps_encodable codec s.statedb 0 (txSteps_sound pool codec trie folded)
  unfold State.blockWrites State.blockTrie
  rw [(applyBlock_steps geth block fresh).2 steps folded, commit_encodable codec encodable]

/-- All of the writes make the database of the finished block. -/
theorem blockWrites_db (pool : geth.PoolLaws) (codec : geth.CodecLaws) (trie : geth.TrieLaws)
    (fresh : s.was = .fresh s.statedb) (folded : s.blockSteps geth block = .ok steps) :
    Store.writes s.db (s.blockWrites geth block) = (s.processBlock geth block).1.db := by
  have encodable : (s.blockWas geth block steps).Encodable geth :=
    takeSteps_encodable codec s.statedb 0 (txSteps_sound pool codec trie folded)
  rw [processBlock_steps pool codec trie fresh folded]
  unfold State.blockWrites
  rw [(applyBlock_steps geth block fresh).2 steps folded, commit_writes codec encodable]

/-- Records under 32-byte keys survive a block that repeats what the database holds. -/
theorem processBlock_keeps (pool : geth.PoolLaws) (codec : geth.CodecLaws) (trie : geth.TrieLaws)
    (fresh : s.was = .fresh s.statedb) (folded : s.blockSteps geth block = .ok steps)
    (one : OneValue s.db ((s.blockWrites geth block).flatMap Write.records)) :
    Store.Keeps (fun key : Bytes => key.length = 32) s.db (s.processBlock geth block).1.db := by
  rw [← blockWrites_db pool codec trie fresh folded]
  exact OneValue.keeps s.db [] (s.blockWrites geth block) one

/-- The head of a block with transactions. -/
theorem blockWas_head {before : List (TxStep World)} {last : TxStep World} :
    (s.blockWas geth block (before ++ [last])).head = last.t := by
  rw [WriteAheadState.head, State.blockWas, takeSteps_transactions]
  simp [WriteAheadState.fresh]

/-- The database between the head and the receipts. -/
theorem stoppedAt_between (pool : geth.PoolLaws) (codec : geth.CodecLaws) (trie : geth.TrieLaws)
    (fresh : s.was = .fresh s.statedb) (folded : s.blockSteps geth block = .ok steps) {count : Nat}
    (between : ¬ HeadFollowed geth s block count) :
    s.stoppedAt geth block count = (Store.writes s.db (s.blockTrie geth block)).putAll
      ((headTxKey, (geth.txHash (s.blockWas geth block steps).head).bytes) ::
        s.behindHead geth block steps count) := by
  have counted : count = (s.blockTrie geth block).length + 1 ∨
      count = (s.blockTrie geth block).length + 2 := by
    unfold HeadFollowed at between
    omega
  unfold State.stoppedAt
  rw [blockWrites_eq pool codec trie fresh folded, List.take_append,
    List.take_of_length_le (by omega), Store.writes_append]
  rcases counted with rfl | rfl
  · rw [Nat.add_sub_cancel_left, State.behindHead, if_neg (by omega)]
    rfl
  · rw [Nat.add_sub_cancel_left, State.behindHead, if_pos (Nat.le_refl _)]
    show Store.writes _ [_, _] = _
    rw [WriteAheadState.writeHead, Store.writes_put, Store.writes_batch, Store.writes_nil]
    rfl

theorem behindHead_key {count : Nat} {record : Bytes × Bytes}
    (member : record ∈ s.behindHead geth block steps count) :
    ∃ hash, record.1 = transactionKey hash := by
  unfold State.behindHead at member
  split at member
  · obtain ⟨t, -, rfl⟩ := transactionBatch_key member
    exact ⟨_, rfl⟩
  · exact absurd member List.not_mem_nil

/-- Between the head and the receipts, the receipts are those from before. -/
theorem between_receipt (pool : geth.PoolLaws) (codec : geth.CodecLaws) (trie : geth.TrieLaws)
    (fresh : s.was = .fresh s.statedb) (folded : s.blockSteps geth block = .ok steps) {count : Nat}
    (between : ¬ HeadFollowed geth s block count) (hash : Hash) :
    s.stoppedAt geth block count (receiptKey hash) = s.db (receiptKey hash) := by
  rw [stoppedAt_between pool codec trie fresh folded between,
    Store.putAll_other _ _ _ fun record member same => by
      rcases List.mem_cons.mp member with rfl | inside
      · exact receiptKey_ne_head _ same.symm
      · obtain ⟨other, named⟩ := behindHead_key inside
        exact receiptKey_ne_transactionKey _ _ (same.symm.trans named)]
  have length := receiptKey_length hash
  exact Store.writes_other _ _ _ (trie_other trie (by rw [length]; decide))

/-- **A stop between the head and the receipts**: the head leads to the receipt the last transaction
had before. -/
theorem between_headRoot (pool : geth.PoolLaws) (codec : geth.CodecLaws) (trie : geth.TrieLaws)
    (fresh : s.was = .fresh s.statedb) {before : List (TxStep World)} {last : TxStep World}
    (folded : s.blockSteps geth block = .ok (before ++ [last])) {count : Nat}
    (between : ¬ HeadFollowed geth s block count) :
    headRoot geth (s.stoppedAt geth block count) = receiptRoot geth s.db (geth.txHash last.t) := by
  have head : s.stoppedAt geth block count headTxKey = some (geth.txHash last.t).bytes := by
    rw [stoppedAt_between pool codec trie fresh folded between, blockWas_head]
    refine Store.putAll_last _ [] _ _ _ fun record member same => ?_
    obtain ⟨hash, named⟩ := behindHead_key member
    exact transactionKey_ne_head hash (named.symm.trans same)
  rw [headRoot_of_head head, receiptRoot, receiptRoot,
    getReceipt_congr (between_receipt pool codec trie fresh folded between _)]

/-- It opens nothing if the last transaction has no receipt yet. -/
theorem stopped_between (pool : geth.PoolLaws) (codec : geth.CodecLaws) (trie : geth.TrieLaws)
    (fresh : s.was = .fresh s.statedb) {before : List (TxStep World)} {last : TxStep World}
    (folded : s.blockSteps geth block = .ok (before ++ [last])) {count : Nat}
    (between : ¬ HeadFollowed geth s block count)
    (unposted : s.db (receiptKey (geth.txHash last.t)) = none) :
    newState geth (s.stoppedAt geth block count) = .error .notFound := by
  refine newState_error ((between_headRoot pool codec trie fresh folded between).trans ?_)
  rw [receiptRoot, getReceipt, unposted]

/-- **A stop within the trie records**: the old root. -/
theorem stopped_early (pool : geth.PoolLaws) (codec : geth.CodecLaws) (trie : geth.TrieLaws)
    (opened : newState geth s.db = .ok s) (folded : s.blockSteps geth block = .ok steps)
    (one : OneValue s.db ((s.blockWrites geth block).flatMap Write.records)) {count : Nat}
    (early : count ≤ (s.blockTrie geth block).length) :
    newState geth (s.stoppedAt geth block count) =
      .ok { s with db := s.stoppedAt geth block count } := by
  have writes := blockWrites_eq pool codec trie (newState_fresh opened).2 folded
  have stopped : s.stoppedAt geth block count =
      Store.writes s.db ((s.blockTrie geth block).take count) := by
    unfold State.stoppedAt
    rw [writes, List.take_append_of_le_length early]
  rw [stopped]
  refine trie_prefix_opens trie opened _ count (one.sub fun record member => ?_)
  rw [writes, List.flatMap_append]
  exact List.mem_append_left _ member

/-- **A stop after the receipts**: the new root, in the database of the finished block. -/
theorem stopped_late (pool : geth.PoolLaws) (codec : geth.CodecLaws) (trie : geth.TrieLaws)
    (fresh : s.was = .fresh s.statedb) {root : Hash} (filled : block.transactions ≠ [])
    (accepted : (s.processBlock geth block).2 = .ok root)
    (one : OneValue s.db ((s.blockWrites geth block).flatMap Write.records))
    (reopens : geth.openState (Store.writes s.db (s.blockTrie geth block)) root =
      some (s.processBlock geth block).1.statedb.accounts) {count : Nat}
    (late : (s.blockTrie geth block).length + 3 ≤ count) :
    s.stoppedAt geth block count = (s.processBlock geth block).1.db ∧
      ∃ recovered, newState geth (s.stoppedAt geth block count) = .ok recovered ∧
        geth.root recovered.statedb.accounts = root := by
  obtain ⟨steps, folded⟩ := (processBlock_accepted_iff pool codec trie fresh).mp ⟨root, accepted⟩
  have writes := blockWrites_eq pool codec trie fresh folded
  have whole : s.stoppedAt geth block count = Store.writes s.db (s.blockWrites geth block) := by
    unfold State.stoppedAt
    rw [List.take_of_length_le (by rw [writes, List.length_append]; exact late)]
  have finished := blockWrites_db pool codec trie fresh folded
  obtain ⟨headed, same⟩ := block_headRoot pool codec trie fresh filled accepted
  rw [whole, finished]
  refine ⟨rfl, _, newState_ok headed (trie.open_keeps _ _ _ _ reopens ?_), same.symm⟩
  rw [← finished, writes]
  rw [writes] at one
  exact OneValue.keeps _ _ _ one

/-- A transaction of an accepted block is one that was applied. -/
theorem step_of_transaction (folded : s.blockSteps geth block = .ok steps) {txBytes : Bytes}
    (member : txBytes ∈ block.transactions) {t : Transaction}
    (decoded : geth.rlpDecode txBytes = some t) : ∃ step ∈ steps, step.t = t := by
  have inside := List.mem_map_of_mem (f := geth.readMessage) member
  rw [txSteps_reads folded] at inside
  obtain ⟨found, listed, read⟩ := List.mem_map.mp inside
  exact ⟨found, listed, Option.some.inj ((readMessage_ok read.symm).1.symm.trans decoded)⟩

/-- The transactions of an accepted block are read back. -/
theorem processBlock_readBack (pool : geth.PoolLaws) (codec : geth.CodecLaws) (trie : geth.TrieLaws)
    (fresh : s.was = .fresh s.statedb) (folded : s.blockSteps geth block = .ok steps)
    {txBytes : Bytes} (member : txBytes ∈ block.transactions) {t : Transaction}
    (decoded : geth.rlpDecode txBytes = some t) :
    ReadBack geth (s.processBlock geth block).1.db (geth.txHash t) := by
  obtain ⟨found, listed, rfl⟩ := step_of_transaction folded member decoded
  obtain ⟨before, step, after, rfl, hash, last⟩ :=
    Store.exists_last (fun step : TxStep World => geth.txHash step.t = geth.txHash found.t)
      ⟨found, listed, rfl⟩
  have records := posted pool codec trie fresh folded fun later inside =>
    hash ▸ last later inside
  obtain ⟨bytes, readStep⟩ := (txSteps_sound pool codec trie folded step (by simp)).read
  obtain ⟨-, stored, -⟩ := step_stored pool codec trie fresh folded fun later inside =>
    hash ▸ last later inside
  obtain ⟨receipt, got, named, -⟩ := records.receipt
  rw [← hash]
  exact ⟨⟨step.t, getTransaction_stored codec (readMessage_ok readStep).1 stored, rfl⟩, receipt, got,
    named⟩

/-- The record a block makes of a transaction. -/
theorem transaction_written (pool : geth.PoolLaws) (codec : geth.CodecLaws) (trie : geth.TrieLaws)
    (fresh : s.was = .fresh s.statedb) (folded : s.blockSteps geth block = .ok steps)
    {step : TxStep World} (member : step ∈ steps) :
    (transactionKey (geth.txHash step.t), geth.canonical step.t) ∈
        (s.blockWas geth block steps).transactionBatch geth ∧
      (transactionKey (geth.txHash step.t), geth.canonical step.t) ∈
        (s.blockWrites geth block).flatMap Write.records := by
  have inside : (transactionKey (geth.txHash step.t), geth.canonical step.t) ∈
      (s.blockWas geth block steps).transactionBatch geth := by
    refine List.mem_map.mpr ⟨step.t, ?_, rfl⟩
    rw [State.blockWas, takeSteps_transactions]
    exact List.mem_append_right _ (List.mem_map_of_mem member)
  refine ⟨inside, ?_⟩
  rw [blockWrites_eq pool codec trie fresh folded]
  exact List.mem_flatMap.mpr
    ⟨.batch ((s.blockWas geth block steps).transactionBatch geth), by simp, inside⟩

/-- Whatever a stopped database holds under the hash of a transaction of the block is the
transaction. -/
theorem stoppedAt_transaction {count : Nat}
    (one : OneValue s.db ((s.blockWrites geth block).flatMap Write.records)) {t : Transaction}
    (written : (transactionKey (geth.txHash t), geth.canonical t) ∈
      (s.blockWrites geth block).flatMap Write.records) {value : Bytes}
    (found : s.stoppedAt geth block count (transactionKey (geth.txHash t)) = some value) :
    value = geth.canonical t := by
  obtain ⟨held, alike⟩ := one _ written (transactionKey_length _)
  rcases Store.writes_some found with old | ⟨write, listed, inside⟩
  · rcases held with none | some
    · exact absurd (none.symm.trans old) (Option.some_ne_none value).symm
    · exact Option.some.inj (old.symm.trans some)
  · exact alike _ (List.mem_flatMap.mpr ⟨write, List.mem_of_mem_take listed, inside⟩) rfl

/-- Where a transaction of the block is in a database that was stopped between the head and the
receipts. -/
theorem between_transaction (pool : geth.PoolLaws) (codec : geth.CodecLaws) (trie : geth.TrieLaws)
    (fresh : s.was = .fresh s.statedb) (folded : s.blockSteps geth block = .ok steps)
    (one : OneValue s.db ((s.blockWrites geth block).flatMap Write.records)) {count : Nat}
    (between : ¬ HeadFollowed geth s block count) {step : TxStep World} (member : step ∈ steps) :
    s.stoppedAt geth block count (transactionKey (geth.txHash step.t)) ≠ none ↔
      (s.blockTrie geth block).length + 2 ≤ count ∨
        Store.writes s.db (s.blockTrie geth block) (transactionKey (geth.txHash step.t)) ≠ none := by
  obtain ⟨inside, written⟩ := transaction_written pool codec trie fresh folded member
  rw [stoppedAt_between pool codec trie fresh folded between]
  by_cases behind : (s.blockTrie geth block).length + 2 ≤ count
  · refine iff_of_true ?_ (Or.inl behind)
    rw [State.behindHead, if_pos behind]
    have stays : (Store.writes s.db (s.blockTrie geth block)).putAll
        ((headTxKey, (geth.txHash (s.blockWas geth block steps).head).bytes) ::
          (s.blockWas geth block steps).transactionBatch geth) (transactionKey (geth.txHash step.t)) =
            some (geth.canonical step.t) :=
      Store.putAll_agreed (List.mem_cons_of_mem _ inside) fun other listed same => by
        rcases List.mem_cons.mp listed with rfl | later
        · exact absurd same.symm (transactionKey_ne_head _)
        · refine (one _ written (transactionKey_length _)).2 other ?_ same
          rw [blockWrites_eq pool codec trie fresh folded]
          exact List.mem_flatMap.mpr
            ⟨.batch ((s.blockWas geth block steps).transactionBatch geth), by simp, later⟩
    rw [stays]
    exact Option.some_ne_none _
  · rw [or_iff_right behind, State.behindHead, if_neg behind, Store.putAll_other _ _ _ ?_]
    intro record listed same
    obtain rfl := List.mem_singleton.mp listed
    exact transactionKey_ne_head _ same.symm

/-- **What is read back of a transaction of the block** at a stop between the head and the receipts. -/
theorem stopped_readBack (pool : geth.PoolLaws) (codec : geth.CodecLaws) (trie : geth.TrieLaws)
    (fresh : s.was = .fresh s.statedb) (folded : s.blockSteps geth block = .ok steps)
    (one : OneValue s.db ((s.blockWrites geth block).flatMap Write.records)) {count : Nat}
    (between : ¬ HeadFollowed geth s block count) :
    (∀ txBytes ∈ block.transactions, ∀ t, geth.rlpDecode txBytes = some t →
        ReadBack geth (s.stoppedAt geth block count) (geth.txHash t)) ↔
      RecordedBefore geth s block count := by
  refine forall₂_congr fun txBytes member => forall₂_congr fun t decoded => ?_
  obtain ⟨step, listed, rfl⟩ := step_of_transaction folded member decoded
  unfold ReadBack
  rw [getReceipt_congr (between_receipt pool codec trie fresh folded between _),
    ← between_transaction pool codec trie fresh folded one between listed, and_comm]
  refine and_congr_right fun _ => ⟨?_, fun held => ?_⟩
  · rintro ⟨found, read, -⟩ missing
    rw [getTransaction, missing] at read
    cases read
  · obtain ⟨value, found⟩ := Option.ne_none_iff_exists'.mp held
    obtain rfl := stoppedAt_transaction one
      (transaction_written pool codec trie fresh folded listed).2 found
    exact ⟨step.t, getTransaction_stored codec decoded found, rfl⟩

/-- The last step of a block with transactions is its last transaction. -/
theorem steps_last (filled : block.transactions ≠ []) (folded : s.blockSteps geth block = .ok steps) :
    ∃ before last, steps = before ++ [last] ∧
      block.transactions.getLast?.bind geth.rlpDecode = some last.t := by
  have nonempty : steps ≠ [] := fun blank => filled (List.length_eq_zero_iff.mp (by
    rw [← txSteps_length folded, blank]
    rfl))
  obtain ⟨before, last, rfl⟩ := List.eq_nil_or_concat steps |>.resolve_left nonempty
  rw [List.concat_eq_append] at folded ⊢
  have reads := congrArg List.getLast? (txSteps_reads folded)
  rw [List.getLast?_map, List.getLast?_map, List.getLast?_concat] at reads
  obtain ⟨txBytes, final, read⟩ := Option.map_eq_some_iff.mp reads
  refine ⟨before, last, rfl, ?_⟩
  rw [final]
  exact (readMessage_ok read).1

/-- The old root opens in a stopped database. -/
theorem stopped_old {blank : World} (trie : geth.TrieLaws) (roots : geth.RootLaws blank)
    (opened : newState geth s.db = .ok s)
    (one : OneValue s.db ((s.blockWrites geth block).flatMap Write.records)) (count : Nat) :
    geth.openState (s.stoppedAt geth block count) (geth.root s.statedb.accounts) =
      some s.statedb.accounts := by
  obtain ⟨root, accounts, -, found, same⟩ := newState_some opened
  have held : s.statedb.accounts = accounts := by
    rw [same]
    rfl
  rw [held]
  exact trie.open_keeps _ _ _ _ (roots.opens_own found) (OneValue.keeps s.db [] _ (one.take count))

/-- A root that opens behind the trie records opens in a database stopped later. -/
theorem stopped_new (trie : geth.TrieLaws) {writes : List (Write Bytes Bytes)}
    (issued : s.blockWrites geth block = s.blockTrie geth block ++ writes)
    (one : OneValue s.db ((s.blockWrites geth block).flatMap Write.records)) {root : Hash}
    {accounts : World}
    (reopens : geth.openState (Store.writes s.db (s.blockTrie geth block)) root = some accounts)
    {count : Nat} (behind : (s.blockTrie geth block).length ≤ count) :
    geth.openState (s.stoppedAt geth block count) root = some accounts := by
  have taken : (s.blockWrites geth block).take count =
      s.blockTrie geth block ++ writes.take (count - (s.blockTrie geth block).length) := by
    rw [issued, List.take_append, List.take_of_length_le behind]
  unfold State.stoppedAt
  rw [taken]
  exact trie.open_keeps _ _ _ _ reopens (OneValue.keeps s.db _ _ (taken ▸ one.take count))

/-- The root a block answers is the one of the account state its commit is handed. -/
theorem blockRoot_eq (pool : geth.PoolLaws) (codec : geth.CodecLaws) (trie : geth.TrieLaws)
    (fresh : s.was = .fresh s.statedb) {root : Hash} (accepted : (s.processBlock geth block).2 = .ok root) :
    s.blockRoot geth block = root := by
  obtain ⟨steps, folded⟩ := (processBlock_accepted_iff pool codec trie fresh).mp ⟨root, accepted⟩
  rw [State.blockRoot, (applyBlock_steps geth block fresh).2 steps folded, State.blockWas,
    takeSteps_accounts]
  rw [processBlock_steps pool codec trie fresh folded] at accepted
  exact Outcome.ok.inj accepted

/-- **A commit is crash-consistent exactly when the receipts follow the head**: at a stop between
these two the property holds only by a receipt that was there before. -/
theorem crash_consistent_iff {blank : World} (pool : geth.PoolLaws) (codec : geth.CodecLaws)
    (trie : geth.TrieLaws) (roots : geth.RootLaws blank) (opened : newState geth s.db = .ok s)
    {root : Hash} (filled : block.transactions ≠ [])
    (accepted : (s.processBlock geth block).2 = .ok root)
    (one : OneValue s.db ((s.blockWrites geth block).flatMap Write.records))
    (reopens : geth.openState (Store.writes s.db (s.blockTrie geth block)) root =
      some (s.processBlock geth block).1.statedb.accounts) (count : Nat) :
    CrashConsistent geth s block count ↔
      HeadFollowed geth s block count ∨
        PostedBefore geth blank s block (geth.root s.statedb.accounts) ∨
        PostedBefore geth blank s block (s.blockRoot geth block) ∧
          RecordedBefore geth s block count := by
  have fresh := (newState_fresh opened).2
  obtain ⟨steps, folded⟩ := (processBlock_accepted_iff pool codec trie fresh).mp ⟨root, accepted⟩
  obtain ⟨before, last, rfl, final⟩ := steps_last filled folded
  by_cases followed : HeadFollowed geth s block count
  · refine iff_of_true ?_ (Or.inl followed)
    rcases followed with early | late
    · exact ⟨_, stopped_early pool codec trie opened folded one early, Or.inl rfl⟩
    · obtain ⟨finished, recovered, found, same⟩ :=
        stopped_late pool codec trie fresh filled accepted one reopens late
      refine ⟨recovered, found, Or.inr ⟨by rw [same, accepted], ?_⟩⟩
      intro txBytes member t decoded
      rw [finished]
      exact processBlock_readBack pool codec trie fresh folded member decoded
  · have headed := between_headRoot pool codec trie fresh folded followed
    rw [or_iff_right followed]
    unfold CrashConsistent
    rw [stopped_readBack pool codec trie fresh folded one followed, accepted,
      blockRoot_eq pool codec trie fresh accepted]
    constructor
    · rintro ⟨recovered, found, state⟩
      obtain ⟨posted, accounts, led, opens, rfl⟩ := newState_some found
      have leads : ∀ leading, geth.root accounts = leading →
          PostedBefore geth blank s block leading := fun leading same =>
        ⟨last.t, posted, final, headed.symm.trans led, (roots.root_opened opens).symm.trans same⟩
      rcases state with old | ⟨new, recorded⟩
      · exact Or.inl (leads _ old)
      · exact Or.inr ⟨leads _ (Outcome.ok.inj new).symm, recorded⟩
    · rintro (⟨t, posted, same, led, leads⟩ | ⟨⟨t, posted, same, led, leads⟩, recorded⟩)
      · obtain rfl : last.t = t := Option.some.inj (final.symm.trans same)
        obtain ⟨accounts, opens, rooted⟩ := roots.reached leads
          (stopped_old trie roots opened one count)
        exact ⟨_, newState_ok (headed.trans led) opens, Or.inl rooted⟩
      · obtain rfl : last.t = t := Option.some.inj (final.symm.trans same)
        have behind : (s.blockTrie geth block).length ≤ count := by
          unfold HeadFollowed at followed
          omega
        have settles := settled pool codec trie fresh folded
        obtain rfl : root = geth.root (s.processBlock geth block).1.statedb.accounts :=
          Outcome.ok.inj (accepted.symm.trans settles.root)
        obtain ⟨accounts, opens, rooted⟩ := roots.reached leads
          (stopped_new trie (blockWrites_eq pool codec trie fresh folded) one reopens behind)
        exact ⟨_, newState_ok (headed.trans led) opens, Or.inr ⟨congrArg _ rooted.symm, recorded⟩⟩

end Stops

/-! ### Stops of the small chain -/

namespace Sample

/-- The root the block answers. -/
def tipRoot : Hash := root (blank.processBlock Sample.geth tip).1.statedb.accounts

theorem tip_accepted : (blank.processBlock Sample.geth tip).2 = .ok tipRoot := by decide +kernel

/-- Behind the trie record and the head, and before the batches. -/
theorem tip_not_consistent : newState Sample.geth blank.db = .ok blank ∧
    (blank.processBlock Sample.geth tip).2 = .ok tipRoot ∧
      ¬ CrashConsistent Sample.geth blank tip 2 := by
  refine ⟨newState_empty, tip_accepted, ?_⟩
  rintro ⟨recovered, found, -⟩
  have stopped : (newState Sample.geth (blank.stoppedAt Sample.geth tip 2)).isOk = false := by
    decide +kernel
  rw [found] at stopped
  cases stopped

theorem tip_consistent :
    CrashConsistent Sample.geth blank tip 1 ∧ CrashConsistent Sample.geth blank tip 4 :=
  have consistent := crash_consistent_iff poolLaws
    codecLaws trieLaws rootLaws newState_empty (by decide) tip_accepted (by decide +kernel)
    (by decide +kernel)
  ⟨(consistent 1).mpr (Or.inl (by decide +kernel)), (consistent 4).mpr (Or.inl (by decide +kernel))⟩

end Sample

end EvmBabble
