/-
What a commit stores.

When every transaction and every receipt of a write-ahead state can be encoded, its commit issues the
trie records, the head, and the two batches; `Encodes` is that condition, and `Encodable` what makes
it hold. The keys of the four groups are apart from each other by their lengths, so each record can be
looked up by itself.

* `commit_encodes`, `commit_ok_encodes` — the writes and the root of such a commit, and that every
  commit that succeeds is one.
* `commit_head`, `commit_transaction`, `commit_receipt`, `commit_receipt_other` — what the database
  holds afterwards.
-/

import EvmBabble.State.Steps

namespace EvmBabble

open Library

variable {World : Type} {geth : Geth World}

/-- Encoding every element of a list. -/
theorem mapM_some {α β : Type} {f : α → Option β} {g : α → β} {list : List α}
    (each : ∀ x ∈ list, f x = some (g x)) : list.mapM f = some (list.map g) := by
  induction list with
  | nil => rfl
  | cons x xs ih =>
    rw [List.mapM_cons, each x List.mem_cons_self,
      ih fun y member => each y (List.mem_cons_of_mem _ member)]
    rfl

/-- An encoded list has encoded every element. -/
theorem mapM_each {α β : Type} {f : α → Option β} {list : List α} {found : List β}
    (mapped : list.mapM f = some found) : ∀ x ∈ list, ∃ y, f x = some y := by
  induction list generalizing found with
  | nil => exact fun x member => absurd member List.not_mem_nil
  | cons first rest ih =>
    rw [List.mapM_cons] at mapped
    obtain ⟨y, here, later⟩ := Option.bind_eq_some_iff.mp mapped
    obtain ⟨ys, there, -⟩ := Option.bind_eq_some_iff.mp later
    exact List.forall_mem_cons.mpr ⟨⟨y, here⟩, ih there⟩

/-- What an encoded list holds comes from its elements. -/
theorem mapM_mem {α β : Type} {f : α → Option β} {list : List α} {found : List β}
    (mapped : list.mapM f = some found) {y : β} (inside : y ∈ found) : ∃ x ∈ list, f x = some y := by
  induction list generalizing found with
  | nil =>
    cases mapped
    cases inside
  | cons first rest ih =>
    rw [List.mapM_cons] at mapped
    obtain ⟨head, here, later⟩ := Option.bind_eq_some_iff.mp mapped
    obtain ⟨tail, there, same⟩ := Option.bind_eq_some_iff.mp later
    cases same
    rcases List.mem_cons.mp inside with rfl | listed
    · exact ⟨first, List.mem_cons_self, here⟩
    · obtain ⟨x, member, encoded⟩ := ih there listed
      exact ⟨x, List.mem_cons_of_mem _ member, encoded⟩

/-- The canonical bytes of a transaction. -/
def Geth.canonical (geth : Geth World) (t : Transaction) : Bytes := (geth.rlpEncode t).getD []

/-- The bytes a receipt is stored as. -/
def Geth.receiptData (geth : Geth World) (receipt : Receipt) : Bytes :=
  (geth.rlpEncodeReceipt receipt).getD []

/-- A receipt that can be encoded, with a root in its status slot. -/
structure Receipt.Storable (receipt : Receipt) : Prop where
  cumulative : 0 ≤ receipt.cumulativeGasUsed
  used : 0 ≤ receipt.gasUsed
  postState : receipt.postState.length = 32

/-- A write-ahead state whose transactions and receipts can be encoded. -/
structure WriteAheadState.Encodable (geth : Geth World) (was : WriteAheadState World) : Prop where
  transactions : ∀ t ∈ was.transactions, geth.rlpEncode t = some (geth.canonical t)
  receipts : ∀ receipt ∈ was.receipts, receipt.Storable

/-- A write-ahead state of which everything is encoded. -/
structure WriteAheadState.Encodes (geth : Geth World) (was : WriteAheadState World) : Prop where
  transactions : ∀ t ∈ was.transactions, geth.rlpEncode t = some (geth.canonical t)
  receipts : ∀ receipt ∈ was.receipts,
    geth.rlpEncodeReceipt receipt = some (geth.receiptData receipt)

/-- A stored receipt is read back. -/
theorem receiptData_read (codec : geth.CodecLaws) {receipt : Receipt} (storable : receipt.Storable) :
    geth.rlpEncodeReceipt receipt = some (geth.receiptData receipt) ∧
      geth.rlpDecodeReceipt (geth.receiptData receipt) = some (Geth.stored receipt) := by
  obtain ⟨data, encoded, read⟩ :=
    codec.receipt receipt storable.cumulative storable.used storable.postState
  rw [Geth.receiptData, encoded]
  exact ⟨rfl, read⟩

theorem stored_eq {receipt : Receipt} (storable : receipt.Storable) :
    Geth.stored receipt = { receipt with failed := false } := by
  refine if_neg fun blank => ?_
  have short := storable.postState
  rw [blank] at short
  cases short

/-- A transaction that was decoded has canonical bytes, which decode to it again. -/
theorem canonical_read (codec : geth.CodecLaws) {data : Bytes} {t : Transaction}
    (decoded : geth.rlpDecode data = some t) :
    geth.rlpEncode t = some (geth.canonical t) ∧ geth.rlpDecodeBytes (geth.canonical t) = some t := by
  obtain ⟨-, -, -, canonical, encoded, read⟩ := codec.decoded data t decoded
  rw [Geth.canonical, encoded]
  exact ⟨rfl, read⟩

/-- A transaction key that holds the bytes of a transaction that was decoded. -/
theorem getTransaction_stored (codec : geth.CodecLaws) {data : Bytes} {t : Transaction}
    (decoded : geth.rlpDecode data = some t) {db : Database} {hash : Hash}
    (found : db (transactionKey hash) = some (geth.canonical t)) :
    getTransaction geth db hash = .ok t := by
  unfold getTransaction
  rw [found]
  dsimp only
  rw [(canonical_read codec decoded).2]

/-- A receipt in the database is read whatever else the database holds. -/
theorem getReceipt_congr {db later : Database} {hash : Hash}
    (same : later (receiptKey hash) = db (receiptKey hash)) :
    getReceipt geth later hash = getReceipt geth db hash := by
  unfold getReceipt
  rw [same]

/-- A receipt key that holds a storable receipt's bytes. -/
theorem getReceipt_stored (codec : geth.CodecLaws) {receipt : Receipt} (storable : receipt.Storable)
    {db : Database} (found : db (receiptKey receipt.txHash) = some (geth.receiptData receipt)) :
    getReceipt geth db receipt.txHash = .ok { receipt with failed := false } := by
  unfold getReceipt
  rw [found]
  dsimp only
  rw [(receiptData_read codec storable).2, stored_eq storable]

section Commits

variable {was : WriteAheadState World} {db : Database}

/-- The trie records of a commit. -/
def WriteAheadState.trie (geth : Geth World) (was : WriteAheadState World) (db : Database) :
    List (Write Bytes Bytes) :=
  (geth.trieRecords db (geth.finalise was.ethState.accounts)).map fun record =>
    .put record.1 record.2

/-- The transaction batch of an encodable write-ahead state. -/
def WriteAheadState.transactionBatch (geth : Geth World) (was : WriteAheadState World) :
    List (Bytes × Bytes) :=
  was.transactions.map fun t => (transactionKey (geth.txHash t), geth.canonical t)

/-- The receipt batch of an encodable write-ahead state. -/
def WriteAheadState.receiptBatch (geth : Geth World) (was : WriteAheadState World) :
    List (Bytes × Bytes) :=
  was.receipts.map fun receipt => (receiptKey receipt.txHash, geth.receiptData receipt)

theorem WriteAheadState.Encodable.encodes (codec : geth.CodecLaws) (encodable : was.Encodable geth) :
    was.Encodes geth :=
  ⟨encodable.transactions, fun receipt member =>
    (receiptData_read codec (encodable.receipts receipt member)).1⟩

theorem commit_encodes (encodes : was.Encodes geth) :
    was.commit geth db =
      { writes := was.trie geth db ++ [was.writeHead geth, .batch (was.transactionBatch geth),
          .batch (was.receiptBatch geth)]
        ethState := { was.ethState with accounts := geth.finalise was.ethState.accounts }
        outcome := .ok (geth.root (geth.finalise was.ethState.accounts)) } := by
  have transactions : was.transactionRecords geth = some (was.transactionBatch geth) :=
    mapM_some fun t member => by rw [encodes.transactions t member, Option.map_some]
  have receipts : was.receiptRecords geth = some (was.receiptBatch geth) :=
    mapM_some fun receipt member => by rw [encodes.receipts receipt member, Option.map_some]
  unfold WriteAheadState.commit
  rw [transactions, receipts]
  rfl

theorem commit_encodable (codec : geth.CodecLaws) (encodable : was.Encodable geth) :
    was.commit geth db =
      { writes := was.trie geth db ++ [was.writeHead geth, .batch (was.transactionBatch geth),
          .batch (was.receiptBatch geth)]
        ethState := { was.ethState with accounts := geth.finalise was.ethState.accounts }
        outcome := .ok (geth.root (geth.finalise was.ethState.accounts)) } :=
  commit_encodes (encodable.encodes codec)

/-- A commit that succeeds has encoded everything. -/
theorem commit_ok_encodes {root : Hash} (done : (was.commit geth db).outcome = .ok root) :
    was.Encodes geth := by
  unfold WriteAheadState.commit at done
  dsimp only at done
  split at done
  · cases done
  · next transactions encodedTransactions =>
    split at done
    · cases done
    · next receipts encodedReceipts =>
      constructor
      · intro t member
        obtain ⟨record, found⟩ := mapM_each encodedTransactions t member
        obtain ⟨data, encoded, -⟩ := Option.map_eq_some_iff.mp found
        rw [Geth.canonical, encoded, Option.getD_some]
      · intro receipt member
        obtain ⟨record, found⟩ := mapM_each encodedReceipts receipt member
        obtain ⟨data, encoded, -⟩ := Option.map_eq_some_iff.mp found
        rw [Geth.receiptData, encoded, Option.getD_some]

/-- The database after the commit of a write-ahead state of which everything is encoded. -/
def WriteAheadState.stored (geth : Geth World) (was : WriteAheadState World) (db : Database) :
    Database :=
  ((Store.writes db (was.trie geth db)).putAll
    ((headTxKey, (geth.txHash was.head).bytes) :: was.transactionBatch geth)).putAll
      (was.receiptBatch geth)

/-- What is stored comes of the accounts, the transactions and the receipts only. -/
theorem stored_congr {other : WriteAheadState World}
    (accounts : other.ethState.accounts = was.ethState.accounts)
    (transactions : other.transactions = was.transactions)
    (receipts : other.receipts = was.receipts) : other.stored geth db = was.stored geth db := by
  unfold WriteAheadState.stored WriteAheadState.trie WriteAheadState.transactionBatch
    WriteAheadState.receiptBatch WriteAheadState.head
  rw [accounts, transactions, receipts]

theorem commit_stored (encodes : was.Encodes geth) :
    Store.writes db (was.commit geth db).writes = was.stored geth db := by
  rw [commit_encodes encodes, Store.writes_append, WriteAheadState.writeHead,
    Store.writes_put, Store.writes_batch, Store.writes_batch]
  rfl

theorem commit_writes (codec : geth.CodecLaws) (encodable : was.Encodable geth) :
    Store.writes db (was.commit geth db).writes = was.stored geth db :=
  commit_stored (encodable.encodes codec)

theorem trie_other (laws : geth.TrieLaws) {key : Bytes} (apart : key.length ≠ 32 ∧ key.length ≠ 43) :
    ∀ write ∈ was.trie geth db, ∀ record ∈ write.records, record.1 ≠ key := by
  intro write member record inside
  obtain ⟨found, listed, rfl⟩ := List.mem_map.mp member
  obtain rfl := List.mem_singleton.mp inside
  rintro rfl
  rcases laws.trie_key _ _ _ listed with short | long
  · exact apart.1 short
  · exact apart.2 long

theorem transactionBatch_key {record : Bytes × Bytes} (member : record ∈ was.transactionBatch geth) :
    ∃ t ∈ was.transactions, record = (transactionKey (geth.txHash t), geth.canonical t) := by
  obtain ⟨t, inside, rfl⟩ := List.mem_map.mp member
  exact ⟨t, inside, rfl⟩

theorem receiptBatch_key {record : Bytes × Bytes} (member : record ∈ was.receiptBatch geth) :
    ∃ receipt ∈ was.receipts, record = (receiptKey receipt.txHash, geth.receiptData receipt) := by
  obtain ⟨receipt, inside, rfl⟩ := List.mem_map.mp member
  exact ⟨receipt, inside, rfl⟩

theorem commit_head : was.stored geth db headTxKey = some (geth.txHash was.head).bytes := by
  unfold WriteAheadState.stored
  rw [Store.putAll_other _ (was.receiptBatch geth) headTxKey fun record member same => by
    obtain ⟨receipt, -, rfl⟩ := receiptBatch_key member
    exact receiptKey_ne_head _ same]
  refine Store.putAll_last _ [] _ _ _ fun record member same => ?_
  obtain ⟨t, -, rfl⟩ := transactionBatch_key member
  exact transactionKey_ne_head _ same

/-- A transaction whose hash no later one of the batch has. -/
theorem commit_transaction {before after : List Transaction} {t : Transaction}
    (inside : was.transactions = before ++ t :: after)
    (last : ∀ later ∈ after, geth.txHash later ≠ geth.txHash t) :
    was.stored geth db (transactionKey (geth.txHash t)) = some (geth.canonical t) := by
  unfold WriteAheadState.stored WriteAheadState.transactionBatch
  rw [Store.putAll_other _ (was.receiptBatch geth) _ fun record member same => by
    obtain ⟨receipt, -, rfl⟩ := receiptBatch_key member
    exact receiptKey_ne_transactionKey _ _ same]
  rw [inside, List.map_append, List.map_cons, ← List.cons_append]
  refine Store.putAll_last _ _ _ _ _ fun record member same => ?_
  obtain ⟨later, listed, rfl⟩ := List.mem_map.mp member
  exact last later listed (transactionKey_injective same)

/-- A receipt whose hash no later one of the batch has. -/
theorem commit_receipt {before after : List Receipt} {receipt : Receipt}
    (inside : was.receipts = before ++ receipt :: after)
    (last : ∀ later ∈ after, later.txHash ≠ receipt.txHash) :
    was.stored geth db (receiptKey receipt.txHash) = some (geth.receiptData receipt) := by
  unfold WriteAheadState.stored WriteAheadState.receiptBatch
  rw [inside, List.map_append, List.map_cons]
  refine Store.putAll_last _ _ _ _ _ fun record member same => ?_
  obtain ⟨later, listed, rfl⟩ := List.mem_map.mp member
  exact last later listed (receiptKey_injective same)

/-- A receipt key that the batch does not name. -/
theorem commit_receipt_other (laws : geth.TrieLaws) {hash : Hash}
    (other : ∀ receipt ∈ was.receipts, receipt.txHash ≠ hash) :
    was.stored geth db (receiptKey hash) = db (receiptKey hash) := by
  unfold WriteAheadState.stored
  rw [Store.putAll_other _ (was.receiptBatch geth) _ fun record member same => by
    obtain ⟨receipt, listed, rfl⟩ := receiptBatch_key member
    exact other receipt listed (receiptKey_injective same)]
  rw [Store.putAll_other _ _ _ fun record member same => by
    rcases List.mem_cons.mp member with rfl | listed
    · exact receiptKey_ne_head hash same.symm
    · obtain ⟨t, -, rfl⟩ := transactionBatch_key listed
      exact receiptKey_ne_transactionKey _ _ same.symm]
  exact Store.writes_other _ _ _ (trie_other laws ⟨by rw [receiptKey_length]; decide,
    by rw [receiptKey_length]; decide⟩)

/-- The keys a commit writes, whether it succeeds or not. -/
theorem commit_key {write : Write Bytes Bytes} (issued : write ∈ (was.commit geth db).writes)
    {record : Bytes × Bytes} (inside : record ∈ write.records) :
    write ∈ was.trie geth db ∨ record.1 = headTxKey ∨
      (∃ t ∈ was.transactions, record.1 = transactionKey (geth.txHash t)) ∨
      ∃ receipt ∈ was.receipts, record.1 = receiptKey receipt.txHash := by
  have head : write = was.writeHead geth → record.1 = headTxKey := by
    rintro rfl
    exact congrArg Prod.fst (List.mem_singleton.mp inside)
  have batched : ∀ {transactions}, was.transactionRecords geth = some transactions →
      write = .batch transactions → ∃ t ∈ was.transactions, record.1 = transactionKey (geth.txHash t) := by
    rintro transactions encoded rfl
    obtain ⟨t, member, same⟩ := mapM_mem encoded inside
    obtain ⟨data, -, rfl⟩ := Option.map_eq_some_iff.mp same
    exact ⟨t, member, rfl⟩
  have posted : ∀ {receipts}, was.receiptRecords geth = some receipts →
      write = .batch receipts → ∃ receipt ∈ was.receipts, record.1 = receiptKey receipt.txHash := by
    rintro receipts encoded rfl
    obtain ⟨receipt, member, same⟩ := mapM_mem encoded inside
    obtain ⟨data, -, rfl⟩ := Option.map_eq_some_iff.mp same
    exact ⟨receipt, member, rfl⟩
  unfold WriteAheadState.commit at issued
  dsimp only at issued
  split at issued
  · rcases List.mem_append.mp issued with trie | rest
    · exact Or.inl trie
    · exact Or.inr (Or.inl (head (List.mem_singleton.mp rest)))
  · next transactions encoded =>
    split at issued
    · rcases List.mem_append.mp issued with trie | rest
      · exact Or.inl trie
      · rcases List.mem_cons.mp rest with first | second
        · exact Or.inr (Or.inl (head first))
        · exact Or.inr (Or.inr (Or.inl (batched encoded (List.mem_singleton.mp second))))
    · next receipts encodedReceipts =>
      rcases List.mem_append.mp issued with trie | rest
      · exact Or.inl trie
      · rcases List.mem_cons.mp rest with first | second
        · exact Or.inr (Or.inl (head first))
        · rcases List.mem_cons.mp second with second | third
          · exact Or.inr (Or.inr (Or.inl (batched encoded second)))
          · exact Or.inr (Or.inr (Or.inr (posted encodedReceipts (List.mem_singleton.mp third))))

/-- A receipt key that no receipt of the write-ahead state has is left alone. -/
theorem commit_receipt_kept (laws : geth.TrieLaws) {hash : Hash}
    (other : ∀ receipt ∈ was.receipts, receipt.txHash ≠ hash) :
    Store.writes db (was.commit geth db).writes (receiptKey hash) = db (receiptKey hash) := by
  refine Store.writes_other _ _ _ fun write issued record inside same => ?_
  rcases commit_key issued inside with trie | head | ⟨t, -, key⟩ | ⟨receipt, member, key⟩
  · have length := receiptKey_length hash
    exact trie_other laws (by rw [length]; decide) write trie record inside same
  · exact receiptKey_ne_head hash (same.symm.trans head)
  · exact receiptKey_ne_transactionKey hash _ (same.symm.trans key)
  · exact other receipt member (receiptKey_injective (key.symm.trans same))

end Commits

end EvmBabble
