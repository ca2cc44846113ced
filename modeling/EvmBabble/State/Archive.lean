/-
The transactions and receipts a node finds.

A transaction is stored under its bare hash, where the state trie stores its nodes and the code of the
contracts under theirs; a receipt has a prefix of its own. So the bytes of a transaction that somebody
deploys as code are found under its hash though it was never applied, and a transaction whose sender's
account was destroyed can be applied again, with another receipt.

* `brought_stored`, `found_source`, `receipt_found` — what an accepted operation stores, and where what is
  found comes from.
* `archive_run` — what the database holds after accepted operations, by induction on them.
* `store_holds_committed` — every applied transaction is found with a receipt; a receipt is found for
  no other hash, and a transaction only where the state trie wrote its bytes.
-/

import EvmBabble.State.Crash
import Mathlib.Data.List.Induction

namespace EvmBabble

open Library

variable {World : Type} (geth : Geth World)

/-! ### Operations and their records -/

/-- The write-ahead state that an accepted operation commits. -/
def State.writing (s : State World) : Operation → WriteAheadState World
  | .createAccounts accounts =>
    (s.withAccounts (createAccountsLoop geth s.was.ethState.accounts accounts).1).was
  | .processBlock block => (s.applyBlock geth block).1

/-- The writes of that commit. -/
def State.issued (s : State World) (operation : Operation) : List (Write Bytes Bytes) :=
  ((s.writing geth operation).commit geth s.db).writes

/-- The trie nodes and the code among its records. -/
def State.nodes (s : State World) (operation : Operation) : List (Bytes × Bytes) :=
  geth.trieRecords s.db (geth.finalise (s.writing geth operation).ethState.accounts)

/-- An accepted operation whose records under 32-byte keys repeat each other and what is there. -/
def Archives (s : State World) (operation : Operation) : Prop :=
  Accepts geth s operation ∧ OneValue s.db ((s.issued geth operation).flatMap Write.records)

instance (s : State World) (operation : Operation) : Decidable (Archives geth s operation) :=
  inferInstanceAs (Decidable (_ ∧ _))

/-- A transaction that an operation brings. -/
def Operation.Brings (t : Transaction) : Operation → Prop
  | .createAccounts _ => False
  | .processBlock block => ∃ txBytes ∈ block.transactions, geth.rlpDecode txBytes = some t

/-- A transaction that was applied in some accepted operations. -/
def Delivered (operations : List Operation) (t : Transaction) : Prop :=
  ∃ operation ∈ operations, operation.Brings geth t

/-- Bytes that a commit of a run wrote as a trie node or as code. -/
def Planted (s : State World) (operations : List Operation) (hash : Hash) (data : Bytes) : Prop :=
  ∃ before operation after, operations = before ++ operation :: after ∧
    (hash.bytes, data) ∈ (run (State.operate geth) s before).1.nodes geth operation

section Operations

variable {geth} {s : State World} {operation : Operation}

/-- An accepted operation is the commit of what it writes. -/
theorem operate_commit (accepted : Accepts geth s operation) :
    s.operate geth operation = State.commit geth { s with was := s.writing geth operation } := by
  obtain ⟨root, done⟩ := Outcome.isOk_iff.mp accepted
  cases operation with
  | createAccounts accounts =>
    obtain ⟨created, ran⟩ := State.createAccounts_accepted done
    show s.createAccounts geth accounts = _
    rw [State.createAccounts_ran ran, State.writing, ran]
    rfl
  | processBlock block =>
    obtain ⟨was, applied, same⟩ := State.processBlock_accepted done
    show s.processBlock geth block = _
    rw [same, State.writing, applied]

/-- **What an accepted operation writes**: it can be encoded, it holds the transactions that are brought,
and a receipt for each. -/
theorem writing_records (pool : geth.PoolLaws) (codec : geth.CodecLaws) (trie : geth.TrieLaws)
    (fresh : s.was = .fresh s.statedb) (accepted : Accepts geth s operation) :
    (s.writing geth operation).Encodable geth ∧
      (∀ t, t ∈ (s.writing geth operation).transactions ↔ operation.Brings geth t) ∧
      (s.writing geth operation).receipts.map Receipt.txHash =
        (s.writing geth operation).transactions.map geth.txHash := by
  obtain ⟨root, done⟩ := Outcome.isOk_iff.mp accepted
  cases operation with
  | createAccounts accounts =>
    have transactions : (s.writing geth (.createAccounts accounts)).transactions = [] := by
      show s.was.transactions = []
      rw [fresh]
      rfl
    have receipts : (s.writing geth (.createAccounts accounts)).receipts = [] := by
      show s.was.receipts = []
      rw [fresh]
      rfl
    refine ⟨⟨?_, ?_⟩, fun t => ?_, ?_⟩
    · rw [transactions]
      exact List.forall_mem_nil _
    · rw [receipts]
      exact List.forall_mem_nil _
    · rw [transactions]
      exact iff_of_false List.not_mem_nil id
    · rw [transactions, receipts]
      rfl
  | processBlock block =>
    obtain ⟨steps, folded⟩ := (processBlock_accepted_iff pool codec trie fresh).mp ⟨root, done⟩
    have was : s.writing geth (.processBlock block) = s.blockWas geth block steps :=
      (applyBlock_steps geth block fresh).2 steps folded
    have transactions : (s.blockWas geth block steps).transactions = steps.map TxStep.t :=
      takeSteps_transactions _ 0 steps
    rw [was]
    refine ⟨takeSteps_encodable codec s.statedb 0 (txSteps_sound pool codec trie folded),
      fun t => ?_, ?_⟩
    · rw [transactions]
      have reads := txSteps_reads folded
      constructor
      · intro member
        obtain ⟨step, inside, rfl⟩ := List.mem_map.mp member
        have listed : Except.ok (step.t, step.message) ∈ block.transactions.map geth.readMessage :=
          reads ▸ List.mem_map_of_mem inside
        obtain ⟨txBytes, brought, read⟩ := List.mem_map.mp listed
        exact ⟨txBytes, brought, (readMessage_ok read).1⟩
      · rintro ⟨txBytes, brought, decoded⟩
        have listed := List.mem_map_of_mem (f := geth.readMessage) brought
        rw [reads] at listed
        obtain ⟨step, inside, read⟩ := List.mem_map.mp listed
        have same := Option.some.inj ((readMessage_ok read.symm).1.symm.trans decoded)
        exact List.mem_map.mpr ⟨step, inside, same⟩
    · rw [transactions, List.map_map, State.blockWas, takeSteps_receipts]
      exact made_hashes geth (.ofBytes 32 block.hash) (.fresh s.statedb) 0 steps

/-- The database after an accepted operation: the records it issued, one after another. -/
theorem operate_db (accepted : Accepts geth s operation) :
    (s.operate geth operation).1.db = Store.writes s.db (s.issued geth operation) := by
  rw [operate_commit accepted, State.commit_db]
  rfl

theorem operate_fresh (accepted : Accepts geth s operation) :
    (s.operate geth operation).1.was = .fresh (s.operate geth operation).1.statedb := by
  obtain ⟨root, done⟩ := Outcome.isOk_iff.mp accepted
  rw [operate_commit accepted] at done ⊢
  exact State.commit_fresh done

/-- Records under 32-byte keys survive an operation. -/
theorem operate_keeps (archives : Archives geth s operation) :
    Store.Keeps (fun key : Bytes => key.length = 32) s.db (s.operate geth operation).1.db := by
  rw [operate_db archives.1]
  exact OneValue.keeps s.db [] (s.issued geth operation) archives.2

section Stored

variable (pool : geth.PoolLaws) (codec : geth.CodecLaws) (trie : geth.TrieLaws)
  (fresh : s.was = .fresh s.statedb) (archives : Archives geth s operation)
include pool codec trie fresh archives

/-- A transaction that is brought is stored. -/
theorem brought_stored {t : Transaction} (brings : operation.Brings geth t) :
    (s.operate geth operation).1.db (transactionKey (geth.txHash t)) = some (geth.canonical t) := by
  obtain ⟨encodable, transactions, -⟩ := writing_records pool codec trie fresh archives.1
  rw [operate_db archives.1]
  have member : (transactionKey (geth.txHash t), geth.canonical t) ∈
      (s.issued geth operation).flatMap Write.records := by
    rw [State.issued, commit_encodable codec encodable]
    refine List.mem_flatMap.mpr ⟨.batch ((s.writing geth operation).transactionBatch geth), by simp, ?_⟩
    exact List.mem_map_of_mem (f := fun t => (transactionKey (geth.txHash t), geth.canonical t))
      ((transactions t).mpr brings)
  exact Store.putAll_agreed member
    (archives.2 _ member (transactionKey_length _)).2

/-- What is found under a transaction key was there, or is of a transaction that is brought, or of the
state trie. -/
theorem found_source {hash : Hash} {data : Bytes}
    (found : (s.operate geth operation).1.db (transactionKey hash) = some data) :
    s.db (transactionKey hash) = some data ∨ (∃ t, operation.Brings geth t ∧ geth.txHash t = hash) ∨
      (hash.bytes, data) ∈ s.nodes geth operation := by
  obtain ⟨-, transactions, -⟩ := writing_records pool codec trie fresh archives.1
  rw [operate_db archives.1] at found
  rcases Store.writes_some found with old | ⟨write, issued, inside⟩
  · exact Or.inl old
  rcases commit_key issued inside with node | head | ⟨t, member, key⟩ | ⟨receipt, -, key⟩
  · obtain ⟨record, listed, rfl⟩ := List.mem_map.mp node
    obtain rfl : (transactionKey hash, data) = record := List.mem_singleton.mp inside
    exact Or.inr (Or.inr listed)
  · exact absurd head (transactionKey_ne_head hash)
  · exact Or.inr (Or.inl ⟨t, (transactions t).mp member, (transactionKey_injective key).symm⟩)
  · exact absurd key.symm (receiptKey_ne_transactionKey _ hash)

/-- A receipt is found after an operation when it brings a transaction of the hash or there was one. -/
theorem receipt_found (hash : Hash) :
    (∃ receipt, getReceipt geth (s.operate geth operation).1.db hash = .ok receipt) ↔
      (∃ receipt, getReceipt geth s.db hash = .ok receipt) ∨
        ∃ t, operation.Brings geth t ∧ geth.txHash t = hash := by
  obtain ⟨encodable, transactions, hashes⟩ := writing_records pool codec trie fresh archives.1
  have brought : (∃ t, operation.Brings geth t ∧ geth.txHash t = hash) ↔
      ∃ receipt ∈ (s.writing geth operation).receipts, receipt.txHash = hash := by
    rw [← List.mem_map, hashes, List.mem_map]
    exact exists_congr fun t => and_congr_left fun _ => (transactions t).symm
  rw [brought]
  by_cases posted : ∃ receipt ∈ (s.writing geth operation).receipts, receipt.txHash = hash
  · refine iff_of_true ?_ (Or.inr posted)
    obtain ⟨before, last, after, listed, rfl, final⟩ := Store.exists_last _ posted
    have stored : (s.writing geth operation).stored geth s.db (receiptKey last.txHash) =
        some (geth.receiptData last) := commit_receipt listed final
    rw [operate_db archives.1, State.issued, commit_writes codec encodable]
    exact ⟨_, getReceipt_stored codec (encodable.receipts last
      (listed ▸ List.mem_append_right _ List.mem_cons_self)) stored⟩
  · have kept : getReceipt geth (s.operate geth operation).1.db hash = getReceipt geth s.db hash := by
      refine getReceipt_congr ?_
      rw [operate_db archives.1]
      exact commit_receipt_kept trie fun receipt member same => posted ⟨receipt, member, same⟩
    rw [kept]
    exact (or_iff_left posted).symm

/-- A receipt of a hash that the operation does not bring stays as it is. -/
theorem receipt_stays {hash : Hash} (other : ∀ t, operation.Brings geth t → geth.txHash t ≠ hash) :
    getReceipt geth (s.operate geth operation).1.db hash = getReceipt geth s.db hash := by
  obtain ⟨-, transactions, hashes⟩ := writing_records pool codec trie fresh archives.1
  refine getReceipt_congr ?_
  rw [operate_db archives.1]
  refine commit_receipt_kept trie fun receipt member same => ?_
  have listed := List.mem_map_of_mem (f := Receipt.txHash) member
  rw [hashes] at listed
  obtain ⟨t, inside, here⟩ := List.mem_map.mp listed
  exact other t ((transactions t).mp inside) (here.trans same)

end Stored

end Operations

/-! ### The property -/

/-- A transaction is found under a hash exactly when it has that hash and was applied. -/
def FindsExactly (s : State World) (operations : List Operation) : Prop :=
  ∀ hash t, getTransaction geth (run (State.operate geth) s operations).1.db hash = .ok t ↔
    Delivered geth operations t ∧ geth.txHash t = hash

/-- A receipt is found under a hash exactly when a transaction with that hash was applied. -/
def PostsExactly (s : State World) (operations : List Operation) : Prop :=
  ∀ hash, (∃ receipt, getReceipt geth (run (State.operate geth) s operations).1.db hash = .ok receipt) ↔
    ∃ t, Delivered geth operations t ∧ geth.txHash t = hash

/-- What is found after some operations is found after later ones too. -/
def AnswersStay (s : State World) (operations later : List Operation) : Prop :=
  ∀ hash,
    (∀ t, getTransaction geth (run (State.operate geth) s operations).1.db hash = .ok t →
      getTransaction geth (run (State.operate geth) s (operations ++ later)).1.db hash = .ok t) ∧
    ∀ receipt, getReceipt geth (run (State.operate geth) s operations).1.db hash = .ok receipt →
      getReceipt geth (run (State.operate geth) s (operations ++ later)).1.db hash = .ok receipt

/-- What the node finds after some operations: the transactions that were applied, each with a receipt,
and besides them only transactions whose bytes the state trie wrote. Later operations change the answer
of a receipt only by applying a transaction of its hash, and of a transaction not at all. -/
structure HoldsCommitted (s : State World) (operations : List Operation) : Prop where
  applied : ∀ t, Delivered geth operations t →
    getTransaction geth (run (State.operate geth) s operations).1.db (geth.txHash t) = .ok t
  found : ∀ hash t, getTransaction geth (run (State.operate geth) s operations).1.db hash = .ok t →
    Delivered geth operations t ∧ geth.txHash t = hash ∨
      ∃ data, Planted geth s operations hash data ∧ geth.rlpDecodeBytes data = some t
  posts : PostsExactly geth s operations
  transactionStays : ∀ later, Along (State.operate geth) (Archives geth) s (operations ++ later) →
    ∀ hash t, getTransaction geth (run (State.operate geth) s operations).1.db hash = .ok t →
      getTransaction geth (run (State.operate geth) s (operations ++ later)).1.db hash = .ok t
  receiptStays : ∀ later, Along (State.operate geth) (Archives geth) s (operations ++ later) →
    ∀ hash, (∀ t, Delivered geth later t → geth.txHash t ≠ hash) →
      getReceipt geth (run (State.operate geth) s (operations ++ later)).1.db hash =
        getReceipt geth (run (State.operate geth) s operations).1.db hash

/-! ### Runs -/

section Runs

variable {geth} {s : State World} {operations : List Operation}

theorem delivered_concat {last : Operation} {t : Transaction} :
    Delivered geth (operations ++ [last]) t ↔ Delivered geth operations t ∨ last.Brings geth t := by
  unfold Delivered
  simp only [List.mem_append, List.mem_singleton, or_and_right, exists_or, exists_eq_left]

theorem planted_concat {last : Operation} {hash : Hash} {data : Bytes} :
    Planted geth s (operations ++ [last]) hash data ↔ Planted geth s operations hash data ∨
      (hash.bytes, data) ∈ (run (State.operate geth) s operations).1.nodes geth last := by
  constructor
  · rintro ⟨before, operation, after, same, node⟩
    rcases List.eq_nil_or_concat after with rfl | ⟨rest, final, rfl⟩
    · obtain ⟨rfl, one⟩ := List.append_inj' same rfl
      rw [List.singleton_inj.mp one]
      exact Or.inr node
    · rw [List.concat_eq_append, ← List.cons_append, ← List.append_assoc] at same
      exact Or.inl ⟨before, operation, rest, (List.append_inj' same rfl).1, node⟩
  · rintro (⟨before, operation, after, rfl, node⟩ | node)
    · exact ⟨before, operation, after ++ [last], by rw [List.append_assoc, List.cons_append], node⟩
    · exact ⟨operations, last, [], rfl, node⟩

/-- The records of a node after a run. -/
structure Archive (geth : Geth World) (s : State World) (operations : List Operation)
    (reached : State World) : Prop where
  fresh : reached.was = .fresh reached.statedb
  transactions : ∀ t, Delivered geth operations t →
    reached.db (transactionKey (geth.txHash t)) = some (geth.canonical t)
  sources : ∀ hash data, reached.db (transactionKey hash) = some data →
    (∃ t, Delivered geth operations t ∧ geth.txHash t = hash) ∨ Planted geth s operations hash data
  receipts : ∀ hash, (∃ receipt, getReceipt geth reached.db hash = .ok receipt) ↔
    ∃ t, Delivered geth operations t ∧ geth.txHash t = hash

/-- **The records of a node after accepted operations**, by induction on them. -/
theorem archive_run (pool : geth.PoolLaws) (codec : geth.CodecLaws) (trie : geth.TrieLaws)
    (opened : newState geth Store.empty = .ok s)
    (archives : Along (State.operate geth) (Archives geth) s operations) :
    Archive geth s operations (run (State.operate geth) s operations).1 := by
  induction operations using List.reverseRecOn with
  | nil =>
    obtain ⟨db, fresh⟩ := newState_fresh opened
    have blank : ∀ hash, s.db hash = none := fun hash => by rw [db]; rfl
    refine ⟨fresh, ?_, ?_, fun hash => iff_of_false ?_ ?_⟩
    · rintro t ⟨operation, member, -⟩
      exact absurd member List.not_mem_nil
    · intro hash data found
      exact absurd ((blank _).symm.trans found) (Option.some_ne_none data).symm
    · rintro ⟨receipt, found⟩
      rw [run_nil, getReceipt, blank] at found
      cases found
    · rintro ⟨t, ⟨operation, member, -⟩, -⟩
      exact absurd member List.not_mem_nil
  | append_singleton before last ih =>
    obtain ⟨earlier, final, -⟩ := along_append _ |>.mp archives
    have held := ih earlier
    rw [run_append]
    show Archive geth s (before ++ [last])
      ((run (State.operate geth) s before).1.operate geth last).1
    generalize reached : (run (State.operate geth) s before).1 = here at held final
    refine ⟨operate_fresh final.1, ?_, ?_, fun hash => ?_⟩
    · intro t delivered
      rcases delivered_concat.mp delivered with old | new
      · exact operate_keeps final _ (transactionKey_length _) _ (held.transactions t old)
      · exact brought_stored pool codec trie held.fresh final new
    · intro hash data found
      rcases found_source pool codec trie held.fresh final found with
        old | ⟨t, brings, named⟩ | node
      · rcases held.sources hash data old with ⟨t, delivered, named⟩ | planted
        · exact Or.inl ⟨t, delivered_concat.mpr (Or.inl delivered), named⟩
        · exact Or.inr (planted_concat.mpr (Or.inl planted))
      · exact Or.inl ⟨t, delivered_concat.mpr (Or.inr brings), named⟩
      · exact Or.inr (planted_concat.mpr (Or.inr (by rw [reached]; exact node)))
    · rw [receipt_found pool codec trie held.fresh final hash, held.receipts]
      simp only [delivered_concat, or_and_right, exists_or]

/-- A transaction that is found stays found as long as its record does. -/
theorem getTransaction_keeps {db later : Database}
    (keeps : Store.Keeps (fun key : Bytes => key.length = 32) db later) {hash : Hash} {t : Transaction}
    (found : getTransaction geth db hash = .ok t) : getTransaction geth later hash = .ok t := by
  unfold getTransaction at found ⊢
  cases held : db (transactionKey hash) with
  | none =>
    rw [held] at found
    cases found
  | some data =>
    rw [held] at found
    rw [keeps _ (transactionKey_length hash) data held]
    exact found

/-- **What a node finds after accepted operations** on an empty database: the transactions that were
applied, a receipt for each, and transactions whose bytes the state trie wrote. -/
theorem store_holds_committed (pool : geth.PoolLaws) (codec : geth.CodecLaws) (trie : geth.TrieLaws)
    (opened : newState geth Store.empty = .ok s)
    (archives : Along (State.operate geth) (Archives geth) s operations) :
    HoldsCommitted geth s operations := by
  have held := archive_run pool codec trie opened archives
  have applied : ∀ t, Delivered geth operations t →
      getTransaction geth (run (State.operate geth) s operations).1.db (geth.txHash t) = .ok t := by
    rintro t delivered
    have stored := held.transactions t delivered
    obtain ⟨operation, -, brings⟩ := delivered
    cases operation with
    | createAccounts accounts => exact brings.elim
    | processBlock block =>
      obtain ⟨txBytes, -, decoded⟩ := brings
      exact getTransaction_stored codec decoded stored
  refine ⟨applied, fun hash t found => ?_, held.receipts, fun later along hash t found => ?_,
    fun later along hash other => ?_⟩
  · have source : ∃ data, (run (State.operate geth) s operations).1.db (transactionKey hash) =
        some data ∧ geth.rlpDecodeBytes data = some t := by
      unfold getTransaction at found
      split at found
      · cases found
      · next data held =>
        split at found
        · cases found
        · next decoded =>
          cases found
          exact ⟨data, held, decoded⟩
    obtain ⟨data, there, decoded⟩ := source
    rcases held.sources hash data there with ⟨other, delivered, rfl⟩ | planted
    · obtain rfl := Except.ok.inj ((applied other delivered).symm.trans found)
      exact Or.inl ⟨delivered, rfl⟩
    · exact Or.inr ⟨data, planted, decoded⟩
  · rw [run_append]
    exact getTransaction_keeps (run_invariant (State.operate geth)
      (fun reached => Store.Keeps _ (run (State.operate geth) s operations).1.db reached.db)
      (fun reached operation kept final => kept.trans (operate_keeps final)) (Store.Keeps.refl _ _)
      ((along_append _).mp along).2) found
  · rw [run_append]
    refine (run_invariant (State.operate geth)
      (fun reached => reached.was = .fresh reached.statedb ∧ getReceipt geth reached.db hash =
        getReceipt geth (run (State.operate geth) s operations).1.db hash)
      (fun reached operation kept final => ?_) ⟨held.fresh, rfl⟩
      (along_inputs _ (fun operation member t brings => other t ⟨operation, member, brings⟩)
        ((along_append _).mp along).2)).2
    exact ⟨operate_fresh final.2.1,
      (receipt_stays pool codec trie kept.1 final.2 final.1).trans kept.2⟩

end Runs

/-! ### Archives of the small chain -/

namespace Sample

/-- A contract whose code is the bytes of a payment of alice's. -/
def plantedGenesis : AccountMap :=
  [("0x03", ⟨"000090c802011400000000000000000000000000000000000000020a00360202", [], "0"⟩)]

/-- A call of the program that destroys alice's account. -/
def farewell : Block := blockOf [signed 0 30000 alice 0]

/-- A payment that nobody applied is found, and the receipt of a transaction that is applied again is
another one. -/
theorem store_not_exact : newState Sample.geth Store.empty = .ok blank ∧
    (Along (State.operate Sample.geth) (Archives Sample.geth) blank [.createAccounts plantedGenesis] ∧
      ¬ FindsExactly Sample.geth blank [.createAccounts plantedGenesis]) ∧
    Along (State.operate Sample.geth) (Archives Sample.geth) blank
        [.createAccounts fragileGenesis, .processBlock farewell, .processBlock farewell] ∧
      ¬ AnswersStay Sample.geth blank [.createAccounts fragileGenesis, .processBlock farewell]
        [.processBlock farewell] := by
  refine ⟨newState_empty, ⟨⟨by decide +kernel, trivial⟩, fun exact => ?_⟩,
    ⟨by decide +kernel, by decide +kernel, by decide +kernel, trivial⟩, fun stay => ?_⟩
  · obtain ⟨⟨operation, member, brings⟩, -⟩ :=
      (exact (txHash (signed 0 21000 bob 5)) (signed 0 21000 bob 5)).mp (by decide +kernel)
    obtain rfl := List.mem_singleton.mp member
    exact brings
  · have read : (getReceipt Sample.geth (run (State.operate Sample.geth) blank
        [.createAccounts fragileGenesis, .processBlock farewell]).1.db
          (txHash (signed 0 30000 alice 0))).isOk = true := by decide +kernel
    cases found : getReceipt Sample.geth (run (State.operate Sample.geth) blank
        [.createAccounts fragileGenesis, .processBlock farewell]).1.db
          (txHash (signed 0 30000 alice 0)) with
    | error failure =>
      rw [found] at read
      cases read
    | ok receipt =>
      have same := ((stay (txHash (signed 0 30000 alice 0))).2 receipt found).trans found.symm
      exact absurd (congrArg (fun read => read.toOption.map Receipt.postState) same)
        (by decide +kernel)

theorem payment_archived :
    HoldsCommitted Sample.geth blank [.createAccounts genesis, .processBlock payment] :=
  store_holds_committed poolLaws codecLaws trieLaws newState_empty
    ⟨by decide +kernel, by decide +kernel, trivial⟩

end Sample

end EvmBabble
