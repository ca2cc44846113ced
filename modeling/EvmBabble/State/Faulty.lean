/-
A node whose database fails, and that goes on (`commit`, `was.go`).

A write that fails ends `Commit` with an error, and `commit` returns it before it resets the write-ahead
state. So the next block is applied on what the failed commit left: the transactions, their receipts and
the gas pool of the blocks before it; and the next commit that goes through stores all of them.

* `ResumeLaws` — what is relied on of go-ethereum: a `StateDB` can be gone on with after `CommitTo`.
* `tryBlock_pending` — one block, with whatever write failing: the accounts that the node works on are
  those of a plain node, and what it has not stored it still holds.
* `faults_catch_up` — over every run of blocks: a commit that goes through answers as the plain node
  does, the nonces are always its, and after such a commit so is the ledger.
-/

import EvmBabble.State.Batches
import EvmBabble.State.Archive

namespace EvmBabble

open Library

variable {World : Type} (geth : Geth World)

/-! ### Commits that fail -/

/-- What `Commit` was at when a write failed: its four log texts. -/
inductive CommitStage
  | state
  | head
  | transactions
  | receipts
deriving DecidableEq

/-- The stage of the write after the first `count`, of which so many go to the state trie. -/
def CommitStage.of (trie count : Nat) : CommitStage :=
  if count < trie then .state
  else if count = trie then .head
  else if count = trie + 1 then .transactions
  else .receipts

/-- How a block ends on a database that may fail. -/
inductive Tried
  | done (outcome : Outcome Hash)
  | unwritten (stage : CommitStage)
deriving DecidableEq

/-- A block, and the number of writes after which the database fails in its commit, if it does. -/
abbrev Trial := Block × Option Nat

section Trials

-- the account state that a `StateDB` goes on with after a commit of which so many writes went through
variable (resumed : World → Nat → World)

/-- Going on with a `StateDB` after `CommitTo`, whether that failed on the way or came through before a
later write failed: the accounts are what they were if there was nothing to remove. -/
structure ResumeLaws : Prop where
  resumed_same : ∀ accounts count, geth.finalise accounts = accounts →
    resumed accounts count = accounts

namespace State

variable (s : State World)

/-- `commit` on a database that fails after so many writes. -/
def commitFailing (count : Nat) : State World × Tried :=
  let committed := s.was.commit geth s.db
  let trie := (geth.commitTo s.db s.was.ethState).2.1.length
  if count < committed.writes.length then
    ({ s with
        db := s.db.writes (committed.writes.take count)
        was.ethState.accounts := resumed s.was.ethState.accounts count }, .unwritten (.of trie count))
  else
    let (next, outcome) := s.commit geth
    (next, .done outcome)

/-- `ProcessBlock` on a database that may fail. -/
def tryBlock (trial : Trial) : State World × Tried :=
  let applied := s.applyBlock geth trial.1
  let left := { s with was := applied.1 }
  match applied.2 with
  | .ok () =>
    match trial.2 with
    | some count => left.commitFailing geth resumed count
    | none =>
      let (next, outcome) := left.commit geth
      (next, .done outcome)
  | .error failure => (left, .done (.error failure))
  | .panic => (left, .done .panic)

end State

/-- A database that does not fail. -/
theorem tryBlock_none (s : State World) (block : Block) : s.tryBlock geth resumed (block, none) =
    ((s.processBlock geth block).1, .done (s.processBlock geth block).2) := by
  unfold State.tryBlock State.processBlock State.applyBlock
  dsimp only
  cases (applyTransactions geth (.ofBytes 32 block.hash) s.was 0 block.transactions).2 with
  | ok => rfl
  | error failure => rfl
  | panic => rfl

end Trials

/-! ### Receipts that are alike -/

/-- Receipts of one transaction that differ at most in what they say of their block. -/
structure Receipt.Alike (one two : Receipt) : Prop where
  txHash : one.txHash = two.txHash
  postState : one.postState = two.postState
  failed : one.failed = two.failed
  gasUsed : one.gasUsed = two.gasUsed
  contractAddress : one.contractAddress = two.contractAddress

/-- What two databases hold alike under a hash. -/
def ReadAlike : Except Failure Receipt → Except Failure Receipt → Prop
  | .ok one, .ok two => one.Alike two
  | .error one, .error two => one = two
  | _, _ => False

theorem readAlike_refl : ∀ read, ReadAlike read read
  | .ok _ => ⟨rfl, rfl, rfl, rfl, rfl⟩
  | .error _ => rfl

section Alike

variable {geth} {one two : Database} {first second : List Receipt}

/-- The records of receipts. -/
def receiptBatchOf (geth : Geth World) (receipts : List Receipt) : List (Bytes × Bytes) :=
  receipts.map fun receipt => (receiptKey receipt.txHash, geth.receiptData receipt)

/-- One receipt more in each of two databases that are alike. -/
theorem put_alike (codec : geth.CodecLaws) {receipt other : Receipt} (alike : receipt.Alike other)
    (storable : receipt.Storable) (storableOther : other.Storable)
    (read : ∀ hash, ReadAlike (getReceipt geth one hash) (getReceipt geth two hash)) (hash : Hash) :
    ReadAlike
      (getReceipt geth (Function.update one (receiptKey receipt.txHash)
        (some (geth.receiptData receipt))) hash)
      (getReceipt geth (Function.update two (receiptKey other.txHash)
        (some (geth.receiptData other))) hash) := by
  obtain ⟨txHash, postState, failed, gasUsed, contractAddress⟩ := alike
  by_cases same : hash = receipt.txHash
  · rw [same, getReceipt_stored codec storable (Function.update_self _ _ _), txHash,
      getReceipt_stored codec storableOther (Function.update_self _ _ _)]
    exact ⟨rfl, postState, rfl, gasUsed, contractAddress⟩
  · have apart : ∀ named, hash ≠ named → receiptKey hash ≠ receiptKey named :=
      fun _ differs same => differs (receiptKey_injective same)
    rw [getReceipt_congr (Function.update_of_ne (apart _ same) _ _),
      getReceipt_congr (Function.update_of_ne (apart _ (txHash ▸ same)) _ _)]
    exact read hash

/-- **Receipts that are alike, put over databases that are alike.** -/
theorem batch_alike (codec : geth.CodecLaws) (alike : List.Forall₂ Receipt.Alike first second)
    (storable : ∀ receipt ∈ first, receipt.Storable)
    (storableOther : ∀ receipt ∈ second, receipt.Storable)
    (read : ∀ hash, ReadAlike (getReceipt geth one hash) (getReceipt geth two hash)) (hash : Hash) :
    ReadAlike (getReceipt geth (one.putAll (receiptBatchOf geth first)) hash)
      (getReceipt geth (two.putAll (receiptBatchOf geth second)) hash) := by
  induction alike generalizing one two with
  | nil => exact read hash
  | cons here later ih =>
    refine ih (fun receipt member => storable receipt (List.mem_cons_of_mem _ member))
      (fun receipt member => storableOther receipt (List.mem_cons_of_mem _ member)) ?_
    exact put_alike codec here (storable _ List.mem_cons_self) (storableOther _ List.mem_cons_self)
      read

end Alike

/-! ### What a commit that has not gone through leaves to do -/

section Pending

variable {geth} {was : WriteAheadState World} {db : Database} {hash : Hash}

/-- Of what a commit stores, only the receipt batch reaches a receipt key. -/
theorem stored_receipt (trie : geth.TrieLaws) : was.stored geth db (receiptKey hash) =
    db.putAll (receiptBatchOf geth was.receipts) (receiptKey hash) := by
  unfold WriteAheadState.stored
  apply Store.putAll_congr _
  rw [Store.putAll_other _ _ _ fun record member same => by
    rcases List.mem_cons.mp member with rfl | listed
    · exact receiptKey_ne_head hash same.symm
    · obtain ⟨t, -, rfl⟩ := transactionBatch_key listed
      exact receiptKey_ne_transactionKey _ _ same.symm]
  exact Store.writes_other _ _ _ (trie_other trie ⟨by rw [receiptKey_length]; decide,
    by rw [receiptKey_length]; decide⟩)

/-- A commit that fails at one of its writes has not written the receipts. -/
theorem unwritten_receipt (trie : geth.TrieLaws) (encodable : was.Encodable geth)
    (codec : geth.CodecLaws) {count : Nat} (failing : count < (was.commit geth db).writes.length) :
    Store.writes db ((was.commit geth db).writes.take count) (receiptKey hash) =
      db (receiptKey hash) := by
  rw [commit_encodable codec encodable] at failing ⊢
  have front : (was.trie geth db ++ [was.writeHead geth, .batch (was.transactionBatch geth),
      .batch (was.receiptBatch geth)]).take count <+:
        was.trie geth db ++ [was.writeHead geth, .batch (was.transactionBatch geth)] := by
    refine List.prefix_of_prefix_length_le (List.take_prefix _ _) ⟨[.batch (was.receiptBatch geth)], ?_⟩ ?_
    · rw [List.append_assoc]
      rfl
    · simp only [List.length_take, List.length_append, List.length_cons, List.length_nil] at failing ⊢
      omega
  refine Store.writes_other _ _ _ fun write member record inside same => ?_
  rcases List.mem_append.mp (front.subset member) with issued | issued
  · have length := receiptKey_length hash
    exact trie_other trie (by rw [length]; decide) write issued record inside same
  · rcases List.mem_cons.mp issued with rfl | issued
    · obtain rfl := List.mem_singleton.mp inside
      exact receiptKey_ne_head hash same.symm
    · obtain rfl := List.mem_singleton.mp issued
      obtain ⟨t, -, rfl⟩ := transactionBatch_key inside
      exact receiptKey_ne_transactionKey _ _ same.symm

/-- Sound steps keep a write-ahead state encodable. -/
theorem takeSteps_encodes (codec : geth.CodecLaws) {blockHash : Hash} {txIndex : Nat}
    {steps : List (TxStep World)} (sound : ∀ step ∈ steps, step.Sound geth)
    (total : 0 ≤ was.totalUsedGas) (encodable : was.Encodable geth) :
    (was.takeSteps geth blockHash txIndex steps).Encodable geth := by
  refine ⟨fun t member => ?_, takeSteps_storable sound total encodable.receipts⟩
  rw [takeSteps_transactions] at member
  rcases List.mem_append.mp member with old | new
  · exact encodable.transactions t old
  · obtain ⟨step, inside, rfl⟩ := List.mem_map.mp new
    obtain ⟨txBytes, read⟩ := (sound step inside).read
    exact (canonical_read codec (readMessage_ok read).1).1

theorem usedGas_nonneg {steps : List (TxStep World)} (sound : ∀ step ∈ steps, step.Sound geth) :
    0 ≤ usedGas steps := by
  refine List.sum_nonneg fun gas member => ?_
  obtain ⟨step, inside, rfl⟩ := List.mem_map.mp member
  exact (sound step inside).used

/-- The same steps make receipts that are alike, whatever pool, block and counters they are taken on. -/
theorem made_alike (was other : WriteAheadState World) (blockHash otherHash : Hash)
    (txIndex otherIndex : Nat) (amount : Int) (steps : List (TxStep World)) :
    List.Forall₂ Receipt.Alike
      (was.made geth blockHash txIndex (steps.map (TxStep.shift amount)))
      (other.made geth otherHash otherIndex steps) := by
  induction steps generalizing was other txIndex otherIndex with
  | nil => exact .nil
  | cons step steps ih => exact .cons ⟨rfl, rfl, rfl, rfl, rfl⟩ (ih _ _ _ _)

/-- A hash with a receipt among those put, or in the database, has one afterwards. -/
theorem posted_batch (codec : geth.CodecLaws) {receipts : List Receipt}
    (storable : ∀ receipt ∈ receipts, receipt.Storable)
    (posted : (∃ receipt ∈ receipts, receipt.txHash = hash) ∨
      ∃ receipt, getReceipt geth db hash = .ok receipt) :
    ∃ receipt, getReceipt geth (db.putAll (receiptBatchOf geth receipts)) hash = .ok receipt := by
  induction receipts generalizing db with
  | nil => exact posted.resolve_left fun ⟨_, member, _⟩ => absurd member List.not_mem_nil
  | cons first rest ih =>
    refine ih (fun receipt member => storable receipt (List.mem_cons_of_mem _ member)) ?_
    by_cases here : first.txHash = hash
    · subst here
      exact Or.inr ⟨_, getReceipt_stored codec (storable first List.mem_cons_self)
        (Function.update_self _ _ _)⟩
    · rcases posted with ⟨receipt, member, named⟩ | ⟨receipt, found⟩
      · rcases List.mem_cons.mp member with rfl | later
        · exact absurd named here
        · exact Or.inl ⟨receipt, later, named⟩
      · refine Or.inr ⟨receipt, ?_⟩
        rw [← found]
        exact getReceipt_congr (Function.update_of_ne
          (fun same => here (receiptKey_injective same).symm) _ _)

end Pending

/-! ### The two nodes side by side -/

/-- A transaction that the node has stored, or still has to. -/
def State.HasTransaction (s : State World) (t : Transaction) : Prop :=
  t ∈ s.was.transactions ∨ s.db (transactionKey (geth.txHash t)) = some (geth.canonical t)

/-- A node whose commits may have failed, beside a plain node, after the same transactions. -/
structure Beside (faulty plain : State World) (seen : List Bytes) : Prop where
  accounts : faulty.was.ethState.accounts = plain.statedb.accounts
  encodable : faulty.was.Encodable geth
  total : 0 ≤ faulty.was.totalUsedGas
  fresh : plain.was = .fresh plain.statedb
  finalised : geth.finalise plain.statedb.accounts = plain.statedb.accounts
  holds : ∀ txBytes ∈ seen, ∀ t, geth.rlpDecode txBytes = some t → faulty.HasTransaction geth t
  stored : ∀ txBytes ∈ seen, ∀ t, geth.rlpDecode txBytes = some t →
    plain.db (transactionKey (geth.txHash t)) = some (geth.canonical t)
  posted : ∀ txBytes ∈ seen, ∀ t, geth.rlpDecode txBytes = some t →
    ∃ receipt, getReceipt geth plain.db (geth.txHash t) = .ok receipt
  receipts : ∀ hash, ReadAlike
    (getReceipt geth (faulty.db.putAll (receiptBatchOf geth faulty.was.receipts)) hash)
    (getReceipt geth plain.db hash)

/-- A commit that went through: the answer is the plain node's, and so are the accounts. -/
structure Through (plain : State World) (after : State World) : Prop where
  was : after.was = .fresh after.statedb
  accounts : after.statedb.accounts = plain.statedb.accounts

section Steps

variable {geth} {faulty plain : State World} {seen : List Bytes} {block : Block}
  {steps : List (TxStep World)}

/-- A transaction that is brought has a step. -/
theorem txSteps_brings {blockHash : Hash} {accounts : World} {pool : Int} {transactions : List Bytes}
    (folded : geth.txSteps blockHash accounts pool transactions = .ok steps) {txBytes : Bytes}
    (brought : txBytes ∈ transactions) {t : Transaction} (decoded : geth.rlpDecode txBytes = some t) :
    t ∈ steps.map TxStep.t := by
  have listed := List.mem_map_of_mem (f := geth.readMessage) brought
  rw [txSteps_reads folded] at listed
  obtain ⟨step, inside, read⟩ := List.mem_map.mp listed
  exact List.mem_map.mpr ⟨step, inside,
    Option.some.inj ((readMessage_ok read.symm).1.symm.trans decoded)⟩

/-- The plain node's records of the transactions of a block. -/
theorem plain_block (pools : geth.PoolLaws) (codec : geth.CodecLaws) (trie : geth.TrieLaws)
    (fresh : plain.was = .fresh plain.statedb) (archives : Archives geth plain (.processBlock block))
    (stored : ∀ txBytes ∈ seen, ∀ t, geth.rlpDecode txBytes = some t →
      plain.db (transactionKey (geth.txHash t)) = some (geth.canonical t)) :
    ∀ txBytes ∈ seen ++ block.transactions, ∀ t, geth.rlpDecode txBytes = some t →
      (plain.processBlock geth block).1.db (transactionKey (geth.txHash t)) =
        some (geth.canonical t) := by
  intro txBytes member t decoded
  rcases List.mem_append.mp member with old | new
  · exact operate_keeps archives _ (transactionKey_length _) _ (stored txBytes old t decoded)
  · exact brought_stored pools codec trie fresh archives ⟨txBytes, new, decoded⟩

/-- **The transactions of a block, applied on what is left of failed commits.** -/
theorem applied_beside (admission : geth.AdmissionLaws) (pools : geth.PoolLaws)
    (codec : geth.CodecLaws) (trie : geth.TrieLaws) (hash : geth.HashLaws)
    (beside : Beside geth faulty plain seen) (folded : plain.blockSteps geth block = .ok steps)
    (archives : Archives geth plain (.processBlock block))
    (covered : totalGas geth block.transactions ≤ faulty.was.gp) :
    ∃ was, faulty.applyBlock geth block = (was, .ok ()) ∧
      Beside geth { faulty with was } (plain.processBlock geth block).1
        (seen ++ block.transactions) := by
  obtain ⟨accounts, encodable, total, fresh, finalised, holds, stored, posted, receipts⟩ := beside
  have shifted := txSteps_shift admission pools codec hash (.ofBytes 32 block.hash) faulty.was.gp
    folded (Or.inr covered)
  rw [← accounts] at shifted
  have sound := txSteps_sound pools codec trie shifted
  have soundPlain := txSteps_sound pools codec trie folded
  obtain ⟨outcome, taken⟩ :=
    applyTransactions_steps geth (.ofBytes 32 block.hash) faulty.was 0 block.transactions
  rw [shifted] at outcome
  obtain ⟨nextFresh, last⟩ := processBlock_last pools codec trie fresh finalised folded
  have settles := settled pools codec trie fresh folded
  refine ⟨_, Prod.ext (taken _ shifted) outcome, ?_⟩
  have after : ∀ hash, (plain.processBlock geth block).1.db (receiptKey hash) =
      plain.db.putAll (receiptBatchOf geth (plain.blockWas geth block steps).receipts)
        (receiptKey hash) := fun hash => by
    rw [processBlock_steps pools codec trie fresh folded]
    exact stored_receipt trie
  have made : (plain.blockWas geth block steps).receipts =
      (WriteAheadState.fresh plain.statedb).made geth (.ofBytes 32 block.hash) 0 steps :=
    takeSteps_receipts geth _ _ 0 steps
  have storable : ∀ receipt ∈ (plain.blockWas geth block steps).receipts, receipt.Storable :=
    (takeSteps_encodable codec plain.statedb 0 soundPlain).receipts
  constructor
  case accounts =>
    show (faulty.was.takeSteps geth _ 0 _).ethState.accounts = _
    rw [takeSteps_accounts, lastAccounts_shift, accounts, last]
  case encodable => exact takeSteps_encodes codec sound total encodable
  case total =>
    show 0 ≤ (faulty.was.takeSteps geth _ 0 _).totalUsedGas
    rw [takeSteps_totalUsedGas]
    exact Int.add_nonneg total (usedGas_nonneg sound)
  case fresh => exact nextFresh
  case finalised =>
    rw [settles.accounts]
    exact trie.finalise_finalise _
  case holds =>
    have transactions : (faulty.was.takeSteps geth (.ofBytes 32 block.hash) 0
        (steps.map (TxStep.shift (faulty.was.gp - gasLimit)))).transactions = _ :=
      takeSteps_transactions _ 0 _
    intro txBytes member t decoded
    rcases List.mem_append.mp member with old | new
    · refine (holds txBytes old t decoded).imp (fun held => ?_) id
      exact transactions ▸ List.mem_append_left _ held
    · exact Or.inl (transactions ▸ List.mem_append_right _ (txSteps_brings shifted new decoded))
  case stored => exact plain_block pools codec trie fresh archives stored
  case posted =>
    intro txBytes member t decoded
    rw [getReceipt_congr (after _)]
    apply posted_batch codec storable
    rcases List.mem_append.mp member with old | new
    · exact Or.inr (posted txBytes old t decoded)
    · obtain ⟨step, inside, rfl⟩ := List.mem_map.mp (txSteps_brings folded new decoded)
      have named := List.mem_map_of_mem (f := fun step => geth.txHash step.t) inside
      rw [← made_hashes geth (.ofBytes 32 block.hash) (.fresh plain.statedb) 0 steps, ← made] at named
      exact Or.inl (List.mem_map.mp named)
  case receipts =>
    intro named
    rw [getReceipt_congr (after named), made]
    show ReadAlike (getReceipt geth (faulty.db.putAll (receiptBatchOf geth
      (faulty.was.takeSteps geth _ 0 _).receipts)) named) _
    have split := takeSteps_receipts geth (.ofBytes 32 block.hash) faulty.was 0
      (steps.map (TxStep.shift (faulty.was.gp - gasLimit)))
    rw [split, receiptBatchOf, List.map_append, Store.putAll_append]
    refine batch_alike codec (made_alike _ _ _ _ 0 0 _ steps) (fun receipt member => ?_)
      (fun receipt member => storable receipt (made ▸ member)) receipts named
    exact (takeSteps_encodes codec sound total encodable).receipts receipt
      (split ▸ List.mem_append_right _ member)

/-- **A commit that goes through** stores all that was pending. -/
theorem commit_through (codec : geth.CodecLaws) (trie : geth.TrieLaws)
    (beside : Beside geth faulty plain seen)
    (one : OneValue faulty.db ((faulty.was.commit geth faulty.db).writes.flatMap Write.records)) :
    (faulty.commit geth).2 = .ok (geth.root plain.statedb.accounts) ∧
      Beside geth (faulty.commit geth).1 plain seen ∧ Through plain (faulty.commit geth).1 := by
  obtain ⟨accounts, encodable, total, fresh, finalised, holds, stored, posted, receipts⟩ := beside
  have ethState : geth.finalise faulty.was.ethState.accounts = plain.statedb.accounts := by
    rw [accounts, finalised]
  have done : (faulty.was.commit geth faulty.db).outcome =
      .ok (geth.root plain.statedb.accounts) := by rw [commit_encodable codec encodable, ethState]
  have committed : (faulty.was.commit geth faulty.db).ethState.accounts = plain.statedb.accounts := by
    rw [commit_encodable codec encodable, ethState]
  have keeps := OneValue.keeps faulty.db [] _ one
  rw [State.commit_ok done]
  refine ⟨rfl, ⟨committed, ⟨List.forall_mem_nil _, List.forall_mem_nil _⟩, Int.le_refl 0, fresh,
    finalised, fun txBytes member t decoded => Or.inr ?_, stored, posted, fun hash => ?_⟩,
    rfl, committed⟩
  · show Store.writes faulty.db (faulty.was.commit geth faulty.db).writes _ = _
    rcases holds txBytes member t decoded with pending | found
    · have listed : (transactionKey (geth.txHash t), geth.canonical t) ∈
          (faulty.was.commit geth faulty.db).writes.flatMap Write.records := by
        rw [commit_encodable codec encodable]
        refine List.mem_flatMap.mpr ⟨.batch (faulty.was.transactionBatch geth), by simp, ?_⟩
        exact List.mem_map_of_mem (f := fun t => (transactionKey (geth.txHash t), geth.canonical t))
          pending
      exact Store.putAll_agreed listed (one _ listed (transactionKey_length _)).2
    · exact keeps _ (transactionKey_length _) _ found
  · show ReadAlike (getReceipt geth
      (Store.writes faulty.db (faulty.was.commit geth faulty.db).writes) hash) _
    rw [commit_writes codec encodable, getReceipt_congr (stored_receipt trie)]
    exact receipts hash

/-- **A commit that fails** leaves all of it pending, and the committed state as it was. -/
theorem commit_failing {resumed : World → Nat → World} (codec : geth.CodecLaws) (trie : geth.TrieLaws)
    (resume : ResumeLaws geth resumed) (beside : Beside geth faulty plain seen)
    (one : OneValue faulty.db ((faulty.was.commit geth faulty.db).writes.flatMap Write.records))
    {count : Nat} (failing : count < (faulty.was.commit geth faulty.db).writes.length) :
    ∃ stage, (faulty.commitFailing geth resumed count).2 = .unwritten stage ∧
      Beside geth (faulty.commitFailing geth resumed count).1 plain seen ∧
      (faulty.commitFailing geth resumed count).1.statedb = faulty.statedb := by
  obtain ⟨accounts, encodable, total, fresh, finalised, holds, stored, posted, receipts⟩ := beside
  unfold State.commitFailing
  dsimp only
  rw [if_pos failing]
  have keeps : Store.Keeps (fun key : Bytes => key.length = 32) faulty.db
      (Store.writes faulty.db ((faulty.was.commit geth faulty.db).writes.take count)) :=
    OneValue.keeps faulty.db [] _ (one.take count)
  refine ⟨_, rfl, ⟨?_, ⟨encodable.transactions, encodable.receipts⟩, total, fresh, finalised,
    fun txBytes member t decoded => (holds txBytes member t decoded).imp id fun found =>
      keeps _ (transactionKey_length _) _ found, stored, posted, fun hash => ?_⟩, rfl⟩
  · show resumed faulty.was.ethState.accounts count = plain.statedb.accounts
    rw [resume.resumed_same _ _ (by rw [accounts, finalised]), accounts]
  · show ReadAlike (getReceipt geth (Store.putAll (Store.writes faulty.db
      ((faulty.was.commit geth faulty.db).writes.take count))
        (receiptBatchOf geth faulty.was.receipts)) hash) _
    rw [getReceipt_congr (Store.putAll_congr _ (unwritten_receipt trie encodable codec failing))]
    exact receipts hash

end Steps

/-! ### Runs -/

section Runs

variable (resumed : World → Nat → World)

/-- The pool that is left covers the block, and the records under 32-byte keys that its commit writes
repeat each other and what is there. -/
def State.Fits (s : State World) (trial : Trial) : Prop :=
  totalGas geth trial.1.transactions ≤ s.was.gp ∧
    OneValue s.db ((s.blockWrites geth trial.1).flatMap Write.records)

instance (s : State World) (trial : Trial) : Decidable (s.Fits geth trial) :=
  inferInstanceAs (Decidable (_ ∧ _))

/-- The transactions of the blocks that were tried. -/
def tried (trials : List Trial) : List Bytes := trials.flatMap fun trial => trial.1.transactions

/-- A node after some blocks on a database that may fail. -/
abbrev State.afterTrials (s : State World) (trials : List Trial) : State World × List Tried :=
  run (State.tryBlock geth resumed) s trials

/-- The plain node after the same blocks. -/
abbrev State.afterBlocks (s : State World) (trials : List Trial) : State World × List (Outcome Hash) :=
  run (State.processBlock geth) s (trials.map Prod.fst)

/-- The property of a run: each block is answered as the plain node does, or not at all; the nonces are
the plain node's at any time, the balances those that it had at the last block that was answered; and
after a block that is answered, the ledger is the plain node's. -/
structure CatchesUp (s : State World) (trials : List Trial) : Prop where
  answers : List.Forall₂
    (fun tried outcome => tried = .done outcome ∨ ∃ stage, tried = .unwritten stage)
    (s.afterTrials geth resumed trials).2 (s.afterBlocks geth trials).2
  nonces : ∀ address, (s.afterTrials geth resumed trials).1.getNonce geth address =
    (s.afterBlocks geth trials).1.getNonce geth address
  balances : ∃ settled pending, trials = settled ++ pending ∧
    (∀ tried ∈ ((s.afterTrials geth resumed settled).1.afterTrials geth resumed pending).2,
      ∃ stage, tried = .unwritten stage) ∧
    ∀ address, (s.afterTrials geth resumed trials).1.getBalance geth address =
      (s.afterBlocks geth settled).1.getBalance geth address
  ledger : ∀ outcome, (s.afterTrials geth resumed trials).2.getLast? = some (.done outcome) →
    SameLedger geth (s.afterTrials geth resumed trials).1 (s.afterBlocks geth trials).1 (tried trials)

variable {geth resumed} {faulty plain s : State World} {seen : List Bytes} {trial : Trial}

/-- What one block comes to on a database that may fail. -/
structure Tries (geth : Geth World) (resumed : World → Nat → World) (faulty plain : State World)
    (seen : List Bytes) (trial : Trial) : Prop where
  beside : Beside geth (faulty.tryBlock geth resumed trial).1 (plain.processBlock geth trial.1).1
    (seen ++ trial.1.transactions)
  answer : ((faulty.tryBlock geth resumed trial).2 = .done (plain.processBlock geth trial.1).2 ∧
      Through (plain.processBlock geth trial.1).1 (faulty.tryBlock geth resumed trial).1) ∨
    ∃ stage, (faulty.tryBlock geth resumed trial).2 = .unwritten stage ∧
      (faulty.tryBlock geth resumed trial).1.statedb = faulty.statedb

/-- **One block, whatever write fails.** -/
theorem tryBlock_pending (admission : geth.AdmissionLaws) (pools : geth.PoolLaws)
    (codec : geth.CodecLaws) (trie : geth.TrieLaws) (hash : geth.HashLaws)
    (resume : ResumeLaws geth resumed) (beside : Beside geth faulty plain seen)
    (archives : Archives geth plain (.processBlock trial.1)) (fits : faulty.Fits geth trial) :
    Tries geth resumed faulty plain seen trial := by
  obtain ⟨block, fault⟩ := trial
  obtain ⟨covered, one⟩ := fits
  obtain ⟨root, done⟩ := Outcome.isOk_iff.mp archives.1
  obtain ⟨steps, folded⟩ :=
    (processBlock_accepted_iff pools codec trie beside.fresh).mp ⟨root, done⟩
  have answer := (settled pools codec trie beside.fresh folded).root
  obtain ⟨was, applied, next⟩ :=
    applied_beside admission pools codec trie hash beside folded archives covered
  rw [State.blockWrites, applied] at one
  -- a commit that no write stops
  have through : ∀ fault, faulty.tryBlock geth resumed (block, fault) =
      ((State.commit geth { faulty with was }).1, .done (State.commit geth { faulty with was }).2) →
        Tries geth resumed faulty plain seen (block, fault) := fun fault same => by
    obtain ⟨outcome, after, finished⟩ := commit_through codec trie next one
    refine ⟨by rw [same]; exact after, Or.inl ⟨?_, by rw [same]; exact finished⟩⟩
    rw [same, answer, outcome]
  cases fault with
  | none =>
    apply through none
    unfold State.tryBlock
    rw [applied]
  | some count =>
    by_cases failing : count < (was.commit geth faulty.db).writes.length
    · obtain ⟨stage, outcome, after, kept⟩ := commit_failing codec trie resume next one failing
      have same : faulty.tryBlock geth resumed (block, some count) =
          State.commitFailing geth resumed { faulty with was } count := by
        unfold State.tryBlock
        rw [applied]
      exact ⟨by rw [same]; exact after, Or.inr ⟨stage, by rw [same]; exact outcome,
        by rw [same]; exact kept⟩⟩
    · apply through (some count)
      unfold State.tryBlock State.commitFailing
      rw [applied]
      dsimp only
      rw [if_neg failing]

theorem beside_start (fresh : s.was = .fresh s.statedb)
    (finalised : geth.finalise s.statedb.accounts = s.statedb.accounts) : Beside geth s s [] where
  accounts := by rw [fresh]; rfl
  encodable := by rw [fresh]; exact ⟨List.forall_mem_nil _, List.forall_mem_nil _⟩
  total := by rw [fresh]; exact Int.le_refl 0
  fresh := fresh
  finalised := finalised
  holds _ member := absurd member List.not_mem_nil
  stored _ member := absurd member List.not_mem_nil
  posted _ member := absurd member List.not_mem_nil
  receipts hash := by rw [fresh]; exact readAlike_refl _

/-- The ledgers after a commit that went through. -/
theorem Beside.sameLedger (codec : geth.CodecLaws) (beside : Beside geth faulty plain seen)
    (through : Through plain faulty) : SameLedger geth faulty plain seen := by
  obtain ⟨fresh, accounts⟩ := through
  refine ⟨accounts, fun txBytes member t decoded => ?_, fun txBytes member t decoded => ?_⟩
  · rcases beside.holds txBytes member t decoded with pending | found
    · rw [fresh] at pending
      exact absurd pending List.not_mem_nil
    · exact ⟨t, getTransaction_stored codec decoded found,
        getTransaction_stored codec decoded (beside.stored txBytes member t decoded)⟩
  · obtain ⟨receipt, posted⟩ := beside.posted txBytes member t decoded
    have alike := beside.receipts (geth.txHash t)
    rw [fresh, posted] at alike
    change ReadAlike (getReceipt geth faulty.db (geth.txHash t)) _ at alike
    cases read : getReceipt geth faulty.db (geth.txHash t) with
    | error failure =>
      rw [read] at alike
      exact alike.elim
    | ok first =>
      rw [read] at alike
      exact ⟨first, receipt, rfl, posted, alike.postState, alike.failed, alike.gasUsed,
        alike.contractAddress⟩

/-- What a run has come to. -/
structure Caught (geth : Geth World) (resumed : World → Nat → World) (s : State World)
    (trials : List Trial) : Prop where
  beside : Beside geth (s.afterTrials geth resumed trials).1 (s.afterBlocks geth trials).1
    (tried trials)
  answers : List.Forall₂
    (fun tried outcome => tried = .done outcome ∨ ∃ stage, tried = .unwritten stage)
    (s.afterTrials geth resumed trials).2 (s.afterBlocks geth trials).2
  settled : ∃ settled pending, trials = settled ++ pending ∧
    (∀ tried ∈ ((s.afterTrials geth resumed settled).1.afterTrials geth resumed pending).2,
      ∃ stage, tried = .unwritten stage) ∧
    (s.afterTrials geth resumed trials).1.statedb.accounts =
      (s.afterBlocks geth settled).1.statedb.accounts
  through : ∀ outcome, (s.afterTrials geth resumed trials).2.getLast? = some (.done outcome) →
    Through (s.afterBlocks geth trials).1 (s.afterTrials geth resumed trials).1

/-- One more block. -/
theorem Caught.concat {trials : List Trial} (caught : Caught geth resumed s trials)
    (tries : Tries geth resumed (s.afterTrials geth resumed trials).1 (s.afterBlocks geth trials).1
      (tried trials) trial) : Caught geth resumed s (trials ++ [trial]) := by
  obtain ⟨-, answers, ⟨settled, pending, split, unwritten, accounts⟩, -⟩ := caught
  obtain ⟨beside, answer⟩ := tries
  have after : s.afterTrials geth resumed (trials ++ [trial]) =
      (((s.afterTrials geth resumed trials).1.tryBlock geth resumed trial).1,
        (s.afterTrials geth resumed trials).2 ++
          [((s.afterTrials geth resumed trials).1.tryBlock geth resumed trial).2]) :=
    run_append _ _ _ _
  have blocks : s.afterBlocks geth (trials ++ [trial]) =
      (((s.afterBlocks geth trials).1.processBlock geth trial.1).1,
        (s.afterBlocks geth trials).2 ++
          [((s.afterBlocks geth trials).1.processBlock geth trial.1).2]) := by
    unfold State.afterBlocks
    rw [List.map_append]
    exact run_append _ _ _ _
  have seen : tried (trials ++ [trial]) = tried trials ++ trial.1.transactions := by simp [tried]
  constructor
  case beside =>
    rw [after, blocks, seen]
    exact beside
  case answers =>
    rw [after, blocks]
    exact List.rel_append answers (.cons (answer.imp And.left fun ⟨stage, same, _⟩ => ⟨stage, same⟩) .nil)
  case settled =>
    rcases answer with ⟨-, through⟩ | ⟨stage, outcome, kept⟩
    · refine ⟨trials ++ [trial], [], (List.append_nil _).symm, List.forall_mem_nil _, ?_⟩
      rw [after, blocks]
      exact through.accounts
    · refine ⟨settled, pending ++ [trial], by rw [split, List.append_assoc], ?_, ?_⟩
      · have all : ((s.afterTrials geth resumed settled).1.afterTrials geth resumed pending).1 =
            (s.afterTrials geth resumed trials).1 := by
          rw [split]
          exact (congrArg Prod.fst (run_append _ _ _ _)).symm
        rw [State.afterTrials, run_append]
        intro answered member
        rcases List.mem_append.mp member with old | new
        · exact unwritten answered old
        · change answered ∈ [(((s.afterTrials geth resumed settled).1.afterTrials geth resumed
            pending).1.tryBlock geth resumed trial).2] at new
          rw [List.mem_singleton.mp new, all]
          exact ⟨stage, outcome⟩
      · rw [after]
        exact (congrArg StateDB.accounts kept).trans accounts
  case through =>
    intro outcome last
    rw [after, List.getLast?_concat] at last
    rw [after, blocks]
    rcases answer with ⟨-, through⟩ | ⟨stage, unanswered, -⟩
    · exact through
    · rw [Option.some.inj last] at unanswered
      cases unanswered

/-- What holds of every run of blocks on a database that may fail, by induction from the last. -/
theorem caught (admission : geth.AdmissionLaws) (pools : geth.PoolLaws) (codec : geth.CodecLaws)
    (trie : geth.TrieLaws) (opens : geth.OpenLaws) (hash : geth.HashLaws)
    (resume : ResumeLaws geth resumed) (reset : FreshlyReset geth s) (trials : List Trial)
    (archives : Along (State.processBlock geth) (fun plain block =>
      Archives geth plain (.processBlock block)) s (trials.map Prod.fst))
    (fits : Along (State.tryBlock geth resumed) (State.Fits geth) s trials) :
    Caught geth resumed s trials := by
  induction trials using List.reverseRecOn with
  | nil =>
    exact ⟨beside_start reset.fresh (reset.finalised trie opens), .nil,
      ⟨[], [], rfl, List.forall_mem_nil _, rfl⟩, nofun⟩
  | append_singleton before trial ih =>
    rw [List.map_append] at archives
    obtain ⟨archivesBefore, archived⟩ := (along_append _).mp archives
    obtain ⟨fitsBefore, fitting⟩ := (along_append _).mp fits
    have sofar := ih archivesBefore fitsBefore
    exact sofar.concat (tryBlock_pending admission pools codec trie hash resume sofar.beside
      archived.1 fitting.1)

end Runs

/-! ### Payments on a failing database -/

namespace Sample

/-- A payment to bob in a block of its own. -/
def paying (nonce : Nat) (fault : Option Nat) : Trial :=
  (⟨[5 + nonce.toUInt8], [encoded (signed nonce 21000 bob 5)]⟩, fault)

/-- Payments whose commits fail in the state trie and at the receipts, before one goes through. -/
def failingCommits : List Trial := [paying 0 (some 0), paying 1 (some 3), paying 2 none]

theorem resumeLaws : ResumeLaws Sample.geth fun accounts _ => Sample.geth.finalise accounts where
  resumed_same _ _ finalised := finalised

example : (started.afterTrials Sample.geth (fun accounts _ => Sample.geth.finalise accounts)
      failingCommits).2.take 2 = [.unwritten .state, .unwritten .receipts] := by decide +kernel

end Sample

end EvmBabble
