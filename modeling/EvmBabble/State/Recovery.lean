/-
Recovery after a restart.

`NewState` goes from the head to its receipt and from there to a root. `writeHead` stores the hash of
an empty transaction when a commit holds none, so after a commit of genesis accounts or of an empty
block the head names a receipt that was never written, and the database cannot be opened again.

* `Kept` — what every accepted operation keeps: a fresh write-ahead state, and receipts of signed
  transactions only.
* `restart_recovers_iff` — after accepted operations on an empty database, a restart recovers the
  committed state exactly when there was no operation or the last one was a block with transactions.
-/

import EvmBabble.State.Reference
import EvmBabble.Library.Run

namespace EvmBabble

open Library

variable {World : Type} (geth : Geth World)

/-- The operations that commit. -/
inductive Operation
  | createAccounts (accounts : AccountMap)
  | processBlock (block : Block)

def State.operate (s : State World) : Operation → State World × Outcome Hash
  | .createAccounts accounts => s.createAccounts geth accounts
  | .processBlock block => s.processBlock geth block

/-- An operation that returns without error. -/
def Accepts (s : State World) (operation : Operation) : Prop :=
  (s.operate geth operation).2.isOk = true

instance (s : State World) (operation : Operation) : Decidable (Accepts geth s operation) :=
  inferInstanceAs (Decidable (_ = true))

/-! ### Opening a database -/

/-- The root the receipt of a hash leads to. -/
def receiptRoot (db : Database) (hash : Hash) : Except Failure Hash :=
  match getReceipt geth db hash with
  | .error failure => .error failure
  | .ok receipt =>
    if receipt.postState = [] then .ok default else .ok (.ofBytes 32 receipt.postState)

section Opening

variable {geth} {db : Database} {hash root : Hash}

/-- The head leads to a receipt. -/
theorem headRoot_of_head (head : db headTxKey = some hash.bytes) :
    headRoot geth db = receiptRoot geth db hash := by
  unfold headRoot
  rw [head]
  split
  · next none => cases none
  · next blank =>
    have lengths := hash.length_eq
    rw [Option.some.inj blank] at lengths
    cases lengths
  · next data found =>
    obtain rfl := Option.some.inj found
    rw [FixedBytes.ofBytes_bytes]
    rfl

theorem headRoot_missing (head : db headTxKey = some hash.bytes)
    (missing : db (receiptKey hash) = none) : headRoot geth db = .error .notFound := by
  rw [headRoot_of_head head, receiptRoot, getReceipt, missing]

theorem headRoot_receipt {receipt : Receipt} (head : db headTxKey = some hash.bytes)
    (found : getReceipt geth db hash = .ok receipt) (post : receipt.postState = root.bytes) :
    headRoot geth db = .ok root := by
  rw [headRoot_of_head head, receiptRoot, found]
  dsimp only
  rw [post, FixedBytes.ofBytes_bytes]
  refine if_neg fun blank => ?_
  have lengths := root.length_eq
  rw [blank] at lengths
  cases lengths

theorem newState_error {failure : Failure} (stopped : headRoot geth db = .error failure) :
    newState geth db = .error failure := by
  unfold newState initState
  rw [stopped]

theorem newState_ok {accounts : World} (headed : headRoot geth db = .ok root)
    (opened : geth.openState db root = some accounts) :
    newState geth db = .ok ⟨db, .ofAccounts accounts, .fresh (.ofAccounts accounts)⟩ := by
  unfold newState initState
  rw [headed]
  dsimp only
  rw [opened]

/-- How a database was opened. -/
theorem newState_some {s : State World} (opened : newState geth db = .ok s) :
    ∃ root accounts, headRoot geth db = .ok root ∧ geth.openState db root = some accounts ∧
      s = ⟨db, .ofAccounts accounts, .fresh (.ofAccounts accounts)⟩ := by
  unfold newState initState at opened
  cases headed : headRoot geth db with
  | error failure =>
    rw [headed] at opened
    cases opened
  | ok root =>
    rw [headed] at opened
    dsimp only at opened
    cases found : geth.openState db root with
    | none =>
      rw [found] at opened
      cases opened
    | some accounts =>
      rw [found] at opened
      cases opened
      exact ⟨root, accounts, rfl, found, rfl⟩

/-- A state that was opened is fresh and holds the database it was opened on. -/
theorem newState_fresh {s : State World} (opened : newState geth db = .ok s) :
    s.db = db ∧ s.was = .fresh s.statedb := by
  obtain ⟨root, accounts, -, -, rfl⟩ := newState_some opened
  exact ⟨rfl, rfl⟩

end Opening

/-! ### What accepted operations keep -/

/-- No signed transaction has the hash of the empty one. -/
def Geth.SignedApart : Prop := ∀ t, geth.sender t ≠ none → geth.txHash t ≠ geth.txHash .empty

/-- A fresh write-ahead state, and receipts of signed transactions only. -/
structure Kept (s : State World) : Prop where
  fresh : s.was = .fresh s.statedb
  receipts : ∀ hash, s.db (receiptKey hash) ≠ none → ∃ t, geth.sender t ≠ none ∧ hash = geth.txHash t

section Commits

variable {geth} {s : State World}

/-- The write-ahead state of genesis accounts. -/
def State.genesisWas (s : State World) (created : World) : WriteAheadState World :=
  (WriteAheadState.fresh (StateDB.copy { s.statedb with accounts := created }))

/-- **Genesis accounts**: the node moves to the finalised accounts of the loop. -/
theorem createAccounts_eq (codec : geth.CodecLaws) (fresh : s.was = .fresh s.statedb)
    {accounts : AccountMap} {created : World}
    (ran : createAccountsLoop geth s.statedb.accounts accounts = (created, true)) :
    s.createAccounts geth accounts =
      let statedb := { s.statedb.copy with accounts := geth.finalise created }
      ({ db := (s.genesisWas created).stored geth s.db, statedb, was := .fresh statedb },
        .ok (geth.root (geth.finalise created))) := by
  have encodable : (s.genesisWas created).Encodable geth :=
    ⟨fun t member => absurd member List.not_mem_nil,
      fun receipt member => absurd member List.not_mem_nil⟩
  have was : (s.withAccounts created).was = s.genesisWas created := by
    unfold State.withAccounts
    rw [fresh]
    rfl
  have done : ((s.withAccounts created).was.commit geth s.db).outcome =
      .ok (geth.root (geth.finalise created)) := by
    rw [was, commit_encodable codec encodable]
    rfl
  rw [State.createAccounts_ran (by rw [fresh]; exact ran),
    State.commit_ok (s := s.withAccounts created) done]
  show (State.mk (Store.writes s.db ((s.withAccounts created).was.commit geth s.db).writes)
    ((s.withAccounts created).was.commit geth s.db).ethState _, _) = _
  rw [was, commit_writes codec encodable, commit_encodable codec encodable]
  rfl

/-- A commit without transactions: it stores no receipt, and its head is the empty transaction. -/
theorem createAccounts_commits (codec : geth.CodecLaws) (trie : geth.TrieLaws)
    (fresh : s.was = .fresh s.statedb) {accounts : AccountMap} {root : Hash}
    (accepted : (s.createAccounts geth accounts).2 = .ok root) :
    (s.createAccounts geth accounts).1.db headTxKey = some (geth.txHash .empty).bytes ∧
      ∀ hash, (s.createAccounts geth accounts).1.db (receiptKey hash) = s.db (receiptKey hash) := by
  obtain ⟨created, ran⟩ := State.createAccounts_accepted accepted
  rw [fresh] at ran
  rw [createAccounts_eq codec fresh ran]
  exact ⟨commit_head, fun hash => commit_receipt_other trie fun receipt member =>
    absurd member List.not_mem_nil⟩

/-- A receipt whose hash no transaction of an accepted block has is left alone. -/
theorem processBlock_receipt_other (pool : geth.PoolLaws) (codec : geth.CodecLaws)
    (trie : geth.TrieLaws) (fresh : s.was = .fresh s.statedb) {block : Block}
    {steps : List (TxStep World)} (folded : s.blockSteps geth block = .ok steps) {hash : Hash}
    (other : ∀ step ∈ steps, geth.txHash step.t ≠ hash) :
    (s.processBlock geth block).1.db (receiptKey hash) = s.db (receiptKey hash) := by
  rw [processBlock_steps pool codec trie fresh folded]
  refine commit_receipt_other trie fun receipt member same => ?_
  rw [State.blockWas, takeSteps_receipts, WriteAheadState.fresh, List.nil_append] at member
  have inside := List.mem_map_of_mem (f := Receipt.txHash) member
  rw [made_hashes] at inside
  obtain ⟨step, listed, found⟩ := List.mem_map.mp inside
  exact other step listed (found.trans same)

/-- The receipts after an accepted block: those before it, and those of its signed transactions. -/
theorem processBlock_receipts (pool : geth.PoolLaws) (codec : geth.CodecLaws)
    (trie : geth.TrieLaws) (fresh : s.was = .fresh s.statedb) {block : Block}
    {steps : List (TxStep World)} (folded : s.blockSteps geth block = .ok steps) (hash : Hash) :
    (s.processBlock geth block).1.db (receiptKey hash) = s.db (receiptKey hash) ∨
      ∃ t, geth.sender t ≠ none ∧ hash = geth.txHash t := by
  by_cases posts : ∃ step ∈ steps, geth.txHash step.t = hash
  · obtain ⟨step, member, rfl⟩ := posts
    obtain ⟨txBytes, read⟩ := (txSteps_sound pool codec trie folded step member).read
    obtain ⟨recovered, -⟩ := asMessage_some (readMessage_ok read).2
    exact Or.inr ⟨step.t, by rw [recovered]; exact Option.some_ne_none _, rfl⟩
  · exact Or.inl (processBlock_receipt_other pool codec trie fresh folded fun step member same =>
      posts ⟨step, member, same⟩)

/-- An accepted operation keeps what it needs. -/
theorem operate_kept (pool : geth.PoolLaws) (codec : geth.CodecLaws) (trie : geth.TrieLaws)
    (s : State World) (operation : Operation) (kept : Kept geth s)
    (accepted : Accepts geth s operation) : Kept geth (s.operate geth operation).1 := by
  obtain ⟨root, done⟩ := Outcome.isOk_iff.mp accepted
  cases operation with
  | createAccounts accounts =>
    refine ⟨State.createAccounts_fresh done, fun hash found => kept.receipts hash ?_⟩
    rwa [← (createAccounts_commits codec trie kept.fresh done).2 hash]
  | processBlock block =>
    refine ⟨State.processBlock_fresh done, fun hash found => ?_⟩
    obtain ⟨steps, folded⟩ := (processBlock_accepted_iff pool codec trie kept.fresh).mp ⟨root, done⟩
    rcases processBlock_receipts pool codec trie kept.fresh folded hash with same | posted
    · exact kept.receipts hash (same ▸ found)
    · exact posted

/-- The receipt of the empty transaction is never there. -/
theorem kept_missing (apart : geth.SignedApart) (kept : Kept geth s) :
    s.db (receiptKey (geth.txHash .empty)) = none := by
  by_contra found
  obtain ⟨t, signed, same⟩ := kept.receipts _ found
  exact apart t signed same.symm

/-- Genesis accounts leave a head without a receipt. -/
theorem createAccounts_headRoot (codec : geth.CodecLaws) (trie : geth.TrieLaws)
    (apart : geth.SignedApart) (kept : Kept geth s) {accounts : AccountMap} {root : Hash}
    (accepted : (s.createAccounts geth accounts).2 = .ok root) :
    headRoot geth (s.createAccounts geth accounts).1.db = .error .notFound := by
  obtain ⟨head, receipts⟩ := createAccounts_commits codec trie kept.fresh accepted
  refine headRoot_missing head ?_
  rw [receipts, kept_missing apart kept]

/-- So does an empty block. -/
theorem emptyBlock_headRoot (pool : geth.PoolLaws) (codec : geth.CodecLaws)
    (trie : geth.TrieLaws) (apart : geth.SignedApart) (kept : Kept geth s) {block : Block}
    (empty : block.transactions = []) :
    headRoot geth (s.processBlock geth block).1.db = .error .notFound := by
  have folded : s.blockSteps geth block = .ok [] := by
    unfold State.blockSteps
    rw [empty]
    rfl
  have head : (s.processBlock geth block).1.db headTxKey = some (geth.txHash .empty).bytes := by
    rw [processBlock_steps pool codec trie kept.fresh folded]
    exact commit_head
  refine headRoot_missing head ?_
  rcases processBlock_receipts pool codec trie kept.fresh folded (geth.txHash .empty) with
    same | ⟨t, signed, same⟩
  · rw [same, kept_missing apart kept]
  · exact absurd same.symm (apart t signed)

/-- A block with transactions leaves the way to its root: the head, its receipt, the post state. -/
theorem block_headRoot (pool : geth.PoolLaws) (codec : geth.CodecLaws) (trie : geth.TrieLaws)
    (fresh : s.was = .fresh s.statedb) {block : Block} {root : Hash}
    (filled : block.transactions ≠ []) (accepted : (s.processBlock geth block).2 = .ok root) :
    headRoot geth (s.processBlock geth block).1.db = .ok root ∧
      root = geth.root (s.processBlock geth block).1.statedb.accounts := by
  obtain ⟨steps, folded⟩ := (processBlock_accepted_iff pool codec trie fresh).mp ⟨root, accepted⟩
  have nonempty : steps ≠ [] := fun blank => filled (List.length_eq_zero_iff.mp (by
    rw [← txSteps_length folded, blank]
    rfl))
  have settles := settled pool codec trie fresh folded
  have same : root = geth.root (s.processBlock geth block).1.statedb.accounts :=
    Outcome.ok.inj (accepted.symm.trans settles.root)
  obtain ⟨before, last, rfl⟩ := List.eq_nil_or_concat steps |>.resolve_left nonempty
  rw [List.concat_eq_append] at folded settles nonempty
  obtain ⟨receipt, found, -, -, -, post, -⟩ :=
    (posted pool codec trie fresh folded fun _ member => absurd member List.not_mem_nil).receipt
  have accounts : (s.processBlock geth block).1.statedb.accounts = last.accounts := by
    rw [settles.last nonempty, lastAccounts_append]
    rfl
  refine ⟨headRoot_receipt (settles.head last (by simp)) found ?_, same⟩
  rw [post, same, accounts]

end Commits

/-! ### Runs -/

/-- The committed root can be opened again in the database. -/
def Reopens (s : State World) : Prop :=
  geth.openState s.db (geth.root s.statedb.accounts) = some s.statedb.accounts

instance [DecidableEq World] (s : State World) : Decidable (Reopens geth s) :=
  inferInstanceAs (Decidable (_ = _))

/-- The property of a restart after some operations: it succeeds, with the committed account state and
the root of the last commit. -/
def RestartRecovers (s : State World) (operations : List Operation) : Prop :=
  ∃ recovered, newState geth (run (State.operate geth) s operations).1.db = .ok recovered ∧
    recovered.statedb.accounts = (run (State.operate geth) s operations).1.statedb.accounts ∧
    ∀ root, (run (State.operate geth) s operations).2.getLast? = some (.ok root) →
      geth.root recovered.statedb.accounts = root

variable {geth}

theorem newState_kept {s : State World} (opened : newState geth Store.empty = .ok s) : Kept geth s := by
  obtain ⟨db, fresh⟩ := newState_fresh opened
  exact ⟨fresh, fun hash found => absurd (by rw [db]; rfl) found⟩

/-- **A restart recovers the committed state** exactly when nothing was committed or the last commit
was a block with transactions. -/
theorem restart_recovers_iff (pool : geth.PoolLaws) (codec : geth.CodecLaws)
    (trie : geth.TrieLaws) (apart : geth.SignedApart) {s : State World}
    (opened : newState geth Store.empty = .ok s) (operations : List Operation)
    (accepted : Along (State.operate geth) (Accepts geth) s operations)
    (reopens : Reopens geth (run (State.operate geth) s operations).1) :
    RestartRecovers geth s operations ↔
      operations = [] ∨ ∃ before block, operations = before ++ [.processBlock block] ∧
        block.transactions ≠ [] := by
  rcases List.eq_nil_or_concat operations with rfl | ⟨before, last, rfl⟩
  · refine iff_of_true ⟨s, ?_, rfl, nofun⟩ (Or.inl rfl)
    rw [run_nil, (newState_fresh opened).1, opened]
  rw [List.concat_eq_append] at accepted reopens ⊢
  obtain ⟨earlier, final, -⟩ := (along_append _).mp accepted
  have kept := run_invariant (State.operate geth) (Kept geth) (operate_kept pool codec trie)
    (newState_kept opened) earlier
  unfold RestartRecovers
  rw [run_append, run_cons, run_nil] at reopens ⊢
  generalize (run (State.operate geth) s before).1 = here at kept final reopens
  obtain ⟨root, done⟩ := Outcome.isOk_iff.mp final
  simp only [List.append_eq_nil_iff, List.cons_ne_self, and_false, false_or]
  cases last with
  | createAccounts accounts =>
    refine iff_of_false ?_ ?_
    · rintro ⟨recovered, found, -⟩
      exact nomatch (newState_error (createAccounts_headRoot codec trie apart kept done)).symm.trans
        found
    · rintro ⟨_, block, same, -⟩
      exact nomatch (List.append_inj' same rfl).2
  | processBlock block =>
    by_cases empty : block.transactions = []
    · refine iff_of_false ?_ ?_
      · rintro ⟨recovered, found, -⟩
        exact nomatch (newState_error
          (emptyBlock_headRoot pool codec trie apart kept empty)).symm.trans found
      · rintro ⟨_, other, same, filled⟩
        cases (List.append_inj' same rfl).2
        exact filled empty
    · refine iff_of_true ?_ ⟨before, block, rfl, empty⟩
      obtain ⟨headed, same⟩ := block_headRoot pool codec trie kept.fresh empty done
      rw [same] at headed
      refine ⟨_, newState_ok headed reopens, rfl, fun answer answered => ?_⟩
      rw [List.getLast?_append_of_ne_nil _ (List.cons_ne_nil _ _)] at answered
      obtain rfl := Outcome.ok.inj (done.symm.trans (Option.some.inj answered))
      exact same.symm

/-! ### Restarts of the small chain -/

namespace Sample

theorem signedApart : Sample.geth.SignedApart := txHash_signed

/-- The node cannot be opened again after its genesis accounts. -/
theorem genesis_not_recovered :
    Along (State.operate Sample.geth) (Accepts Sample.geth) blank [.createAccounts genesis] ∧
      Reopens Sample.geth (run (State.operate Sample.geth) blank [.createAccounts genesis]).1 ∧
      ¬ RestartRecovers Sample.geth blank [.createAccounts genesis] := by
  refine ⟨by decide +kernel, by decide +kernel, ?_⟩
  rintro ⟨recovered, found, -⟩
  have stopped : (newState Sample.geth
      (run (State.operate Sample.geth) blank [.createAccounts genesis]).1.db).isOk = false := by
    decide +kernel
  rw [found] at stopped
  cases stopped

theorem payment_recovered :
    RestartRecovers Sample.geth blank [.createAccounts genesis, .processBlock payment] :=
  (restart_recovers_iff poolLaws codecLaws trieLaws signedApart newState_empty
    [.createAccounts genesis, .processBlock payment]
    (by decide +kernel) (by decide +kernel)).mpr
    (Or.inr ⟨[.createAccounts genesis], payment, rfl, by decide⟩)

end Sample

end EvmBabble
