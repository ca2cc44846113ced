/-
How consensus cuts the transactions into blocks.

A block reads the account state and a gas pool; its hash reaches the context of a message only through
GetHash, which block number 0 keeps out of reach, and its pool is new with every block. So the fold of
a list of transactions splits anywhere, and goes on with a larger pool as with a smaller one that
was enough.

* `txSteps_append` — the fold over two lists is the fold over one, then over the other.
* `txSteps_shift` — a fold on another block hash and another pool that is enough takes the same steps.
* `cuts_agree` — one block and the same transactions in two blocks: what each accepts, the same ledger
  and receipts that tell the same.
-/

import EvmBabble.State.Crash
import EvmBabble.State.ReadOnly

namespace EvmBabble

open Library

variable {World : Type} (geth : Geth World)

/-! ### The property -/

/-- A state that `resetWAS` has just reset: one that was just opened, or just committed. -/
def FreshlyReset (s : State World) : Prop :=
  (∃ db, newState geth db = .ok s) ∨ ∃ before root, State.commit geth before = (s, .ok root)

/-- What two nodes have to agree on after the same transactions: the account state, and for each
transaction the record and the receipt, but for what the receipt says of its block. -/
structure SameLedger (one two : State World) (transactions : List Bytes) : Prop where
  accounts : one.statedb.accounts = two.statedb.accounts
  transaction : ∀ txBytes ∈ transactions, ∀ t, geth.rlpDecode txBytes = some t →
    ∃ found, getTransaction geth one.db (geth.txHash t) = .ok found ∧
      getTransaction geth two.db (geth.txHash t) = .ok found
  receipt : ∀ txBytes ∈ transactions, ∀ t, geth.rlpDecode txBytes = some t →
    ∃ first second, getReceipt geth one.db (geth.txHash t) = .ok first ∧
      getReceipt geth two.db (geth.txHash t) = .ok second ∧
      first.postState = second.postState ∧ first.failed = second.failed ∧
      first.gasUsed = second.gasUsed ∧ first.contractAddress = second.contractAddress

/-- What a receipt tells of its transaction, in whatever block it is. -/
def Receipt.told (receipt : Receipt) : Hash × Bytes × Bool × Int × Address :=
  (receipt.txHash, receipt.postState, receipt.failed, receipt.gasUsed, receipt.contractAddress)

/-- The receipts a block makes, before they are stored. -/
def State.receiptsMade (s : State World) (block : Block) : List Receipt :=
  (s.applyBlock geth block).1.receipts

/-- A block is accepted. -/
def Accepted (s : State World) (block : Block) : Prop := ∃ root, (s.processBlock geth block).2 = .ok root

/-- The property of a cut: the whole block is accepted only if the two parts are, and if the pool covers
all of it also if they are; and then the last root, the ledger and what the receipts tell are the
same. -/
def CutsAgree (s : State World) (whole first second : Block) : Prop :=
  (Accepted geth s whole →
      Accepted geth s first ∧ Accepted geth (s.processBlock geth first).1 second) ∧
    (totalGas geth whole.transactions ≤ gasLimit → Accepted geth s first →
      Accepted geth (s.processBlock geth first).1 second → Accepted geth s whole) ∧
    (Accepted geth s whole →
      (s.processBlock geth whole).2 = ((s.processBlock geth first).1.processBlock geth second).2 ∧
        SameLedger geth (s.processBlock geth whole).1
          ((s.processBlock geth first).1.processBlock geth second).1 whole.transactions ∧
        (s.receiptsMade geth whole).map Receipt.told = (s.receiptsMade geth first ++
          (s.processBlock geth first).1.receiptsMade geth second).map Receipt.told)

section Reset

variable {geth} {s : State World}

theorem FreshlyReset.fresh (reset : FreshlyReset geth s) : s.was = .fresh s.statedb := by
  rcases reset with ⟨db, opened⟩ | ⟨before, root, committed⟩
  · exact (newState_fresh opened).2
  · have done : (before.commit geth).2 = .ok root := by rw [committed]
    have fresh := State.commit_fresh done
    rwa [committed] at fresh

/-- Such a state holds no account that a commit would remove. -/
theorem FreshlyReset.finalised (trie : geth.TrieLaws) (opens : geth.OpenLaws)
    (reset : FreshlyReset geth s) : geth.finalise s.statedb.accounts = s.statedb.accounts := by
  rcases reset with ⟨db, opened⟩ | ⟨before, root, committed⟩
  · obtain ⟨root, accounts, -, found, rfl⟩ := newState_some opened
    exact opens.open_finalised _ _ _ found
  · have accounts : (before.commit geth).1.was.ethState.accounts =
        geth.finalise before.was.ethState.accounts := State.commit_accounts
    have done : (before.commit geth).2 = .ok root := by rw [committed]
    rw [State.commit_fresh done, committed] at accounts
    change s.statedb.accounts = _ at accounts
    rw [accounts, trie.finalise_finalise]

end Reset

/-! ### Folds on other pools -/

/-- A step with another pool after it. -/
def TxStep.shift (amount : Int) (step : TxStep World) : TxStep World :=
  { step with pool := step.pool + amount }

/-- The pool after the steps of a fold. -/
def lastPool (pool : Int) : List (TxStep World) → Int
  | [] => pool
  | step :: steps => lastPool step.pool steps

section Folds

variable {geth} {blockHash : Hash} {accounts : World} {pool : Int} {txBytes : Bytes}
  {step : TxStep World} {transactions : List Bytes} {steps : List (TxStep World)}

/-- The hash of the block does not reach a message. -/
theorem execute_blockHash (hash : geth.HashLaws) (message : Message) (accounts : World) (pool : Int)
    (one two : Hash) : geth.execute (transactionContext message one) message accounts pool =
      geth.execute (transactionContext message two) message accounts pool := by
  have fields : (transactionContext message one).field = (transactionContext message two).field := by
    funext field
    cases field <;> rfl
  unfold Geth.execute
  rw [fields]
  exact congrArg Applied.ofRun (hash.unasked (transactionContext message two).toMessageContext
    message accounts pool (fun _ => one) (transactionContext message two).field (Or.inr rfl)).1

/-- A step was admitted: its gas limit fitted into the pool. -/
theorem txStep_admitted (admission : geth.AdmissionLaws)
    (stepped : geth.txStep blockHash accounts pool txBytes = .ok step) :
    gasOf geth txBytes ≤ pool := by
  obtain ⟨t, message, executed, read, finished, -⟩ := txStep_ok stepped
  rw [gasOf_read read]
  exact (admission.admitted finished).2.2.2

/-- A step takes something between nothing and its gas limit out of the pool. -/
theorem txStep_pool (pools : geth.PoolLaws) (codec : geth.CodecLaws)
    (stepped : geth.txStep blockHash accounts pool txBytes = .ok step) :
    pool - gasOf geth txBytes ≤ step.pool ∧ step.pool ≤ pool := by
  obtain ⟨t, message, executed, read, finished, rfl⟩ := txStep_ok stepped
  have taken := pools.success _ _ _ _ _ finished
  have bound := pools.bounds _ _ _ _ _ finished (gasLimit_nonneg codec read)
  rw [gasOf_read read]
  dsimp only
  rw [taken]
  omega

/-- A step on another block hash and another pool that is enough. -/
theorem txStep_shift (admission : geth.AdmissionLaws) (pools : geth.PoolLaws) (hash : geth.HashLaws)
    (other : Int) (otherHash : Hash)
    (stepped : geth.txStep blockHash accounts pool txBytes = .ok step)
    (enough : gasOf geth txBytes ≤ other) :
    geth.txStep otherHash accounts other txBytes = .ok (step.shift (other - pool)) := by
  have fits := txStep_admitted admission stepped
  obtain ⟨t, message, executed, read, finished, rfl⟩ := txStep_ok stepped
  rw [gasOf_read read] at fits enough
  unfold Geth.txStep
  rw [read]
  dsimp only
  rw [execute_blockHash hash message accounts other otherHash blockHash,
    pools.shift _ _ _ pool other fits enough]
  dsimp only
  rw [finished]
  rfl

/-- **A fold on another block hash and another pool** that is larger or covers all of it. -/
theorem txSteps_shift (admission : geth.AdmissionLaws) (pools : geth.PoolLaws)
    (codec : geth.CodecLaws) (hash : geth.HashLaws) (otherHash : Hash) (other : Int)
    (folded : geth.txSteps blockHash accounts pool transactions = .ok steps)
    (enough : pool ≤ other ∨ totalGas geth transactions ≤ other) :
    geth.txSteps otherHash accounts other transactions =
      .ok (steps.map (TxStep.shift (other - pool))) := by
  induction transactions generalizing accounts pool other steps with
  | nil =>
    cases folded
    rfl
  | cons txBytes rest ih =>
    obtain ⟨first, stepped, later⟩ := Outcome.bind_ok folded
    obtain ⟨others, tail, rfl⟩ := Outcome.map_ok later
    have fits := txStep_admitted admission stepped
    obtain ⟨low, high⟩ := txStep_pool pools codec stepped
    have sum : totalGas geth (txBytes :: rest) = gasOf geth txBytes + totalGas geth rest := by
      simp [totalGas]
    have remains := totalGas_nonneg codec rest
    have moved := txStep_shift admission pools hash other otherHash stepped
      (enough.elim (fun more => by omega) fun covered => by omega)
    have same : first.pool + (other - pool) - first.pool = other - pool := by omega
    have onward := ih (first.pool + (other - pool)) tail
      (enough.imp (fun more => by omega) fun covered => by omega)
    rw [same] at onward
    rw [Geth.txSteps, moved]
    show Outcome.map _ (geth.txSteps otherHash first.accounts (first.pool + (other - pool)) rest) = _
    rw [onward]
    rfl

/-- **The fold over two lists.** -/
theorem txSteps_append {one two : List Bytes} :
    geth.txSteps blockHash accounts pool (one ++ two) = .ok steps ↔
      ∃ first second, geth.txSteps blockHash accounts pool one = .ok first ∧
        geth.txSteps blockHash (lastAccounts accounts first) (lastPool pool first) two = .ok second ∧
          steps = first ++ second := by
  induction one generalizing accounts pool steps with
  | nil =>
    constructor
    · exact fun folded => ⟨[], steps, rfl, folded, rfl⟩
    · rintro ⟨first, second, nothing, folded, rfl⟩
      cases nothing
      exact folded
  | cons txBytes rest ih =>
    constructor
    · intro folded
      obtain ⟨head, stepped, later⟩ := Outcome.bind_ok folded
      obtain ⟨others, tail, rfl⟩ := Outcome.map_ok later
      obtain ⟨first, second, front, back, rfl⟩ := ih.mp tail
      refine ⟨head :: first, second, ?_, back, rfl⟩
      rw [Geth.txSteps, stepped]
      show Outcome.map _ (geth.txSteps blockHash head.accounts head.pool rest) = _
      rw [front]
      rfl
    · rintro ⟨first, second, front, back, rfl⟩
      obtain ⟨head, stepped, later⟩ := Outcome.bind_ok front
      obtain ⟨others, tail, rfl⟩ := Outcome.map_ok later
      have folded := ih.mpr ⟨others, second, tail, back, rfl⟩
      rw [List.cons_append, Geth.txSteps, stepped]
      show Outcome.map _ (geth.txSteps blockHash head.accounts head.pool (rest ++ two)) = _
      rw [folded]
      rfl

/-- The pool after a fold. -/
theorem lastPool_bounds (pools : geth.PoolLaws) (codec : geth.CodecLaws)
    (folded : geth.txSteps blockHash accounts pool transactions = .ok steps) :
    pool - totalGas geth transactions ≤ lastPool pool steps ∧ lastPool pool steps ≤ pool := by
  induction transactions generalizing accounts pool steps with
  | nil =>
    cases folded
    simp [lastPool, totalGas]
  | cons txBytes rest ih =>
    obtain ⟨first, stepped, later⟩ := Outcome.bind_ok folded
    obtain ⟨others, tail, rfl⟩ := Outcome.map_ok later
    obtain ⟨low, high⟩ := txStep_pool pools codec stepped
    have onward := ih tail
    have sum : totalGas geth (txBytes :: rest) = gasOf geth txBytes + totalGas geth rest := by
      simp [totalGas]
    rw [lastPool]
    omega

theorem shift_zero (steps : List (TxStep World)) : steps.map (TxStep.shift 0) = steps := by
  refine (List.map_congr_left fun step _ => ?_).trans (List.map_id steps)
  rw [TxStep.shift, Int.add_zero]
  rfl

theorem lastAccounts_shift (accounts : World) (amount : Int) (steps : List (TxStep World)) :
    lastAccounts accounts (steps.map (TxStep.shift amount)) = lastAccounts accounts steps := by
  induction steps generalizing accounts with
  | nil => rfl
  | cons step steps ih => exact ih step.accounts

end Folds

/-! ### Blocks -/

section Blocks

variable {geth} {s : State World} {whole first second : Block} {steps later : List (TxStep World)}

/-- A freshly reset state after an accepted block is fresh, on the last accounts of the fold. -/
theorem processBlock_last (pools : geth.PoolLaws) (codec : geth.CodecLaws) (trie : geth.TrieLaws)
    (fresh : s.was = .fresh s.statedb)
    (finalised : geth.finalise s.statedb.accounts = s.statedb.accounts)
    (folded : s.blockSteps geth first = .ok steps) :
    (s.processBlock geth first).1.was = .fresh (s.processBlock geth first).1.statedb ∧
      (s.processBlock geth first).1.statedb.accounts = lastAccounts s.statedb.accounts steps := by
  have settles := settled pools codec trie fresh folded
  refine ⟨settles.was, ?_⟩
  by_cases none : steps = []
  · rw [settles.accounts, none]
    exact finalised
  · exact settles.last none

/-- What the receipt of a step tells. -/
def TxStep.told (geth : Geth World) (step : TxStep World) : Hash × Bytes × Bool × Int × Address :=
  (makeReceipt geth step.t step.message (geth.root step.accounts) step.executed 0 []).told

/-- The receipts a block makes tell of its steps. -/
theorem receiptsMade_told {block : Block} (fresh : s.was = .fresh s.statedb)
    (folded : s.blockSteps geth block = .ok steps) :
    (s.receiptsMade geth block).map Receipt.told = steps.map (TxStep.told geth) := by
  have made : ∀ (was : WriteAheadState World) (blockHash : Hash) (txIndex : Nat),
      (was.made geth blockHash txIndex steps).map Receipt.told = steps.map (TxStep.told geth) := by
    clear folded
    induction steps with
    | nil => exact fun _ _ _ => rfl
    | cons step steps ih => exact fun was _ txIndex => congrArg (_ :: ·) (ih _ _ _)
  rw [State.receiptsMade, (applyBlock_steps geth block fresh).2 steps folded, State.blockWas,
    takeSteps_receipts, WriteAheadState.fresh, List.nil_append, made]

/-- What two databases hold alike for the transactions with a hash. -/
def PostedAlike (geth : Geth World) (one two : Database) (hash : Hash) : Prop :=
  (∃ found, getTransaction geth one hash = .ok found ∧ getTransaction geth two hash = .ok found) ∧
    ∃ first second, getReceipt geth one hash = .ok first ∧ getReceipt geth two hash = .ok second ∧
      first.postState = second.postState ∧ first.failed = second.failed ∧
      first.gasUsed = second.gasUsed ∧ first.contractAddress = second.contractAddress

/-- A step that is the last one with its hash in the whole block and in the second part. -/
theorem posted_second (pools : geth.PoolLaws) (codec : geth.CodecLaws) (trie : geth.TrieLaws)
    {next : State World} (fresh : s.was = .fresh s.statedb) (nextFresh : next.was = .fresh next.statedb)
    {before middle after : List (TxStep World)} {step : TxStep World} (amount : Int)
    (all : s.blockSteps geth whole = .ok (before ++ (middle ++ step :: after)))
    (part : next.blockSteps geth second =
      .ok ((middle ++ step :: after).map (TxStep.shift amount)))
    (last : ∀ later ∈ after, geth.txHash later.t ≠ geth.txHash step.t) :
    PostedAlike geth (s.processBlock geth whole).1.db (next.processBlock geth second).1.db
      (geth.txHash step.t) := by
  rw [← List.append_assoc] at all
  rw [List.map_append, List.map_cons] at part
  obtain ⟨-, found, read⟩ := step_stored pools codec trie fresh all last
  obtain ⟨-, foundPart, readPart⟩ := step_stored pools codec trie nextFresh part
    fun later member => by
      obtain ⟨other, inside, rfl⟩ := List.mem_map.mp member
      exact last other inside
  obtain ⟨txBytes, decoded⟩ := (txSteps_sound pools codec trie all step (by simp)).read
  exact ⟨⟨step.t, getTransaction_stored codec (readMessage_ok decoded).1 found,
      getTransaction_stored codec (readMessage_ok decoded).1 foundPart⟩,
    _, _, read, readPart, rfl, rfl, rfl, rfl⟩

/-- A step that is the last one with its hash in the whole block and in the first part. -/
theorem posted_first (pools : geth.PoolLaws) (codec : geth.CodecLaws) (trie : geth.TrieLaws)
    (fresh : s.was = .fresh s.statedb)
    (nextFresh : (s.processBlock geth first).1.was = .fresh (s.processBlock geth first).1.statedb)
    (one : OneValue (s.processBlock geth first).1.db
      (((s.processBlock geth first).1.blockWrites geth second).flatMap Write.records))
    {before after : List (TxStep World)} {step : TxStep World}
    {rest others : List (TxStep World)}
    (all : s.blockSteps geth whole = .ok (before ++ step :: after ++ rest))
    (part : s.blockSteps geth first = .ok (before ++ step :: after))
    (next : (s.processBlock geth first).1.blockSteps geth second = .ok others)
    (last : ∀ later ∈ after, geth.txHash later.t ≠ geth.txHash step.t)
    (lastRest : ∀ later ∈ rest, geth.txHash later.t ≠ geth.txHash step.t)
    (lastOthers : ∀ later ∈ others, geth.txHash later.t ≠ geth.txHash step.t) :
    PostedAlike geth (s.processBlock geth whole).1.db
      ((s.processBlock geth first).1.processBlock geth second).1.db (geth.txHash step.t) := by
  rw [List.append_assoc, List.cons_append] at all
  obtain ⟨-, found, read⟩ := step_stored pools codec trie fresh all fun later member =>
    (List.mem_append.mp member).elim (last later) (lastRest later)
  obtain ⟨-, foundPart, readPart⟩ := step_stored pools codec trie fresh part last
  obtain ⟨txBytes, decoded⟩ := (txSteps_sound pools codec trie all step (by simp)).read
  have kept := processBlock_keeps pools codec trie nextFresh next one _
    (transactionKey_length (geth.txHash step.t)) _ foundPart
  have receipt := processBlock_receipt_other pools codec trie nextFresh next lastOthers
  exact ⟨⟨step.t, getTransaction_stored codec (readMessage_ok decoded).1 found,
      getTransaction_stored codec (readMessage_ok decoded).1 kept⟩,
    _, _, read, (getReceipt_congr receipt).trans readPart, rfl, rfl, rfl, rfl⟩

/-- **The cut does not show in the ledger.** -/
theorem cut_same (pools : geth.PoolLaws) (codec : geth.CodecLaws)
    (trie : geth.TrieLaws) (fresh : s.was = .fresh s.statedb)
    (nextFresh : (s.processBlock geth first).1.was = .fresh (s.processBlock geth first).1.statedb)
    (one : OneValue (s.processBlock geth first).1.db
      (((s.processBlock geth first).1.blockWrites geth second).flatMap Write.records))
    {amount : Int} (all : s.blockSteps geth whole = .ok (steps ++ later))
    (part : s.blockSteps geth first = .ok steps)
    (next : (s.processBlock geth first).1.blockSteps geth second =
      .ok (later.map (TxStep.shift amount)))
    {txBytes : Bytes} (member : txBytes ∈ whole.transactions) {t : Transaction}
    (decoded : geth.rlpDecode txBytes = some t) :
    PostedAlike geth (s.processBlock geth whole).1.db
      ((s.processBlock geth first).1.processBlock geth second).1.db (geth.txHash t) := by
  have inside := List.mem_map_of_mem (f := geth.readMessage) member
  rw [txSteps_reads all] at inside
  obtain ⟨found, listed, read⟩ := List.mem_map.mp inside
  obtain rfl : found.t = t := Option.some.inj ((readMessage_ok read.symm).1.symm.trans decoded)
  by_cases again : ∃ step ∈ later, geth.txHash step.t = geth.txHash found.t
  · obtain ⟨middle, step, after, rfl, same, last⟩ := Store.exists_last _ again
    rw [← same]
    exact posted_second pools codec trie fresh nextFresh amount all next fun other inside =>
      same ▸ last other inside
  · have here : found ∈ steps := (List.mem_append.mp listed).resolve_right fun inside =>
      again ⟨found, inside, rfl⟩
    obtain ⟨before, step, after, rfl, same, last⟩ :=
      Store.exists_last (fun step : TxStep World => geth.txHash step.t = geth.txHash found.t)
        ⟨found, here, rfl⟩
    rw [← same]
    refine posted_first pools codec trie fresh nextFresh one all part next
      (fun other inside => same ▸ last other inside)
      (fun other inside equal => again ⟨other, inside, equal.trans same⟩) fun other inside equal => ?_
    obtain ⟨origin, from_, rfl⟩ := List.mem_map.mp inside
    exact again ⟨origin, from_, equal.trans same⟩

/-- The folds of the two parts, from that of the whole. -/
theorem blockSteps_cut (admission : geth.AdmissionLaws) (pools : geth.PoolLaws)
    (codec : geth.CodecLaws) (trie : geth.TrieLaws) (hash : geth.HashLaws)
    (fresh : s.was = .fresh s.statedb)
    (finalised : geth.finalise s.statedb.accounts = s.statedb.accounts)
    (cut : whole.transactions = first.transactions ++ second.transactions)
    {all : List (TxStep World)} (folded : s.blockSteps geth whole = .ok all) :
    ∃ steps later, all = steps ++ later ∧ s.blockSteps geth first = .ok steps ∧
      (s.processBlock geth first).1.blockSteps geth second =
        .ok (later.map (TxStep.shift (gasLimit - lastPool gasLimit steps))) := by
  unfold State.blockSteps at folded
  rw [cut] at folded
  obtain ⟨steps, later, front, back, rfl⟩ := txSteps_append.mp folded
  have moved := txSteps_shift admission pools codec hash (.ofBytes 32 first.hash) gasLimit front
    (Or.inl (Int.le_refl _))
  rw [Int.sub_self, shift_zero] at moved
  refine ⟨steps, later, rfl, moved, ?_⟩
  rw [State.blockSteps, (processBlock_last pools codec trie fresh finalised moved).2]
  exact txSteps_shift admission pools codec hash _ gasLimit back
    (Or.inl (lastPool_bounds pools codec front).2)

/-- The fold of the whole, from those of the parts: the pool that the first part leaves still covers
the second. -/
theorem blockSteps_join (admission : geth.AdmissionLaws) (pools : geth.PoolLaws)
    (codec : geth.CodecLaws) (hash : geth.HashLaws)
    (cut : whole.transactions = first.transactions ++ second.transactions)
    (covered : totalGas geth whole.transactions ≤ gasLimit)
    (accounts : (s.processBlock geth first).1.statedb.accounts =
      lastAccounts s.statedb.accounts steps)
    (front : s.blockSteps geth first = .ok steps)
    (back : (s.processBlock geth first).1.blockSteps geth second = .ok later) :
    s.blockSteps geth whole =
      .ok (steps ++ later.map (TxStep.shift (lastPool gasLimit steps - gasLimit))) := by
  have sum : totalGas geth whole.transactions =
      totalGas geth first.transactions + totalGas geth second.transactions := by
    rw [cut]
    simp [totalGas]
  have low := (lastPool_bounds pools codec front).1
  have moved := txSteps_shift admission pools codec hash (.ofBytes 32 whole.hash) gasLimit front
    (Or.inl (Int.le_refl _))
  have onward := txSteps_shift admission pools codec hash (.ofBytes 32 whole.hash)
    (lastPool gasLimit steps) back (Or.inr (by omega))
  rw [Int.sub_self, shift_zero] at moved
  rw [accounts] at onward
  rw [State.blockSteps, cut]
  exact txSteps_append.mpr ⟨_, _, moved, onward, rfl⟩

/-- **Consensus may cut the transactions anywhere.** -/
theorem cuts_agree (admission : geth.AdmissionLaws) (pools : geth.PoolLaws) (codec : geth.CodecLaws)
    (trie : geth.TrieLaws) (opens : geth.OpenLaws) (hash : geth.HashLaws)
    (reset : FreshlyReset geth s) (cut : whole.transactions = first.transactions ++ second.transactions)
    (one : OneValue (s.processBlock geth first).1.db
      (((s.processBlock geth first).1.blockWrites geth second).flatMap Write.records)) :
    CutsAgree geth s whole first second := by
  have fresh := reset.fresh
  have finalised := reset.finalised trie opens
  refine ⟨?_, ?_, ?_⟩
  · rintro accepted
    obtain ⟨all, folded⟩ := (processBlock_accepted_iff pools codec trie fresh).mp accepted
    obtain ⟨steps, later, -, front, back⟩ :=
      blockSteps_cut admission pools codec trie hash fresh finalised cut folded
    have nextFresh := (processBlock_last pools codec trie fresh finalised front).1
    exact ⟨(processBlock_accepted_iff pools codec trie fresh).mpr ⟨_, front⟩,
      (processBlock_accepted_iff pools codec trie nextFresh).mpr ⟨_, back⟩⟩
  · intro covered acceptedFirst acceptedSecond
    obtain ⟨steps, front⟩ := (processBlock_accepted_iff pools codec trie fresh).mp acceptedFirst
    obtain ⟨nextFresh, accounts⟩ := processBlock_last pools codec trie fresh finalised front
    obtain ⟨later, back⟩ := (processBlock_accepted_iff pools codec trie nextFresh).mp acceptedSecond
    exact (processBlock_accepted_iff pools codec trie fresh).mpr
      ⟨_, blockSteps_join admission pools codec hash cut covered accounts front back⟩
  · intro accepted
    obtain ⟨all, folded⟩ := (processBlock_accepted_iff pools codec trie fresh).mp accepted
    obtain ⟨steps, later, rfl, front, back⟩ :=
      blockSteps_cut admission pools codec trie hash fresh finalised cut folded
    obtain ⟨nextFresh, accounts⟩ := processBlock_last pools codec trie fresh finalised front
    have moved := processBlock_steps pools codec trie fresh folded
    have onward := processBlock_steps pools codec trie nextFresh back
    rw [accounts, lastAccounts_shift, ← lastAccounts_append] at onward
    have same : ∀ txBytes ∈ whole.transactions, ∀ t, geth.rlpDecode txBytes = some t →
        PostedAlike geth (s.processBlock geth whole).1.db
          ((s.processBlock geth first).1.processBlock geth second).1.db (geth.txHash t) :=
      fun txBytes member t decoded =>
        cut_same pools codec trie fresh nextFresh one folded front back member decoded
    refine ⟨by rw [moved, onward], ⟨by rw [moved, onward], fun txBytes member t decoded =>
      (same txBytes member t decoded).1, fun txBytes member t decoded =>
        (same txBytes member t decoded).2⟩, ?_⟩
    rw [List.map_append, receiptsMade_told fresh folded, receiptsMade_told fresh front,
      receiptsMade_told nextFresh back, List.map_append, List.map_map]
    rfl

end Blocks

/-! ### A cut of the small chain -/

namespace Sample

theorem started_reset : FreshlyReset Sample.geth started := by
  obtain ⟨root, done⟩ := Outcome.isOk_iff.mp (show
    (blank.createAccounts Sample.geth genesis).2.isOk = true by decide +kernel)
  obtain ⟨created, ran⟩ := State.createAccounts_accepted done
  refine Or.inr ⟨blank.withAccounts created, root, ?_⟩
  rw [State.createAccounts_ran ran] at done
  rw [started, State.createAccounts_ran ran]
  exact Prod.ext rfl done

/-- Two payments, in one block or in two. -/
theorem payments_cut : CutsAgree Sample.geth started
    (blockOf [signed 0 21000 bob 5, signed 1 21000 bob 7]) (blockOf [signed 0 21000 bob 5])
    ⟨[6], [encoded (signed 1 21000 bob 7)]⟩ :=
  cuts_agree admissionLaws poolLaws codecLaws trieLaws openLaws hashLaws started_reset rfl
    (by decide +kernel)

end Sample

end EvmBabble
