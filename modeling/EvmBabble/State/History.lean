/-
The history of a sender.

A rejected block leaves its first transactions in the write-ahead state, where the next commit takes them
along, and a restart goes back to the state after the last transaction of the last commit. Either way the
transactions of a sender that are committed stay in the order of their nonces, and the sender's nonce
stays above them: the nonce check admits a transaction at the sender's nonce only, and nothing lowers it
below the transactions that are recorded.

* `Recorded`, `Counted` — what every transaction of a block keeps, applied or not.
* `Chronicle` — a node's life with the transactions it has committed.
* `live_sound` — what every happening keeps.
* `never_applied_twice` — the committed transactions of a sender have increasing nonces below the
  sender's committed nonce, and different hashes.
-/

import EvmBabble.State.Genesis
import EvmBabble.State.Lifetime

namespace EvmBabble

open Library

variable {World : Type} (geth : Geth World)

/-! ### What the write-ahead state records -/

/-- The transactions of a sender. -/
def Geth.own (address : Address) (transactions : List Transaction) : List Transaction :=
  transactions.filter fun t => geth.sender t = some address

/-- The account state after the last transaction that was applied, through the loop of a block. -/
def Geth.lastWorld (blockHash : Hash) : World → WriteAheadState World → Nat → List Bytes → World
  | last, _, _, [] => last
  | last, was, txIndex, txBytes :: rest =>
    match applyTransaction geth was txBytes txIndex blockHash with
    | (next, .ok ()) => lastWorld blockHash next.ethState.accounts next (txIndex + 1) rest
    | (_, .error _) => last
    | (_, .panic) => last

/-- The transactions of a write-ahead state are signed and have receipts, all can be encoded, and the
last receipt posts the account state after it. -/
structure Recorded (was : WriteAheadState World) (last : World) : Prop where
  encodable : was.Encodable geth
  signed : ∀ t ∈ was.transactions, geth.sender t ≠ none
  hashes : was.receipts.map Receipt.txHash = was.transactions.map geth.txHash
  used : 0 ≤ was.totalUsedGas
  posted : ∀ receipt, was.receipts.getLast? = some receipt →
    receipt.postState = (geth.root last).bytes

/-- An account without code whose nonce is above those of a sender's transactions. -/
def Above (address : Address) (transactions : List Transaction) (accounts : World) (nonce : Nat) : Prop :=
  geth.Holds accounts address nonce ∧ ∀ t ∈ geth.own address transactions, t.nonce < nonce

/-- The transactions of a sender, those committed before and those recorded since, are in the order of
their nonces, the sender's nonce was above them after the last of them, and it has not fallen. -/
structure Counted (address : Address) (before : List Transaction) (was : WriteAheadState World)
    (last : World) : Prop where
  ordered : (geth.own address (before ++ was.transactions)).Pairwise
    fun earlier later => earlier.nonce < later.nonce
  bounds : ∃ low high, Above geth address (before ++ was.transactions) last low ∧
    geth.Holds was.ethState.accounts address high ∧ low ≤ high

section Loop

variable {geth} {blockHash : Hash} {was : WriteAheadState World} {last : World} {txIndex : Nat}

theorem own_append (address : Address) (first second : List Transaction) :
    geth.own address (first ++ second) = geth.own address first ++ geth.own address second :=
  List.filter_append ..

theorem mem_own {address : Address} {transactions : List Transaction} {t : Transaction} :
    t ∈ geth.own address transactions ↔ t ∈ transactions ∧ geth.sender t = some address := by
  rw [Geth.own, List.mem_filter, decide_eq_true_iff]

/-- What a transaction keeps, whether it is applied or not, the loop of a block keeps. -/
theorem applyTransactions_last (holds : WriteAheadState World → World → Prop)
    (applied : ∀ was last txBytes txIndex, holds was last →
      (applyTransaction geth was txBytes txIndex blockHash).2 = .ok () →
        holds (applyTransaction geth was txBytes txIndex blockHash).1
          (applyTransaction geth was txBytes txIndex blockHash).1.ethState.accounts)
    (stopped : ∀ was last txBytes txIndex, holds was last →
      (applyTransaction geth was txBytes txIndex blockHash).2 ≠ .ok () →
        holds (applyTransaction geth was txBytes txIndex blockHash).1 last)
    (transactions : List Bytes) (start : holds was last) :
    holds (applyTransactions geth blockHash was txIndex transactions).1
      (geth.lastWorld blockHash last was txIndex transactions) := by
  induction transactions generalizing was last txIndex with
  | nil => exact start
  | cons txBytes rest ih =>
    have goes := applied was last txBytes txIndex start
    have stops := stopped was last txBytes txIndex start
    rw [applyTransactions, Geth.lastWorld]
    rcases step : applyTransaction geth was txBytes txIndex blockHash with ⟨next, ⟨⟩ | failure | _⟩
    all_goals rw [step] at goes stops
    · exact ih (goes rfl)
    · exact stops (Outcome.error_ne_ok _ _)
    · exact stops (Outcome.panic_ne_ok _)

/-- A transaction that was applied: its message, and what was recorded of it. -/
theorem applyTransaction_ok {txBytes : Bytes}
    (done : (applyTransaction geth was txBytes txIndex blockHash).2 = .ok ()) :
    ∃ t message executed, geth.readMessage txBytes = .ok (t, message) ∧
      (was.runMessage geth t message txIndex blockHash).outcome = .ok executed ∧
      (applyTransaction geth was txBytes txIndex blockHash).1 =
        was.record geth t message (was.runMessage geth t message txIndex blockHash) executed := by
  cases read : geth.readMessage txBytes with
  | error failure =>
    rw [applyTransaction_unread read] at done
    cases done
  | ok found =>
    obtain ⟨t, message⟩ := found
    rcases applyTransaction_cases read with ⟨executed, finished, same⟩ | ⟨failed, -, outcome⟩
    · exact ⟨t, message, executed, rfl, finished, congrArg Prod.fst same⟩
    · rw [outcome] at done
      obtain ⟨executed, finished, -⟩ := Outcome.map_ok done
      exact absurd finished (failed executed)

/-- A transaction that was not applied: nothing but the state database of its message, if it was read,
and the pool are left of it. -/
theorem applyTransaction_stopped {txBytes : Bytes}
    (stopped : (applyTransaction geth was txBytes txIndex blockHash).2 ≠ .ok ()) :
    (applyTransaction geth was txBytes txIndex blockHash).1 = was ∨
      ∃ t message, geth.readMessage txBytes = .ok (t, message) ∧
        (∀ executed, (was.runMessage geth t message txIndex blockHash).outcome ≠ .ok executed) ∧
        (applyTransaction geth was txBytes txIndex blockHash).1 =
          { was with
            ethState := (was.runMessage geth t message txIndex blockHash).state
            gp := (was.runMessage geth t message txIndex blockHash).pool } := by
  cases read : geth.readMessage txBytes with
  | error failure => exact Or.inl (congrArg Prod.fst (applyTransaction_unread read))
  | ok found =>
    obtain ⟨t, message⟩ := found
    rcases applyTransaction_cases read with ⟨executed, finished, same⟩ | ⟨failed, left, -⟩
    · exact absurd (congrArg Prod.snd same) stopped
    · exact Or.inr ⟨t, message, rfl, failed, left⟩

/-! ### A transaction -/

theorem applied_recorded (pool : geth.PoolLaws) (codec : geth.CodecLaws)
    (recorded : Recorded geth was last) {txBytes : Bytes}
    (done : (applyTransaction geth was txBytes txIndex blockHash).2 = .ok ()) :
    Recorded geth (applyTransaction geth was txBytes txIndex blockHash).1
      (applyTransaction geth was txBytes txIndex blockHash).1.ethState.accounts := by
  obtain ⟨t, message, executed, read, finished, left⟩ := applyTransaction_ok done
  obtain ⟨decoded, converted⟩ := readMessage_ok read
  obtain ⟨sender, -⟩ := asMessage_some converted
  have used := (pool.bounds _ _ _ _ _ finished (gasLimit_nonneg codec read)).1
  have total := Int.add_nonneg recorded.used used
  rw [left]
  refine ⟨⟨?_, ?_⟩, ?_, ?_, total, ?_⟩
  · intro other member
    rcases List.mem_append.mp member with old | new
    · exact recorded.encodable.transactions other old
    · rw [List.mem_singleton.mp new]
      exact (canonical_read codec decoded).1
  · intro receipt member
    rcases List.mem_append.mp member with old | new
    · exact recorded.encodable.receipts receipt old
    · rw [List.mem_singleton.mp new]
      exact ⟨total, used, FixedBytes.length_eq _⟩
  · intro other member
    rcases List.mem_append.mp member with old | new
    · exact recorded.signed other old
    · rw [List.mem_singleton.mp new, sender]
      exact Option.some_ne_none _
  · show List.map _ (_ ++ [_]) = List.map _ (_ ++ [_])
    rw [List.map_append, List.map_append, recorded.hashes]
    rfl
  · intro receipt final
    have same : receipt ∈ (was.receipts ++ [_]).getLast? := final
    rw [List.getLast?_concat] at same
    rw [← Option.some.inj same]
    rfl

theorem stopped_recorded (recorded : Recorded geth was last) {txBytes : Bytes}
    (stopped : (applyTransaction geth was txBytes txIndex blockHash).2 ≠ .ok ()) :
    Recorded geth (applyTransaction geth was txBytes txIndex blockHash).1 last := by
  rcases applyTransaction_stopped stopped with same | ⟨t, message, -, -, left⟩
  · rw [same]
    exact recorded
  · rw [left]
    exact ⟨⟨recorded.encodable.transactions, recorded.encodable.receipts⟩, recorded.signed,
      recorded.hashes, recorded.used, recorded.posted⟩

/-- **Every transaction of a block keeps the records.** -/
theorem applyTransactions_recorded (pool : geth.PoolLaws) (codec : geth.CodecLaws)
    (transactions : List Bytes) (recorded : Recorded geth was last) :
    Recorded geth (applyTransactions geth blockHash was txIndex transactions).1
      (geth.lastWorld blockHash last was txIndex transactions) :=
  applyTransactions_last (Recorded geth)
    (fun _ _ _ _ recorded done => applied_recorded pool codec recorded done)
    (fun _ _ _ _ recorded stopped => stopped_recorded recorded stopped) transactions recorded

/-- A message that ends well was sent at the nonce of its sender's account. -/
theorem runMessage_nonce (admission : geth.AdmissionLaws) {txBytes : Bytes} {t : Transaction}
    {message : Message} {executed : Executed} {nonce : Nat}
    (read : geth.readMessage txBytes = .ok (t, message))
    (finished : (was.runMessage geth t message txIndex blockHash).outcome = .ok executed)
    (holds : geth.Holds was.ethState.accounts message.sender nonce) : t.nonce = nonce := by
  obtain ⟨-, -, same, -, -, -, -, checks⟩ := asMessage_some (readMessage_ok read).2
  rw [WriteAheadState.runMessage, Geth.applyMessage_outcome, StateDB.prepare_accounts] at finished
  rw [← same, ← (admission.admitted finished).1 checks, holds.1]

/-- One more transaction of a sender. -/
theorem own_concat {address : Address} {transactions : List Transaction} {t : Transaction}
    (sender : geth.sender t = some address) :
    geth.own address (transactions ++ [t]) = geth.own address transactions ++ [t] := by
  rw [own_append, Geth.own, Geth.own, List.filter_cons_of_pos (by simpa using sender),
    List.filter_nil]

/-- And one of somebody else. -/
theorem own_concat_other {address : Address} {transactions : List Transaction} {t : Transaction}
    (other : geth.sender t ≠ some address) :
    geth.own address (transactions ++ [t]) = geth.own address transactions := by
  rw [own_append, Geth.own, Geth.own, List.filter_cons_of_neg (by simpa using other),
    List.filter_nil, List.append_nil]

theorem applied_counted {address : Address} {before : List Transaction}
    (admission : geth.AdmissionLaws) (steady : geth.SteadyLaws (· = address))
    (counted : Counted geth address before was last) {txBytes : Bytes}
    (done : (applyTransaction geth was txBytes txIndex blockHash).2 = .ok ()) :
    Counted geth address before (applyTransaction geth was txBytes txIndex blockHash).1
      (applyTransaction geth was txBytes txIndex blockHash).1.ethState.accounts := by
  obtain ⟨ordered, low, high, ⟨-, below⟩, holds, le⟩ := counted
  obtain ⟨t, message, executed, read, finished, left⟩ := applyTransaction_ok done
  have sender := (asMessage_some (readMessage_ok read).2).1
  have recorded : before ++ (was.record geth t message
      (was.runMessage geth t message txIndex blockHash) executed).transactions =
        (before ++ was.transactions) ++ [t] := (List.append_assoc _ _ _).symm
  have accounts : (was.record geth t message (was.runMessage geth t message txIndex blockHash)
      executed).ethState.accounts = geth.finalise (geth.execute
        (transactionContext message blockHash) message was.ethState.accounts was.gp).state := by
    show geth.finalise (geth.applyMessage _ _ _ _).state.accounts = _
    rw [Geth.applyMessage_accounts, StateDB.prepare_accounts]
  rw [left]
  by_cases own : message.sender = address
  · subst own
    have nonce := runMessage_nonce admission read finished holds
    rw [WriteAheadState.runMessage, Geth.applyMessage_outcome, StateDB.prepare_accounts] at finished
    have above := steady.finalised _ _ _ rfl (steady.counted _ _ _ _ _ _ rfl holds finished)
    constructor
    · rw [recorded, own_concat sender, List.pairwise_append]
      refine ⟨ordered, List.pairwise_singleton _ _, fun earlier member later inside => ?_⟩
      rw [List.mem_singleton.mp inside, nonce]
      exact Nat.lt_of_lt_of_le (below earlier member) le
    · refine ⟨high + 1, high + 1, ⟨accounts ▸ above, fun other member => ?_⟩, accounts ▸ above,
        Nat.le_refl _⟩
      rw [recorded, own_concat sender] at member
      rcases List.mem_append.mp member with old | new
      · have lower := below other old
        omega
      · rw [List.mem_singleton.mp new, nonce]
        exact Nat.lt_succ_self high
  · have other : geth.sender t ≠ some address := by
      rw [sender]
      exact fun same => own (Option.some.inj same)
    have kept := steady.finalised _ _ _ rfl (steady.others (transactionContext message blockHash)
      message was.ethState.accounts was.gp address high rfl (Ne.symm own) holds)
    constructor
    · rw [recorded, own_concat_other other]
      exact ordered
    · refine ⟨high, high, ⟨accounts ▸ kept, fun later member => ?_⟩, accounts ▸ kept, Nat.le_refl _⟩
      rw [recorded, own_concat_other other] at member
      exact Nat.lt_of_lt_of_le (below later member) le

theorem stopped_counted {address : Address} {before : List Transaction}
    (steady : geth.SteadyLaws (· = address)) (counted : Counted geth address before was last)
    {txBytes : Bytes} (stopped : (applyTransaction geth was txBytes txIndex blockHash).2 ≠ .ok ()) :
    Counted geth address before (applyTransaction geth was txBytes txIndex blockHash).1 last := by
  obtain ⟨ordered, low, high, above, holds, le⟩ := counted
  rcases applyTransaction_stopped stopped with same | ⟨t, message, read, failed, left⟩
  · rw [same]
    exact ⟨ordered, low, high, above, holds, le⟩
  · have accounts : (was.runMessage geth t message txIndex blockHash).state.accounts =
        (geth.execute (transactionContext message blockHash) message was.ethState.accounts
          was.gp).state := by
      rw [WriteAheadState.runMessage, Geth.applyMessage_accounts, StateDB.prepare_accounts]
    rw [left]
    by_cases own : message.sender = address
    · subst own
      obtain ⟨later, more, kept⟩ := steady.failed (transactionContext message blockHash) message
        was.ethState.accounts was.gp high rfl holds failed
      exact ⟨ordered, low, later, above, accounts ▸ kept, Nat.le_trans le more⟩
    · have kept := steady.others (transactionContext message blockHash) message
        was.ethState.accounts was.gp address high rfl (Ne.symm own) holds
      exact ⟨ordered, low, high, above, accounts ▸ kept, le⟩

/-- **Every transaction of a block keeps a sender's transactions in order**, and its nonce above them. -/
theorem applyTransactions_counted {address : Address} {before : List Transaction}
    (admission : geth.AdmissionLaws) (steady : geth.SteadyLaws (· = address))
    (transactions : List Bytes) (counted : Counted geth address before was last) :
    Counted geth address before (applyTransactions geth blockHash was txIndex transactions).1
      (geth.lastWorld blockHash last was txIndex transactions) :=
  applyTransactions_last (Counted geth address before)
    (fun _ _ _ _ counted done => applied_counted admission steady counted done)
    (fun _ _ _ _ counted stopped => stopped_counted steady counted stopped) transactions counted

end Loop

/-! ### The chronicle of a node -/

/-- A node with the transactions it has committed, in the order in which they were applied, and the
account states after the last transaction that was applied and after the last one that was committed. -/
structure Chronicle (World : Type) where
  state : State World
  committed : List Transaction
  last : World
  head : World

namespace Chronicle

variable (c : Chronicle World)

def start (s : State World) : Chronicle World := ⟨s, [], s.statedb.accounts, s.statedb.accounts⟩

/-- The account state after the last transaction that was applied, once something happened. -/
def reached : Happening → World
  | .createAccounts _ => c.last
  | .block block => geth.lastWorld (.ofBytes 32 block.hash) c.last c.state.was 0 block.transactions
  | .call _ => c.last
  | .restart => if (c.state.reopen geth).2.isOk then c.head else c.last

/-- What happens, and what is committed by it: all that the write-ahead state records. -/
def live (happening : Happening) : Chronicle World × Outcome Unit :=
  let next := c.state.live geth happening
  let last := c.reached geth happening
  match c.state.committing geth happening, next.2 with
  | some was, .ok () =>
    ({ state := next.1, committed := c.committed ++ was.transactions, last,
       head := if was.transactions = [] then c.head else last }, next.2)
  | _, _ => ({ c with state := next.1, last }, next.2)

/-- The address has no code after genesis accounts, and a restart that opens the root after the last
committed transaction finds the accounts of that root. -/
def Faithful (address : Address) : Happening → Prop
  | .createAccounts accounts => (geth.account (createAccountsLoop geth c.state.was.ethState.accounts
      accounts).1 address).code = []
  | .block _ => True
  | .call _ => True
  | .restart => ∀ accounts, geth.openState c.state.db (geth.root c.head) = some accounts →
      geth.account accounts = geth.account c.head

/-- What holds of a chronicle: the write-ahead state is recorded and counted, the committed account
state and the one after the last committed transaction have the sender's nonce above its transactions,
receipts are of signed transactions, and the head of the database leads to the last committed
transaction, if it leads anywhere. -/
structure Sound (address : Address) : Prop where
  recorded : Recorded geth c.state.was c.last
  counted : Counted geth address c.committed c.state.was c.last
  settled : ∃ nonce, Above geth address c.committed c.state.statedb.accounts nonce
  headed : ∃ nonce, Above geth address c.committed c.head nonce
  posts : ∀ hash, c.state.db (receiptKey hash) ≠ none → ∃ t, geth.sender t ≠ none ∧ hash = geth.txHash t
  leads : ∀ root, headRoot geth c.state.db = .ok root →
    root = geth.root c.head ∨ root = default ∧ c.committed = [] ∧ geth.Holds c.head address 0

end Chronicle

section Chronicles

variable {geth} {c : Chronicle World} {address : Address}

/-- A fresh write-ahead state over an account state above a sender's transactions. -/
theorem fresh_counted {statedb : StateDB World} {before : List Transaction} {last : World}
    {low high : Nat} (ordered : (geth.own address before).Pairwise
      fun earlier later => earlier.nonce < later.nonce)
    (above : Above geth address before last low) (holds : geth.Holds statedb.accounts address high)
    (le : low ≤ high) : Counted geth address before (.fresh statedb) last := by
  constructor
  · show (geth.own address (before ++ [])).Pairwise _
    rwa [List.append_nil]
  · refine ⟨low, high, ?_, holds, le⟩
    show Above geth address (before ++ []) last low
    rwa [List.append_nil]

theorem fresh_recorded (statedb : StateDB World) (last : World) :
    Recorded geth (.fresh statedb) last :=
  ⟨⟨List.forall_mem_nil _, List.forall_mem_nil _⟩, List.forall_mem_nil _, rfl, Int.le_refl 0,
    fun receipt final => by cases final⟩

/-- The head after a commit leads to the root after the last transaction that was committed. -/
theorem commit_leads (codec : geth.CodecLaws) (trie : geth.TrieLaws) (apart : geth.SignedApart)
    {was : WriteAheadState World} {db : Database} {last : World} (recorded : Recorded geth was last)
    (posts : ∀ hash, db (receiptKey hash) ≠ none → ∃ t, geth.sender t ≠ none ∧ hash = geth.txHash t)
    {root : Hash} (headed : headRoot geth (was.stored geth db) = .ok root) :
    was.transactions ≠ [] ∧ root = geth.root last := by
  have head : was.stored geth db headTxKey = some (geth.txHash was.head).bytes := commit_head
  rcases List.eq_nil_or_concat was.receipts with bare | ⟨before, receipt, final⟩
  · -- without transactions the head is the empty one, which has no receipt
    have empty : was.transactions = [] := by
      have hashes := recorded.hashes
      rw [bare] at hashes
      exact List.map_eq_nil_iff.mp hashes.symm
    have missing : was.stored geth db (receiptKey (geth.txHash .empty)) = none := by
      rw [commit_receipt_other trie (by rw [bare]; exact List.forall_mem_nil _)]
      by_contra found
      obtain ⟨t, signed, same⟩ := posts _ found
      exact apart t signed same.symm
    rw [WriteAheadState.head, empty] at head
    rw [headRoot_missing head missing] at headed
    cases headed
  · rw [List.concat_eq_append] at final
    have hashes := recorded.hashes
    rw [final, List.map_append, List.map_singleton] at hashes
    obtain ⟨earlier, others, appended, -, same⟩ := List.map_eq_append_iff.mp hashes.symm
    obtain ⟨t, rfl, named⟩ := List.map_eq_singleton_iff.mp same
    have listed : receipt ∈ was.receipts := final ▸ List.mem_append_right _ List.mem_cons_self
    have stored : was.stored geth db (receiptKey receipt.txHash) = some (geth.receiptData receipt) :=
      commit_receipt final fun later member => absurd member List.not_mem_nil
    have found := getReceipt_stored codec (recorded.encodable.receipts receipt listed) stored
    have post := recorded.posted receipt (by rw [final, List.getLast?_concat])
    rw [WriteAheadState.head, appended, List.getLast?_concat, Option.getD_some, named] at head
    rw [headRoot_receipt head found post] at headed
    exact ⟨by rw [appended]; simp, (Except.ok.inj headed).symm⟩

/-- **A commit** succeeds, and what it commits stays in order. -/
theorem commit_sound (codec : geth.CodecLaws) (trie : geth.TrieLaws) (apart : geth.SignedApart)
    (steady : geth.SteadyLaws (· = address)) {was : WriteAheadState World} {last : World}
    (sound : c.Sound geth address) (recorded : Recorded geth was last)
    (counted : Counted geth address c.committed was last) :
    (∃ root, (State.commit geth { c.state with was }).2 = .ok root) ∧
      Chronicle.Sound geth
        { state := (State.commit geth { c.state with was }).1
          committed := c.committed ++ was.transactions
          last
          head := if was.transactions = [] then c.head else last } address := by
  have committed : was.commit geth c.state.db = _ := commit_encodable codec recorded.encodable
  have done : (was.commit geth c.state.db).outcome =
      .ok (geth.root (geth.finalise was.ethState.accounts)) := by rw [committed]
  have moved := State.commit_ok (s := { c.state with was }) done
  obtain ⟨low, high, above, holds, le⟩ := counted.bounds
  have kept := steady.finalised _ _ _ rfl holds
  have accounts : (was.commit geth c.state.db).ethState.accounts =
      geth.finalise was.ethState.accounts := WriteAheadState.commit_accounts
  rw [moved]
  refine ⟨⟨_, rfl⟩, fresh_recorded _ _, fresh_counted counted.ordered above (accounts ▸ kept) le,
    ⟨high, accounts ▸ kept, fun t member => Nat.lt_of_lt_of_le (above.2 t member) le⟩, ?_, ?_, ?_⟩
  · show ∃ nonce, Above geth address (c.committed ++ was.transactions)
      (if was.transactions = [] then c.head else last) nonce
    split
    · next empty =>
      rw [empty, List.append_nil]
      exact sound.headed
    · exact ⟨low, above⟩
  · intro hash found
    change Store.writes c.state.db (was.commit geth c.state.db).writes (receiptKey hash) ≠ none at found
    by_cases posted : ∃ receipt ∈ was.receipts, receipt.txHash = hash
    · obtain ⟨receipt, member, rfl⟩ := posted
      have listed := List.mem_map_of_mem (f := Receipt.txHash) member
      rw [recorded.hashes] at listed
      obtain ⟨t, inside, same⟩ := List.mem_map.mp listed
      exact ⟨t, recorded.signed t inside, same.symm⟩
    · rw [commit_receipt_kept trie fun receipt member same => posted ⟨receipt, member, same⟩] at found
      exact sound.posts hash found
  · intro root headed
    change headRoot geth (Store.writes c.state.db (was.commit geth c.state.db).writes) = .ok root at headed
    rw [commit_writes codec recorded.encodable] at headed
    obtain ⟨some, same⟩ := commit_leads codec trie apart recorded sound.posts headed
    exact Or.inl (by rw [same]; exact congrArg geth.root (if_neg some).symm)

/-- What is left of a write-ahead state that is not committed. -/
theorem uncommitted_sound {was : WriteAheadState World} {last : World} (sound : c.Sound geth address)
    (recorded : Recorded geth was last) (counted : Counted geth address c.committed was last) :
    Chronicle.Sound geth { c with state := { c.state with was }, last } address :=
  ⟨recorded, counted, sound.settled, sound.headed, sound.posts, sound.leads⟩

/-- A happening whose write-ahead state stays in order, whether it comes to a commit or not. -/
theorem live_sound_of (codec : geth.CodecLaws) (trie : geth.TrieLaws) (apart : geth.SignedApart)
    (steady : geth.SteadyLaws (· = address)) (sound : c.Sound geth address) {happening : Happening}
    (was : WriteAheadState World) (recorded : Recorded geth was (c.reached geth happening))
    (counted : Counted geth address c.committed was (c.reached geth happening))
    (commits : c.state.committing geth happening = some was ∨
      c.state.committing geth happening = none ∧
        (c.state.live geth happening).1 = { c.state with was }) :
    (c.live geth happening).1.Sound geth address := by
  unfold Chronicle.live
  rcases commits with commits | ⟨idle, left⟩
  · obtain ⟨⟨root, done⟩, kept⟩ := commit_sound codec trie apart steady sound recorded counted
    rw [live_committed commits, commits, done]
    exact kept
  · rw [idle]
    show Chronicle.Sound geth { c with
      state := (c.state.live geth happening).1, last := c.reached geth happening } address
    rw [left]
    exact uncommitted_sound sound recorded counted

/-- Genesis accounts change no nonce. -/
theorem createAccountsLoop_nonce {gone : World → Address → Prop} (writes : geth.WriteLaws gone)
    (accounts : World) (genesis : AccountMap) :
    (geth.account (createAccountsLoop geth accounts genesis).1 address).nonce =
      (geth.account accounts address).nonce := by
  induction genesis generalizing accounts with
  | nil => rfl
  | cons entry rest ih =>
    rw [createAccountsLoop]
    cases made : createAccount geth accounts entry with
    | none => rfl
    | some next =>
      dsimp only
      rw [ih, (createAccount_account writes made).1, Function.update_apply]
      split
      · next here => rw [here]; rfl
      · rfl

theorem createAccounts_sound {gone : World → Address → Prop} (codec : geth.CodecLaws)
    (trie : geth.TrieLaws) (apart : geth.SignedApart) (steady : geth.SteadyLaws (· = address))
    (writes : geth.WriteLaws gone) (sound : c.Sound geth address) {accounts : AccountMap}
    (bare : c.Faithful geth address (.createAccounts accounts)) :
    (c.live geth (.createAccounts accounts)).1.Sound geth address := by
  refine live_sound_of codec trie apart steady sound
    (c.state.withAccounts (createAccountsLoop geth c.state.was.ethState.accounts accounts).1).was
    ?_ ?_ ?_
  · have held := sound.recorded
    exact ⟨⟨held.encodable.transactions, held.encodable.receipts⟩, held.signed, held.hashes,
      held.used, held.posted⟩
  · obtain ⟨low, high, above, holds, le⟩ := sound.counted.bounds
    exact ⟨sound.counted.ordered, low, high, above,
      ⟨(createAccountsLoop_nonce writes _ _).trans holds.1, bare⟩, le⟩
  · unfold State.committing
    dsimp only
    split
    · exact Or.inl rfl
    · next stopped =>
      refine Or.inr ⟨rfl, ?_⟩
      rw [State.live, State.createAccounts, if_neg stopped]
      rfl

theorem block_sound (pool : geth.PoolLaws) (codec : geth.CodecLaws) (trie : geth.TrieLaws)
    (apart : geth.SignedApart) (admission : geth.AdmissionLaws) (steady : geth.SteadyLaws (· = address))
    (sound : c.Sound geth address) (block : Block) :
    (c.live geth (.block block)).1.Sound geth address := by
  refine live_sound_of codec trie apart steady sound (c.state.applyBlock geth block).1
    (applyTransactions_recorded pool codec block.transactions sound.recorded)
    (applyTransactions_counted admission steady block.transactions sound.counted) ?_
  unfold State.committing
  dsimp only
  split
  · next applied => exact Or.inl (by rw [applied])
  · next applied => exact Or.inr ⟨rfl, by rw [State.live, State.processBlock_error applied, applied]⟩
  · next applied => exact Or.inr ⟨rfl, by rw [State.live, State.processBlock_panic applied, applied]⟩

/-- A restart goes back to the state after the last committed transaction, if the database opens. -/
theorem restart_sound {gone : World → Address → Prop} (writes : geth.WriteLaws gone)
    (sound : c.Sound geth address) (reopens : c.Faithful geth address .restart) :
    (c.live geth .restart).1.Sound geth address := by
  unfold Chronicle.live
  show Chronicle.Sound geth { c with state := (c.state.reopen geth).1, last := c.reached geth .restart } _
  rw [Chronicle.reached]
  cases opened : newState geth c.state.db with
  | error failure =>
    have stays : c.state.reopen geth = (c.state, .error failure) := by rw [State.reopen, opened]
    rw [stays]
    exact sound
  | ok state =>
    have moves : c.state.reopen geth = (state, .ok ()) := by rw [State.reopen, opened]
    rw [moves]
    obtain ⟨root, accounts, headed, found, rfl⟩ := newState_some opened
    have ordered : (geth.own address c.committed).Pairwise
        fun earlier later => earlier.nonce < later.nonce := by
      have all := sound.counted.ordered
      rw [own_append] at all
      exact (List.pairwise_append.mp all).1
    obtain ⟨nonce, above, held⟩ : ∃ nonce, Above geth address c.committed c.head nonce ∧
        geth.Holds accounts address nonce := by
      rcases sound.leads root headed with rfl | ⟨rfl, none, blank⟩
      · obtain ⟨nonce, above⟩ := sound.headed
        refine ⟨nonce, above, ?_⟩
        unfold Geth.Holds
        rw [reopens accounts found]
        exact above.1
      · refine ⟨0, ⟨blank, ?_⟩, ?_⟩
        · rw [none]
          exact fun t member => absurd (mem_own.mp member).1 List.not_mem_nil
        · unfold Geth.Holds
          rw [(writes.open_blank _ _ found address).1]
          exact ⟨rfl, rfl⟩
    exact ⟨fresh_recorded _ _, fresh_counted ordered above held (Nat.le_refl _),
      ⟨nonce, held, above.2⟩, sound.headed, sound.posts, sound.leads⟩

/-- **Every happening keeps a sender's transactions in order.** -/
theorem live_sound {gone : World → Address → Prop} (pool : geth.PoolLaws) (codec : geth.CodecLaws)
    (trie : geth.TrieLaws) (apart : geth.SignedApart) (admission : geth.AdmissionLaws)
    (steady : geth.SteadyLaws (· = address)) (writes : geth.WriteLaws gone)
    (c : Chronicle World) (happening : Happening) (sound : c.Sound geth address)
    (faithful : c.Faithful geth address happening) : (c.live geth happening).1.Sound geth address := by
  cases happening with
  | createAccounts accounts => exact createAccounts_sound codec trie apart steady writes sound faithful
  | block block => exact block_sound pool codec trie apart admission steady sound block
  | call message =>
    have held := sound.recorded
    refine live_sound_of codec trie apart steady sound (c.state.call geth message).1.was
      ⟨⟨held.encodable.transactions, held.encodable.receipts⟩, held.signed, held.hashes, held.used,
        held.posted⟩ ⟨sound.counted.ordered, sound.counted.bounds⟩ (Or.inr ⟨rfl, rfl⟩)
  | restart => exact restart_sound writes sound faithful

/-- A chronicle begins in order. -/
theorem start_sound {gone : World → Address → Prop} (writes : geth.WriteLaws gone) {s : State World}
    (opened : newState geth Store.empty = .ok s) : (Chronicle.start s).Sound geth address := by
  obtain ⟨root, accounts, headed, found, rfl⟩ := newState_some opened
  obtain rfl : default = root := Except.ok.inj headed
  have blank : geth.Holds accounts address 0 := by
    unfold Geth.Holds
    rw [(writes.open_blank _ _ found address).1]
    exact ⟨rfl, rfl⟩
  have above : Above geth address [] accounts 0 :=
    ⟨blank, fun t member => absurd (mem_own.mp member).1 List.not_mem_nil⟩
  refine ⟨fresh_recorded _ _, fresh_counted List.Pairwise.nil above blank (Nat.le_refl 0), ⟨0, above⟩,
    ⟨0, above⟩, fun hash posted => absurd rfl posted, fun root headed => ?_⟩
  exact Or.inr ⟨(Except.ok.inj headed).symm, rfl, blank⟩

variable (geth) in
/-- The node of a chronicle lives as it would without one. -/
theorem chronicle_state (c : Chronicle World) (happenings : List Happening) :
    (run (Chronicle.live geth) c happenings).1.state =
        (run (State.live geth) c.state happenings).1 ∧
      (run (Chronicle.live geth) c happenings).2 = (run (State.live geth) c.state happenings).2 := by
  induction happenings generalizing c with
  | nil => exact ⟨rfl, rfl⟩
  | cons happening rest ih =>
    have step : (c.live geth happening).1.state = (c.state.live geth happening).1 ∧
        (c.live geth happening).2 = (c.state.live geth happening).2 := by
      unfold Chronicle.live
      dsimp only
      split
      · exact ⟨rfl, rfl⟩
      · exact ⟨rfl, rfl⟩
    obtain ⟨states, answers⟩ := ih (c.live geth happening).1
    rw [run_cons, run_cons, ← step.1, ← step.2]
    exact ⟨states, by rw [answers]⟩

end Chronicles

/-! ### The property -/

/-- The property of a chronicle: the sender's committed transactions are in the order of their nonces, each
below its committed nonce, and no two of them have the same hash if hashes do not collide. -/
structure AppliedOnce (address : Address) (c : Chronicle World) : Prop where
  ordered : (geth.own address c.committed).Pairwise fun earlier later => earlier.nonce < later.nonce
  below : ∀ t ∈ geth.own address c.committed,
    t.nonce < (geth.account c.state.statedb.accounts address).nonce
  hashes : (∀ one ∈ c.committed, ∀ two ∈ c.committed, geth.txHash one = geth.txHash two → one = two) →
    ((geth.own address c.committed).map geth.txHash).Nodup

variable {geth}

/-- **No transaction is applied twice**, whatever happens to the node. -/
theorem never_applied_twice {gone : World → Address → Prop} (pool : geth.PoolLaws)
    (codec : geth.CodecLaws) (trie : geth.TrieLaws) (apart : geth.SignedApart)
    (admission : geth.AdmissionLaws) {address : Address} (steady : geth.SteadyLaws (· = address))
    (writes : geth.WriteLaws gone) {s : State World} (opened : newState geth Store.empty = .ok s)
    {happenings : List Happening} (faithful : Along (Chronicle.live geth)
      (fun c happening => c.Faithful geth address happening) (.start s) happenings) :
    AppliedOnce geth address (run (Chronicle.live geth) (.start s) happenings).1 := by
  have sound := run_invariant (Chronicle.live geth) (fun c => c.Sound geth address)
    (live_sound pool codec trie apart admission steady writes) (start_sound writes opened) faithful
  generalize (run (Chronicle.live geth) (.start s) happenings).1 = c at sound
  have ordered := sound.counted.ordered
  rw [own_append] at ordered
  have committed := (List.pairwise_append.mp ordered).1
  obtain ⟨nonce, holds, below⟩ := sound.settled
  refine ⟨committed, fun t member => ?_, fun injective => ?_⟩
  · rw [holds.1]
    exact below t member
  · refine List.pairwise_map.mpr (committed.imp_of_mem fun earlier later lower same => ?_)
    rw [injective _ (mem_own.mp earlier).1 _ (mem_own.mp later).1 same] at lower
    exact Nat.lt_irrefl _ lower

/-! ### A history of the small chain -/

namespace Sample

/-- A payment, a restart, and the same payment again. -/
def redelivery : List Happening :=
  [.createAccounts genesis, .block payment, .restart, .block payment]

theorem genesis_codeless : (account (createAccountsLoop Sample.geth [] genesis).1 alice).code = [] := by
  decide +kernel

theorem redelivery_once : AppliedOnce Sample.geth alice
    (run (Chronicle.live Sample.geth) (.start blank) redelivery).1 := by
  refine never_applied_twice poolLaws codecLaws trieLaws signedApart admissionLaws
    (steadyLaws fun address same => ?_) writeLaws newState_empty
    ⟨genesis_codeless, trivial, fun accounts found => ?_, trivial, trivial⟩
  · rw [same]
    decide
  · have reopened : Sample.geth.openState (run (Chronicle.live Sample.geth) (.start blank)
        [.createAccounts genesis, .block payment]).1.state.db (Sample.geth.root
          (run (Chronicle.live Sample.geth) (.start blank)
            [.createAccounts genesis, .block payment]).1.head) =
          some (run (Chronicle.live Sample.geth) (.start blank)
            [.createAccounts genesis, .block payment]).1.head := by decide +kernel
    exact congrArg Sample.geth.account (Option.some.inj (found.symm.trans reopened))

end Sample

end EvmBabble
