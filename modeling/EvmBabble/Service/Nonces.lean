/-
The nonces POST /tx chooses.

A `Desk` is a node with the byte strings its clients submitted: those still in flight, which Babble
delivers in order and in blocks of any size, and those it delivered in a block that was not accepted.
`prepareTransaction` takes the nonce from the write-ahead state, which knows nothing of what is in
flight.

* `applyTransactions_holds`, `applyTransactions_agreed` — what a block does to the nonces of accounts
  of keys, and that its nonce checks pass when each sender's next nonce is delivered.
* `nonces_consecutive` — in every run in which a request for an account comes only after the commit
  of all that was submitted for it, each account's nonces are consecutive, and no block is refused by
  a nonce check.
-/

import EvmBabble.Service.Submission
import EvmBabble.Library.Run

namespace EvmBabble

open Library

variable {World : Type}

/-! ### The desk -/

structure Desk (World : Type) where
  state : State World
  submitted : List Bytes
  inFlight : List Bytes
  rejected : List Bytes

def Desk.start (s : State World) : Desk World := ⟨s, [], [], []⟩

/-- A POST /tx, or a block of the first byte strings in flight. -/
inductive DeskInput
  | request (body : Option Bytes)
  | deliver (hash : Bytes) (count : Nat)

inductive DeskAnswer
  | replied (reply : Reply)
  | processed (outcome : Outcome Hash)
deriving DecidableEq

section Desks

variable (geth : Geth World) (web : Web) (keyStore : KeyStore)

def Desk.step (desk : Desk World) : DeskInput → Desk World × DeskAnswer
  | .request body =>
    let handled := transactionHandler geth web keyStore desk.state body
    ({ desk with
        state := handled.state
        submitted := desk.submitted ++ handled.submitted
        inFlight := desk.inFlight ++ handled.submitted }, .replied handled.reply)
  | .deliver hash count =>
    let delivered := desk.inFlight.take count
    let processed := desk.state.processBlock geth ⟨hash, delivered⟩
    ({ desk with
        state := processed.1
        inFlight := desk.inFlight.drop count
        rejected := if processed.2.isOk then desk.rejected else desk.rejected ++ delivered },
      .processed processed.2)

/-! ### The property -/

/-- The nonce of a byte string, if it is a transaction of the account. -/
def nonceOf (account : Address) (data : Bytes) : Option Nat :=
  match geth.readMessage data with
  | .ok (t, message) => if message.sender = account then some t.nonce else none
  | .error _ => none

/-- The nonces of an account's transactions, in order. -/
def noncesOf (account : Address) (list : List Bytes) : List Nat :=
  list.filterMap (nonceOf geth account)

/-- An outcome of a nonce check that fails. -/
def Outcome.NonceRefused {α : Type} (outcome : Outcome α) : Prop :=
  outcome = .error (.applying .nonceTooHigh) ∨ outcome = .error (.applying .nonceTooLow)

theorem Outcome.ok_not_refused {α : Type} (value : α) : ¬ (Outcome.ok value).NonceRefused :=
  not_or.mpr ⟨nofun, nofun⟩

theorem Outcome.panic_not_refused {α : Type} : ¬ (Outcome.panic : Outcome α).NonceRefused :=
  not_or.mpr ⟨nofun, nofun⟩

/-- The error alone tells. -/
theorem Outcome.refused_error {α β : Type} {failure : Failure}
    (refused : (Outcome.error failure : Outcome α).NonceRefused) :
    (Outcome.error failure : Outcome β).NonceRefused := by
  rcases refused with high | low
  · cases high
    exact Or.inl rfl
  · cases low
    exact Or.inr rfl

/-- A block that the nonce check refused. -/
def DeskAnswer.NonceRefused : DeskAnswer → Prop
  | .replied _ => False
  | .processed outcome => outcome.NonceRefused

/-- A request without a nonce. -/
def Automatic : DeskInput → Prop
  | .request body => ∀ args, body.bind web.decodeArgs = some args → args.nonce = none
  | .deliver _ _ => True

/-- The property of a run: each account's nonces follow one another, and no nonce check refuses a
block. -/
def NoncesFit (s : State World) (inputs : List DeskInput) : Prop :=
  (∀ account, ∃ first count,
      noncesOf geth account (run (Desk.step geth web keyStore) (.start s) inputs).1.submitted =
        List.range' first count) ∧
    ∀ answer ∈ (run (Desk.step geth web keyStore) (.start s) inputs).2, ¬ answer.NonceRefused

/-- A request for an account comes when nothing that was submitted for it is in flight or was lost in
a rejected block. -/
def NothingPending (desk : Desk World) : DeskInput → Prop
  | .request body => ∀ args, body.bind web.decodeArgs = some args →
      noncesOf geth args.sender (desk.inFlight ++ desk.rejected) = []
  | .deliver _ _ => True

/-- The accounts the key store can sign for. -/
def KeyStore.Keyed (keyStore : KeyStore) (address : Address) : Prop :=
  ∃ account, keyStore.find address = some account

/-! ### Blocks -/

variable {geth}

@[simp] theorem noncesOf_nil (account : Address) : noncesOf geth account [] = [] := rfl

@[simp] theorem noncesOf_append (account : Address) (first second : List Bytes) :
    noncesOf geth account (first ++ second) =
      noncesOf geth account first ++ noncesOf geth account second :=
  List.filterMap_append

theorem noncesOf_cons {data : Bytes} {t : Transaction} {message : Message}
    (read : geth.readMessage data = .ok (t, message)) (account : Address) (rest : List Bytes) :
    noncesOf geth account (data :: rest) =
      if message.sender = account then t.nonce :: noncesOf geth account rest
      else noncesOf geth account rest := by
  have here : nonceOf geth account data = if message.sender = account then some t.nonce else none := by
    rw [nonceOf, read]
  unfold noncesOf
  by_cases same : message.sender = account
  · rw [if_pos same] at here ⊢
    rw [List.filterMap_cons_some here]
  · rw [if_neg same] at here ⊢
    rw [List.filterMap_cons_none here]

/-- A byte string every node can read as a transaction of a key's account. -/
def Signed (geth : Geth World) (keyed : Address → Prop) (data : Bytes) : Prop :=
  ∃ t message, geth.readMessage data = .ok (t, message) ∧ keyed message.sender

section Transactions

variable {keyed : Address → Prop} (laws : geth.NonceLaws keyed) {was : WriteAheadState World}
  {data : Bytes} {t : Transaction} {message : Message} (txIndex : Nat) (blockHash : Hash)

include laws

/-- A transaction leaves the nonces of other keys. -/
theorem applyTransaction_others (read : geth.readMessage data = .ok (t, message))
    {account : Address} {nonce : Nat} (key : keyed account) (other : account ≠ message.sender)
    (holds : geth.Holds was.ethState.accounts account nonce) :
    geth.Holds (applyTransaction geth was data txIndex blockHash).1.ethState.accounts account
      nonce := by
  have ran : geth.Holds (was.runMessage geth t message txIndex blockHash).state.accounts account
      nonce := by
    rw [WriteAheadState.runMessage, Geth.applyMessage_accounts]
    exact laws.others _ _ _ _ _ _ key other holds
  rw [applyTransaction_read read]
  unfold WriteAheadState.afterMessage
  split
  · exact ran
  · exact ran
  · exact laws.finalised _ _ _ key ran

/-- An applied transaction raises its sender's nonce. -/
theorem applyTransaction_counted (read : geth.readMessage data = .ok (t, message)) {nonce : Nat}
    (key : keyed message.sender)
    (holds : geth.Holds was.ethState.accounts message.sender nonce)
    (applied : (applyTransaction geth was data txIndex blockHash).2 = .ok ()) :
    geth.Holds (applyTransaction geth was data txIndex blockHash).1.ethState.accounts
      message.sender (nonce + 1) := by
  rw [applyTransaction_read read] at applied ⊢
  unfold WriteAheadState.afterMessage at applied ⊢
  split at applied
  · cases applied
  · cases applied
  · next executed finished =>
    refine laws.finalised _ _ _ key ?_
    rw [WriteAheadState.runMessage, Geth.applyMessage_accounts]
    exact laws.counted _ _ _ _ executed nonce key holds finished

/-- A transaction with its sender's next nonce passes the nonce check. -/
theorem applyTransaction_agreed (read : geth.readMessage data = .ok (t, message))
    (holds : geth.Holds was.ethState.accounts message.sender t.nonce) :
    ¬ (applyTransaction geth was data txIndex blockHash).2.NonceRefused := by
  obtain ⟨-, -, nonce, -⟩ := asMessage_some (readMessage_ok read).2
  have passed : ¬ (was.runMessage geth t message txIndex blockHash).outcome.NonceRefused :=
    not_or.mpr (laws.agreed (transactionContext message blockHash) message was.ethState.accounts
      was.gp (holds.1.trans nonce.symm))
  rw [applyTransaction_read read]
  unfold WriteAheadState.afterMessage
  cases outcome : (was.runMessage geth t message txIndex blockHash).outcome with
  | ok executed => exact Outcome.ok_not_refused _
  | panic => exact Outcome.panic_not_refused
  | error failure =>
    rw [outcome] at passed
    exact fun refused => passed (Outcome.refused_error refused)

/-- What a block does to the nonce of a key that has no transaction in it, or one. -/
theorem applyTransactions_holds {list : List Bytes} (signed : ∀ data ∈ list, Signed geth keyed data)
    {account : Address} (key : keyed account) {nonce : Nat}
    (holds : geth.Holds was.ethState.accounts account nonce) :
    (noncesOf geth account list = [] →
        geth.Holds (applyTransactions geth blockHash was txIndex list).1.ethState.accounts account
          nonce) ∧
      (noncesOf geth account list = [nonce] →
        (applyTransactions geth blockHash was txIndex list).2 = .ok () →
          geth.Holds (applyTransactions geth blockHash was txIndex list).1.ethState.accounts account
            (nonce + 1)) := by
  induction list generalizing was txIndex nonce with
  | nil => exact ⟨fun _ => holds, fun one => by cases one⟩
  | cons data rest ih =>
    obtain ⟨⟨t, message, read, sender⟩, later⟩ := List.forall_mem_cons.mp signed
    rw [noncesOf_cons read, applyTransactions_cons, continueBlock]
    by_cases same : message.sender = account
    · -- the account's one transaction
      subst same
      rw [if_pos rfl]
      refine ⟨fun none => absurd none (List.cons_ne_nil _ _), fun one done => ?_⟩
      obtain ⟨-, none⟩ := List.cons.inj one
      have counted := applyTransaction_counted laws txIndex blockHash read sender holds
      rcases applied : applyTransaction geth was data txIndex blockHash with ⟨next, _ | _ | _⟩
      · rw [applied] at counted
        exact (ih (txIndex + 1) later (counted rfl)).1 none
      · rw [applied] at done
        cases done
      · rw [applied] at done
        cases done
    · rw [if_neg same]
      have kept := applyTransaction_others laws txIndex blockHash read key (Ne.symm same) holds
      rcases applied : applyTransaction geth was data txIndex blockHash with ⟨next, _ | _ | _⟩
      · rw [applied] at kept
        exact ih (txIndex + 1) later kept
      · rw [applied] at kept
        exact ⟨fun _ => kept, fun _ done => absurd done (Outcome.error_ne_ok _ _)⟩
      · rw [applied] at kept
        exact ⟨fun _ => kept, fun _ done => absurd done (Outcome.panic_ne_ok _)⟩

/-- The nonce check passes for a block with one next nonce for each of its senders. -/
theorem applyTransactions_agreed {list : List Bytes}
    (signed : ∀ data ∈ list, Signed geth keyed data)
    (ready : ∀ account, keyed account → noncesOf geth account list = [] ∨
      ∃ nonce, noncesOf geth account list = [nonce] ∧
        geth.Holds was.ethState.accounts account nonce) :
    ¬ (applyTransactions geth blockHash was txIndex list).2.NonceRefused := by
  induction list generalizing was txIndex with
  | nil => exact Outcome.ok_not_refused _
  | cons data rest ih =>
    obtain ⟨⟨t, message, read, sender⟩, later⟩ := List.forall_mem_cons.mp signed
    -- the first transaction has its sender's next nonce, and is the sender's only one
    obtain ⟨holds, alone⟩ : geth.Holds was.ethState.accounts message.sender t.nonce ∧
        noncesOf geth message.sender rest = [] := by
      have mine := ready message.sender sender
      rw [noncesOf_cons read, if_pos rfl] at mine
      rcases mine with none | ⟨nonce, one, holds⟩
      · cases none
      · obtain ⟨rfl, none⟩ := List.cons.inj one
        exact ⟨holds, none⟩
    have first := applyTransaction_agreed laws txIndex blockHash read holds
    have others : ∀ account, keyed account → noncesOf geth account rest = [] ∨
        ∃ nonce, noncesOf geth account rest = [nonce] ∧
          geth.Holds (applyTransaction geth was data txIndex blockHash).1.ethState.accounts account
            nonce := by
      intro account key
      by_cases same : message.sender = account
      · rw [← same]
        exact Or.inl alone
      · have theirs := ready account key
        rw [noncesOf_cons read, if_neg same] at theirs
        refine theirs.imp_right fun ⟨nonce, one, kept⟩ => ⟨nonce, one, ?_⟩
        exact applyTransaction_others laws txIndex blockHash read key (Ne.symm same) kept
    rw [applyTransactions_cons, continueBlock]
    rcases applied : applyTransaction geth was data txIndex blockHash with ⟨next, _ | _ | _⟩
    · rw [applied] at others
      exact ih (txIndex + 1) later others
    · rw [applied] at first
      exact first
    · exact Outcome.panic_not_refused

variable (s : State World) (block : Block)

/-- `ProcessBlock` and the nonce of a key that has no transaction in the block, or one. -/
theorem processBlock_holds (signed : ∀ data ∈ block.transactions, Signed geth keyed data)
    {account : Address} (key : keyed account) {nonce : Nat}
    (holds : geth.Holds s.was.ethState.accounts account nonce) :
    (noncesOf geth account block.transactions = [] →
        geth.Holds (s.processBlock geth block).1.was.ethState.accounts account nonce) ∧
      (noncesOf geth account block.transactions = [nonce] →
        (s.processBlock geth block).2.isOk = true →
          geth.Holds (s.processBlock geth block).1.was.ethState.accounts account (nonce + 1)) := by
  have looped := applyTransactions_holds laws 0 (.ofBytes 32 block.hash) signed key holds
  change (_ → geth.Holds (s.applyBlock geth block).1.ethState.accounts _ _) ∧
    (_ → (s.applyBlock geth block).2 = _ →
      geth.Holds (s.applyBlock geth block).1.ethState.accounts _ _) at looped
  rcases applied : s.applyBlock geth block with ⟨was, _ | failure | _⟩
  · rw [applied] at looped
    rw [State.processBlock_ok applied]
    have committed : ∀ {nonce}, geth.Holds was.ethState.accounts account nonce →
        geth.Holds (State.commit geth { s with was }).1.was.ethState.accounts account nonce := by
      intro nonce holds
      rw [State.commit_accounts]
      exact laws.finalised _ _ _ key holds
    exact ⟨fun none => committed (looped.1 none), fun one _ => committed (looped.2 one rfl)⟩
  · rw [applied] at looped
    rw [State.processBlock_error applied]
    exact ⟨looped.1, fun _ accepted => by cases accepted⟩
  · rw [applied] at looped
    rw [State.processBlock_panic applied]
    exact ⟨looped.1, fun _ accepted => by cases accepted⟩

theorem processBlock_agreed (signed : ∀ data ∈ block.transactions, Signed geth keyed data)
    (ready : ∀ account, keyed account → noncesOf geth account block.transactions = [] ∨
      ∃ nonce, noncesOf geth account block.transactions = [nonce] ∧
        geth.Holds s.was.ethState.accounts account nonce) :
    ¬ (s.processBlock geth block).2.NonceRefused := by
  have looped := applyTransactions_agreed laws 0 (.ofBytes 32 block.hash) signed ready
  change ¬ (s.applyBlock geth block).2.NonceRefused at looped
  rcases applied : s.applyBlock geth block with ⟨was, _ | failure | _⟩
  · rw [State.processBlock_ok applied, State.commit_outcome]
    dsimp only
    cases outcome : (was.commit geth s.db).outcome with
    | ok root => exact Outcome.ok_not_refused _
    | error failure =>
      rcases WriteAheadState.commit_failure outcome with rfl | rfl
      all_goals exact not_or.mpr ⟨nofun, nofun⟩
    | panic => exact absurd outcome WriteAheadState.commit_ne_panic
  · rw [applied] at looped
    rw [State.processBlock_error applied]
    exact fun refused => looped (Outcome.refused_error refused)
  · rw [State.processBlock_panic applied]
    exact Outcome.panic_not_refused

end Transactions

/-! ### Requests -/

/-- What POST /tx does to the desk: nothing, or one more transaction of a key's account, with the
nonce of the write-ahead state if none was given. -/
theorem transactionHandler_submits (codec : geth.CodecLaws)
    (signing : SigningLaws geth web keyStore) (s : State World) (body : Option Bytes) :
    (transactionHandler geth web keyStore s body).state = s ∧
      ((transactionHandler geth web keyStore s body).submitted = [] ∨
        ∃ args data t message, body.bind web.decodeArgs = some args ∧
          (transactionHandler geth web keyStore s body).submitted = [data] ∧
          geth.readMessage data = .ok (t, message) ∧ message.sender = args.sender ∧
          keyStore.Keyed args.sender ∧ t.nonce = args.nonce.getD (s.getNonce geth args.sender)) := by
  rcases transactionHandler_cases geth web keyStore s body with
    ⟨error, denied⟩ | ⟨args, tx, data, decoded, prepared, encoded, sent⟩
  · rw [denied]
    exact ⟨rfl, Or.inl rfl⟩
  · obtain ⟨sender, key, unsigned⟩ := prepareTransaction_ok web keyStore signing prepared
    obtain ⟨message, read, own⟩ := readMessage_encoded codec encoded sender
    rw [sent]
    exact ⟨rfl, Or.inr ⟨args, data, tx, message, decoded, rfl, read, own, key,
      congrArg Transaction.nonce unsigned⟩⟩

/-! ### The invariant -/

/-- Where an account of a key stands: its transaction was lost in a rejected block, or none of its
transactions is in flight, or one is and carries the next nonce. -/
inductive Fits (geth : Geth World) (desk : Desk World) (account : Address) : Prop
  | lost (first count : Nat) (flight : noncesOf geth account desk.inFlight = [])
      (gone : noncesOf geth account desk.rejected ≠ [])
      (nonces : noncesOf geth account desk.submitted = List.range' first count)
  | idle (first count : Nat)
      (holds : geth.Holds desk.state.was.ethState.accounts account (first + count))
      (flight : noncesOf geth account desk.inFlight = [])
      (nonces : noncesOf geth account desk.submitted = List.range' first count)
  | waiting (first count : Nat)
      (holds : geth.Holds desk.state.was.ethState.accounts account (first + count))
      (flight : noncesOf geth account desk.inFlight = [first + count])
      (nonces : noncesOf geth account desk.submitted = List.range' first (count + 1))

/-- The invariant of a desk whose requests wait for what was submitted before. -/
structure Desk.Orderly (geth : Geth World) (keyStore : KeyStore) (desk : Desk World) : Prop where
  sent : ∀ data ∈ desk.submitted, Signed geth keyStore.Keyed data
  flying : ∀ data ∈ desk.inFlight, Signed geth keyStore.Keyed data
  fits : ∀ account, keyStore.Keyed account → Fits geth desk account

theorem request_orderly (codec : geth.CodecLaws) (signing : SigningLaws geth web keyStore)
    {desk : Desk World} (orderly : desk.Orderly geth keyStore) {body : Option Bytes}
    (automatic : Automatic web (.request body))
    (pending : NothingPending geth web desk (.request body)) :
    (desk.step geth web keyStore (.request body)).1.Orderly geth keyStore := by
  obtain ⟨kept, none | ⟨args, data, t, message, decoded, one, read, own, key, nonce⟩⟩ :=
    transactionHandler_submits web keyStore codec signing desk.state body
  · have same : (desk.step geth web keyStore (.request body)).1 = desk := by
      unfold Desk.step
      dsimp only
      rw [kept, none, List.append_nil, List.append_nil]
    rw [same]
    exact orderly
  have same : (desk.step geth web keyStore (.request body)).1 = { desk with
      submitted := desk.submitted ++ [data], inFlight := desk.inFlight ++ [data] } := by
    unfold Desk.step
    dsimp only
    rw [kept, one]
  rw [same]
  have signed : ∀ later ∈ [data], Signed geth keyStore.Keyed later :=
    List.forall_mem_singleton.mpr ⟨t, message, read, own ▸ key⟩
  refine ⟨List.forall_mem_append.mpr ⟨orderly.sent, signed⟩,
    List.forall_mem_append.mpr ⟨orderly.flying, signed⟩, fun account keyed => ?_⟩
  have added : ∀ list, noncesOf geth account (list ++ [data]) =
      noncesOf geth account list ++ if message.sender = account then [t.nonce] else [] := by
    intro list
    rw [noncesOf_append, noncesOf_cons read, noncesOf_nil]
  by_cases mine : message.sender = account
  · -- the request's own account has nothing pending, so its next nonce is the one in the state
    simp only [if_pos mine] at added
    rw [own] at mine
    obtain ⟨noFlight, noLost⟩ : noncesOf geth account desk.inFlight = [] ∧
        noncesOf geth account desk.rejected = [] := by
      have nothing := pending args decoded
      rw [mine, noncesOf_append] at nothing
      exact List.append_eq_nil_iff.mp nothing
    rcases orderly.fits account keyed with
      ⟨first, count, -, gone, -⟩ | ⟨first, count, holds, flight, nonces⟩ | ⟨first, count, -, flight, -⟩
    · exact absurd noLost gone
    · have next : t.nonce = first + count := by
        rw [nonce, automatic args decoded, mine]
        exact holds.1
      refine .waiting first count holds ?_ ?_
      · rw [added, flight, next, List.nil_append]
      · rw [added, nonces, next, List.range'_1_concat]
    · rw [noFlight] at flight
      cases flight
  · simp only [if_neg mine, List.append_nil] at added
    rcases orderly.fits account keyed with
      ⟨first, count, flight, gone, nonces⟩ | ⟨first, count, holds, flight, nonces⟩ |
        ⟨first, count, holds, flight, nonces⟩
    · exact .lost first count ((added _).trans flight) gone ((added _).trans nonces)
    · exact .idle first count holds ((added _).trans flight) ((added _).trans nonces)
    · exact .waiting first count holds ((added _).trans flight) ((added _).trans nonces)

theorem deliver_orderly (laws : geth.NonceLaws keyStore.Keyed) {desk : Desk World}
    (orderly : desk.Orderly geth keyStore) (hash : Bytes) (size : Nat) :
    ¬ (desk.step geth web keyStore (.deliver hash size)).2.NonceRefused ∧
      (desk.step geth web keyStore (.deliver hash size)).1.Orderly geth keyStore := by
  have signed : ∀ data ∈ desk.inFlight.take size, Signed geth keyStore.Keyed data :=
    fun data member => orderly.flying data (List.mem_of_mem_take member)
  have split : ∀ account, noncesOf geth account (desk.inFlight.take size) ++
      noncesOf geth account (desk.inFlight.drop size) = noncesOf geth account desk.inFlight := by
    intro account
    rw [← noncesOf_append, List.take_append_drop]
  constructor
  · refine processBlock_agreed laws desk.state ⟨hash, desk.inFlight.take size⟩
      signed fun account key => ?_
    have parts := split account
    rcases orderly.fits account key with ⟨_, _, flight, -, -⟩ | ⟨_, _, -, flight, -⟩ |
      ⟨first, count, holds, flight, -⟩
    · rw [flight] at parts
      exact Or.inl (List.append_eq_nil_iff.mp parts).1
    · rw [flight] at parts
      exact Or.inl (List.append_eq_nil_iff.mp parts).1
    · rw [flight] at parts
      rcases List.append_eq_singleton_iff.mp parts with ⟨none, -⟩ | ⟨one, -⟩
      · exact Or.inl none
      · exact Or.inr ⟨_, one, holds⟩
  · refine ⟨orderly.sent, fun data member => orderly.flying data (List.mem_of_mem_drop member),
      fun account key => ?_⟩
    have held := fun nonce => @processBlock_holds _ _ _ laws desk.state
      ⟨hash, desk.inFlight.take size⟩ signed _ key nonce
    have parts := split account
    rcases orderly.fits account key with ⟨first, count, flight, gone, nonces⟩ |
      ⟨first, count, holds, flight, nonces⟩ | ⟨first, count, holds, flight, nonces⟩
    · rw [flight] at parts
      refine .lost first count (List.append_eq_nil_iff.mp parts).2 ?_ nonces
      show noncesOf geth account (if _ then _ else _) ≠ []
      split
      · exact gone
      · rw [noncesOf_append]
        exact fun none => gone (List.append_eq_nil_iff.mp none).1
    · rw [flight] at parts
      obtain ⟨none, later⟩ := List.append_eq_nil_iff.mp parts
      exact .idle first count ((held _ holds).1 none) later nonces
    · rw [flight] at parts
      rcases List.append_eq_singleton_iff.mp parts with ⟨none, later⟩ | ⟨one, later⟩
      · exact .waiting first count ((held _ holds).1 none) later nonces
      · -- the account's transaction is in the block
        by_cases accepted : (desk.state.processBlock geth
            ⟨hash, desk.inFlight.take size⟩).2.isOk = true
        · exact .idle first (count + 1) ((held _ holds).2 one accepted) later nonces
        · refine .lost first (count + 1) later ?_ nonces
          show noncesOf geth account (if _ then _ else _) ≠ []
          rw [if_neg accepted, noncesOf_append, one]
          exact List.append_ne_nil_of_right_ne_nil _ (List.cons_ne_nil _ _)

/-! ### Runs -/

/-- **Requests that wait for what was submitted before get consecutive nonces.** -/
theorem nonces_consecutive (laws : geth.NonceLaws keyStore.Keyed) (codec : geth.CodecLaws)
    (signing : SigningLaws geth web keyStore) (s : State World)
    (codeless : ∀ address, keyStore.Keyed address →
      (geth.account s.was.ethState.accounts address).code = [])
    (inputs : List DeskInput) (automatic : ∀ input ∈ inputs, Automatic web input)
    (pending : Along (Desk.step geth web keyStore) (NothingPending geth web) (.start s) inputs) :
    NoncesFit geth web keyStore s inputs := by
  have both := along_inputs _ automatic pending
  have start : (Desk.start s).Orderly geth keyStore :=
    ⟨fun data member => absurd member List.not_mem_nil,
      fun data member => absurd member List.not_mem_nil,
      fun account key => .idle _ 0 ⟨rfl, codeless account key⟩ rfl rfl⟩
  have stepped : ∀ desk input, desk.Orderly geth keyStore →
      Automatic web input ∧ NothingPending geth web desk input →
        ¬ (desk.step geth web keyStore input).2.NonceRefused ∧
          (desk.step geth web keyStore input).1.Orderly geth keyStore := by
    intro desk input orderly allowed
    cases input with
    | request body =>
      exact ⟨fun refused => refused,
        request_orderly web keyStore codec signing orderly allowed.1 allowed.2⟩
    | deliver hash count => exact deliver_orderly web keyStore laws orderly hash count
  have ends := run_invariant _ (Desk.Orderly geth keyStore) (fun desk input orderly allowed =>
    (stepped desk input orderly allowed).2) start both
  refine ⟨fun account => ?_, along_answers _ (along_invariant _ _ stepped start both)⟩
  by_cases key : keyStore.Keyed account
  · rcases ends.fits account key with ⟨first, count, -, -, nonces⟩ | ⟨first, count, -, -, nonces⟩ |
      ⟨first, count, -, -, nonces⟩
    · exact ⟨first, count, nonces⟩
    · exact ⟨first, count, nonces⟩
    · exact ⟨first, count + 1, nonces⟩
  · -- nothing is ever submitted for an account without a key
    refine ⟨0, 0, List.filterMap_eq_nil_iff.mpr fun data member => ?_⟩
    obtain ⟨t, message, read, sender⟩ := ends.sent data member
    rw [nonceOf, read]
    show (if message.sender = account then some t.nonce else none) = none
    exact if_neg fun same : message.sender = account => key (same ▸ sender)

end Desks

/-! ### Desks of the small chain -/

namespace Sample

theorem keyed_iff {address : Address} : keyStore.Keyed address ↔ address = alice := by
  constructor
  · rintro ⟨account, found⟩
    by_contra other
    have missing : keyStore.find address = none := if_neg other
    rw [missing] at found
    cases found
  · rintro rfl
    exact ⟨alice, by decide +kernel⟩

theorem keyNonces : Sample.geth.NonceLaws keyStore.Keyed :=
  nonceLaws fun address key => by
    rw [keyed_iff.mp key]
    decide

theorem transfer_automatic : Automatic web (.request (some transferBody)) := by
  intro args decoded
  obtain rfl := Option.some.inj (transfer_decoded.symm.trans decoded)
  rfl

/-- Two transfers, each committed before the next request. -/
def oneByOne : List DeskInput :=
  [.request (some transferBody), .deliver [5] 1, .request (some transferBody), .deliver [6] 1]

theorem oneByOne_automatic : ∀ input ∈ oneByOne, Automatic web input := by
  refine List.forall_mem_cons.mpr ⟨transfer_automatic, List.forall_mem_cons.mpr ⟨trivial, ?_⟩⟩
  exact List.forall_mem_cons.mpr ⟨transfer_automatic, List.forall_mem_singleton.mpr trivial⟩

theorem oneByOne_fits : NoncesFit Sample.geth web keyStore started oneByOne := by
  refine nonces_consecutive web keyStore keyNonces codecLaws signingLaws started
    (fun address key => ?_) oneByOne oneByOne_automatic ⟨?_, trivial, ?_, trivial, trivial⟩
  · rw [keyed_iff.mp key]
    decide +kernel
  · intro args decoded
    rfl
  · intro args decoded
    have empty : ((((Desk.start started).step Sample.geth web keyStore
        (.request (some transferBody))).1.step Sample.geth web keyStore (.deliver [5] 1)).1.inFlight ++
      (((Desk.start started).step Sample.geth web keyStore
        (.request (some transferBody))).1.step Sample.geth web keyStore (.deliver [5] 1)).1.rejected) =
          [] := by decide +kernel
    rw [empty]
    rfl

/-- Two transfers one right after the other. -/
def twoAtOnce : List DeskInput :=
  [.request (some transferBody), .request (some transferBody), .deliver [5] 2]

/-- Both get the same nonce, and the block with the two is refused. -/
theorem twoAtOnce_clash :
    (∀ input ∈ twoAtOnce, Automatic web input) ∧
      (run (Desk.step Sample.geth web keyStore) (.start started) twoAtOnce).2.getLast? =
        some (.processed (.error (.applying .nonceTooLow))) ∧
      ¬ NoncesFit Sample.geth web keyStore started twoAtOnce := by
  refine ⟨?_, by decide +kernel, ?_⟩
  · refine List.forall_mem_cons.mpr ⟨transfer_automatic, ?_⟩
    exact List.forall_mem_cons.mpr ⟨transfer_automatic, List.forall_mem_singleton.mpr trivial⟩
  · rintro ⟨consecutive, -⟩
    obtain ⟨first, count, nonces⟩ := consecutive alice
    have zeros : noncesOf Sample.geth alice (run (Desk.step Sample.geth web keyStore)
        (.start started) twoAtOnce).1.submitted = [0, 0] := by decide +kernel
    rw [zeros] at nonces
    have distinct : ([0, 0] : List Nat).Nodup := nonces ▸ List.nodup_range'
    exact absurd distinct (by decide)

end Sample

end EvmBabble
