/-
Reads while a block is processed.

`GetBalance` reads the committed state and `GetNonce` the write-ahead state; neither takes the mutex, so
they can fall between any two steps of `ProcessBlock`. `Call` takes the mutex and runs on a copy of the
write-ahead state. What a rejected block leaves there is seen by the latter two until the next commit.

* `work_processBlock` — the steps of a block, one after another, do what `ProcessBlock` does.
* `step_settled` — what every move keeps, if rejected blocks are refused at once.
* `reads_coherent` — under every interleaving, each account that is reported and each state a call runs
  on is the committed one, as long as no rejected block leaves anything and no nonce is read while a block
  is under way or after another one was committed since the balance was.
-/

import EvmBabble.Service.Handlers
import EvmBabble.State.Batches
import EvmBabble.State.Rejected

namespace EvmBabble

open Library

variable {World : Type} (geth : Geth World)

/-! ### The steps of a block -/

/-- Where `ProcessBlock` stands: before a transaction or the commit, with the state stored, with the
committed state replaced, or nowhere. -/
inductive Stage
  | idle
  | applying (blockHash : Hash) (txIndex : Nat) (rest : List Bytes)
  | stored (root : Hash)
  | assigned (root : Hash)
  | crashed

namespace State

variable (s : State World)

/-- A step of `ProcessBlock`; the commit is `WriteAheadState.Commit`, the assignment of `statedb` and
`resetWAS`. -/
def work : Stage → State World × Stage
  | .idle => (s, .idle)
  | .applying blockHash txIndex (txBytes :: rest) =>
    match applyTransaction geth s.was txBytes txIndex blockHash with
    | (was, .ok ()) => ({ s with was }, .applying blockHash (txIndex + 1) rest)
    | (was, .error _) => ({ s with was }, .idle)
    | (was, .panic) => ({ s with was }, .crashed)
  | .applying _ _ [] =>
    let committed := s.was.commit geth s.db
    let left : State World :=
      { s with
        db := s.db.writes committed.writes
        was := { s.was with ethState := committed.ethState } }
    match committed.outcome with
    | .ok root => (left, .stored root)
    | .error _ => (left, .idle)
    | .panic => (left, .crashed)
  | .stored root => ({ s with statedb := s.was.ethState }, .assigned root)
  | .assigned _ => (s.resetWAS, .idle)
  | .crashed => (s, .crashed)

/-- What the rest of a block comes to. -/
def restOf (blockHash : Hash) (txIndex : Nat) (rest : List Bytes) : State World × Outcome Hash :=
  match applyTransactions geth blockHash s.was txIndex rest with
  | (was, .ok ()) => State.commit geth { s with was }
  | (was, .error failure) => ({ s with was }, .error failure)
  | (was, .panic) => ({ s with was }, .panic)

end State

/-- The next step of a block. -/
def blockStep (point : State World × Stage) : State World × Stage := point.1.work geth point.2

/-- Where a block ends. -/
def Stage.after : Outcome Hash → Stage
  | .ok _ => .idle
  | .error _ => .idle
  | .panic => .crashed

section Steps

variable {geth} (s : State World)

theorem restOf_start (block : Block) :
    s.restOf geth (.ofBytes 32 block.hash) 0 block.transactions = s.processBlock geth block := by
  unfold State.restOf
  rcases applied : s.applyBlock geth block with ⟨was, ⟨⟩ | failure | _⟩
  all_goals
    unfold State.applyBlock at applied
    rw [applied]
  · exact (State.processBlock_ok applied).symm
  · exact (State.processBlock_error applied).symm
  · exact (State.processBlock_panic applied).symm

theorem restOf_nil (blockHash : Hash) (txIndex : Nat) :
    s.restOf geth blockHash txIndex [] = s.commit geth := rfl

variable (geth) in
theorem restOf_cons (blockHash : Hash) (txIndex : Nat) (txBytes : Bytes) (rest : List Bytes) :
    s.restOf geth blockHash txIndex (txBytes :: rest) =
      match applyTransaction geth s.was txBytes txIndex blockHash with
      | (was, .ok ()) => State.restOf geth { s with was } blockHash (txIndex + 1) rest
      | (was, .error failure) => ({ s with was }, .error failure)
      | (was, .panic) => ({ s with was }, .panic) := by
  unfold State.restOf
  rw [applyTransactions]
  rcases applyTransaction geth s.was txBytes txIndex blockHash with ⟨was, ⟨⟩ | failure | _⟩ <;> rfl

/-- **The steps of a block**, one after another, do what is left of it. -/
theorem work_restOf (blockHash : Hash) (txIndex : Nat) (rest : List Bytes) :
    ∃ count, (blockStep geth)^[count] (s, .applying blockHash txIndex rest) =
      ((s.restOf geth blockHash txIndex rest).1,
        Stage.after (s.restOf geth blockHash txIndex rest).2) := by
  induction rest generalizing s txIndex with
  | nil =>
    cases outcome : (s.was.commit geth s.db).outcome with
    | ok root =>
      refine ⟨3, ?_⟩
      rw [restOf_nil, State.commit_ok outcome]
      simp only [Function.iterate_succ, Function.iterate_zero, Function.comp, id, blockStep, State.work,
        outcome]
      rfl
    | error failure =>
      refine ⟨1, ?_⟩
      rw [restOf_nil, State.commit_error outcome]
      simp only [Function.iterate_succ, Function.iterate_zero, Function.comp, id, blockStep, State.work,
        outcome]
      rfl
    | panic => exact absurd outcome WriteAheadState.commit_ne_panic
  | cons txBytes rest ih =>
    rw [restOf_cons]
    rcases step : applyTransaction geth s.was txBytes txIndex blockHash with ⟨was, ⟨⟩ | failure | _⟩
    · obtain ⟨count, ends⟩ := ih { s with was } (txIndex + 1)
      refine ⟨count + 1, ?_⟩
      rw [Function.iterate_succ_apply]
      have worked : s.work geth (.applying blockHash txIndex (txBytes :: rest)) =
          ({ s with was }, .applying blockHash (txIndex + 1) rest) := by
        rw [State.work, step]
      show (blockStep geth)^[count] (s.work geth (.applying blockHash txIndex (txBytes :: rest))) = _
      rw [worked]
      exact ends
    · refine ⟨1, ?_⟩
      show s.work geth (.applying blockHash txIndex (txBytes :: rest)) = _
      rw [State.work, step]
      rfl
    · refine ⟨1, ?_⟩
      show s.work geth (.applying blockHash txIndex (txBytes :: rest)) = _
      rw [State.work, step]
      rfl

theorem work_processBlock (block : Block) :
    ∃ count, (blockStep geth)^[count] (s, .applying (.ofBytes 32 block.hash) 0 block.transactions) =
      ((s.processBlock geth block).1, Stage.after (s.processBlock geth block).2) := by
  rw [← restOf_start]
  exact work_restOf s _ 0 block.transactions

end Steps

/-! ### Reads between the steps -/

/-- An account that is half read: its balance, the committed accounts that it may be of, and how often
the committed state was replaced before. -/
structure HalfRead (World : Type) where
  address : Address
  balance : Int
  allowed : List World
  seen : Nat

/-- A node under its API: where its block stands, the accounts left by the last accepted block, how often
the committed state was replaced, and the account that a handler is reading. The handlers have a mutex of
their own, so there is one at a time. -/
structure Api (World : Type) where
  state : State World
  stage : Stage
  settled : World
  replaced : Nat
  reading : Option (HalfRead World)

def Api.start (s : State World) : Api World := ⟨s, .idle, s.statedb.accounts, 0, none⟩

inductive ApiMove
  | deliver (block : Block)
  | work
  | readBalance (address : Address)
  | readNonce
  | call (message : Message)

/-- What a move shows to a client, with the committed accounts that it may be of. -/
inductive Shown (World : Type)
  | nothing
  | account (account : JsonAccount) (allowed : List World)
  | called (on : World) (allowed : List World)

namespace Api

variable (api : Api World)

/-- The accounts left by the last accepted block; while a block is committed, those after it too. -/
def allowed : List World :=
  match api.stage with
  | .idle => [api.settled]
  | .applying _ _ _ => [api.settled]
  | .stored _ => [api.settled, api.state.was.ethState.accounts]
  | .assigned _ => [api.settled, api.state.was.ethState.accounts]
  | .crashed => []

/-- A step of the block in progress. -/
def work : Api World :=
  let next := api.state.work geth api.stage
  match api.stage with
  | .idle => api
  | .applying _ _ _ => { api with state := next.1, stage := next.2 }
  | .stored _ => { api with state := next.1, stage := next.2, replaced := api.replaced + 1 }
  | .assigned _ => { api with state := next.1, stage := next.2, settled := next.1.statedb.accounts }
  | .crashed => api

/-- A handler reads the balance of an account, and then its nonce. -/
def readBalance (address : Address) : Api World :=
  { api with
    reading := some
      { address, balance := api.state.getBalance geth address, allowed := api.allowed,
        seen := api.replaced } }

def readNonce (half : HalfRead World) : Api World × Shown World :=
  ({ api with reading := none },
    .account ⟨half.address, half.balance, api.state.getNonce geth half.address⟩
      (half.allowed ++ api.allowed))

/-- A call: it holds the mutex, so no block is in progress. -/
def call (message : Message) : Api World × Shown World :=
  ({ api with state := (api.state.call geth message).1 },
    .called api.state.was.ethState.copy.accounts api.allowed)

/-- A move; one that has to wait changes nothing. -/
def step : ApiMove → Api World × Shown World
  | .deliver block =>
    match api.stage with
    | .idle =>
      ({ api with stage := .applying (.ofBytes 32 block.hash) 0 block.transactions }, .nothing)
    | .applying _ _ _ => (api, .nothing)
    | .stored _ => (api, .nothing)
    | .assigned _ => (api, .nothing)
    | .crashed => (api, .nothing)
  | .work => (api.work geth, .nothing)
  | .readBalance address =>
    match api.reading with
    | none => (api.readBalance geth address, .nothing)
    | some _ => (api, .nothing)
  | .readNonce =>
    match api.reading with
    | none => (api, .nothing)
    | some half => api.readNonce geth half
  | .call message =>
    match api.stage, api.reading with
    | .idle, none => api.call geth message
    | _, _ => (api, .nothing)

end Api

/-- What is shown is of one of the committed accounts it may be of. -/
def Shown.Coherent : Shown World → Prop
  | .nothing => True
  | .account reported allowed => ∃ world ∈ allowed,
      (geth.account world reported.address).balance = reported.balance ∧
        (geth.account world reported.address).nonce = reported.nonce
  | .called on allowed => on ∈ allowed

instance [DecidableEq World] (shown : Shown World) : Decidable (shown.Coherent geth) :=
  match shown with
  | .nothing => inferInstanceAs (Decidable True)
  | .account _ _ => inferInstanceAs (Decidable (∃ _ ∈ _, _))
  | .called _ _ => inferInstanceAs (Decidable (_ ∈ _))

/-- The property of an interleaving: everything that is shown is coherent. -/
def ReadsCoherent (s : State World) (moves : List ApiMove) : Prop :=
  ∀ shown ∈ (run (Api.step geth) (.start s) moves).2, shown.Coherent geth

instance [DecidableEq World] (s : State World) (moves : List ApiMove) :
    Decidable (ReadsCoherent geth s moves) :=
  inferInstanceAs (Decidable (∀ _ ∈ _, _))

/-- Nothing of a block in progress is in the write-ahead state, or all of it is committed. -/
def Stage.Calm : Stage → Prop
  | .idle => True
  | .applying _ txIndex _ => txIndex = 0
  | .stored _ => False
  | .assigned _ => True
  | .crashed => False

def Outcome.Failed {α : Type} : Outcome α → Prop
  | .ok _ => False
  | .error _ => True
  | .panic => False

/-- A block that is answered with an error. -/
def Rejected (s : State World) (block : Block) : Prop := (s.processBlock geth block).2.Failed

/-- A block that is rejected is refused at once, and a nonce is read in a calm moment, with the committed
state that the balance was read of. -/
def Undisturbed (api : Api World) : ApiMove → Prop
  | .deliver block => Rejected geth api.state block → RefusedAtOnce geth api.state block
  | .work => True
  | .readBalance _ => True
  | .readNonce => ∀ half, api.reading = some half → api.stage.Calm ∧ half.seen = api.replaced
  | .call _ => True

instance (stage : Stage) : Decidable stage.Calm :=
  match stage with
  | .idle => inferInstanceAs (Decidable True)
  | .applying _ _ _ => inferInstanceAs (Decidable (_ = _))
  | .stored _ => inferInstanceAs (Decidable False)
  | .assigned _ => inferInstanceAs (Decidable True)
  | .crashed => inferInstanceAs (Decidable False)

instance {α : Type} (outcome : Outcome α) : Decidable outcome.Failed :=
  match outcome with
  | .ok _ => inferInstanceAs (Decidable False)
  | .error _ => inferInstanceAs (Decidable True)
  | .panic => inferInstanceAs (Decidable False)

instance (s : State World) (block : Block) : Decidable (Rejected geth s block) :=
  inferInstanceAs (Decidable (Outcome.Failed _))

instance (api : Api World) (move : ApiMove) : Decidable (Undisturbed geth api move) :=
  match move with
  | .deliver _ => inferInstanceAs (Decidable (_ → _))
  | .work => inferInstanceAs (Decidable True)
  | .readBalance _ => inferInstanceAs (Decidable True)
  | .readNonce => inferInstanceAs (Decidable (∀ half ∈ api.reading, _ ∧ _))
  | .call _ => inferInstanceAs (Decidable True)

/-! ### What every move keeps -/

/-- The account states of a node whose rejected blocks are refused at once. -/
def StageSettled (s : State World) (settled : World) : Stage → Prop
  | .idle => s.statedb.accounts = settled ∧ s.was.ethState.accounts = settled
  | .applying blockHash txIndex rest =>
    s.statedb.accounts = settled ∧ (txIndex = 0 → s.was.ethState.accounts = settled) ∧
      ∀ failure, (s.restOf geth blockHash txIndex rest).2 = .error failure →
        txIndex = 0 ∧ ∃ txBytes later, rest = txBytes :: later ∧ Refuses geth s.was txBytes
  | .stored _ => s.statedb.accounts = settled
  | .assigned _ => s.statedb = s.was.ethState
  | .crashed => True

structure Api.Settled (api : Api World) : Prop where
  stage : StageSettled geth api.state api.settled api.stage
  reading : ∀ half, api.reading = some half → half.seen ≤ api.replaced ∧
    (half.seen = api.replaced → half.balance = api.state.getBalance geth half.address)

section Moves

variable {geth}

/-- A step of a block before its commit. -/
theorem applying_settled (admission : geth.AdmissionLaws) (setters : geth.SetterLaws)
    {s : State World} {settled : World} {blockHash : Hash} {txIndex : Nat} {rest : List Bytes}
    (held : StageSettled geth s settled (.applying blockHash txIndex rest)) :
    StageSettled geth (s.work geth (.applying blockHash txIndex rest)).1 settled
        (s.work geth (.applying blockHash txIndex rest)).2 ∧
      (s.work geth (.applying blockHash txIndex rest)).1.statedb = s.statedb := by
  obtain ⟨statedb, start, refused⟩ := held
  cases rest with
  | nil =>
    rw [State.work]
    cases outcome : (s.was.commit geth s.db).outcome with
    | ok root => exact ⟨statedb, rfl⟩
    | error failure =>
      have failed : (s.restOf geth blockHash txIndex []).2 = .error failure := by
        rw [restOf_nil, State.commit_error outcome]
      obtain ⟨-, txBytes, later, none, -⟩ := refused failure failed
      cases none
    | panic => exact absurd outcome WriteAheadState.commit_ne_panic
  | cons txBytes rest =>
    rw [State.work]
    rcases step : applyTransaction geth s.was txBytes txIndex blockHash with ⟨was, ⟨⟩ | failure | _⟩
    all_goals have comes := restOf_cons geth s blockHash txIndex txBytes rest
    all_goals rw [step] at comes
    · -- a transaction that was applied was not refused, so the block is not rejected
      refine ⟨⟨statedb, fun none => absurd none (Nat.succ_ne_zero txIndex), fun failure failed => ?_⟩,
        rfl⟩
      obtain ⟨-, first, later, same, refuses⟩ := refused failure (by rw [comes]; exact failed)
      obtain ⟨rfl, rfl⟩ := List.cons.inj same
      obtain ⟨-, other, stopped⟩ :=
        applyTransaction_refused txIndex blockHash admission setters refuses
      rw [step] at stopped
      cases stopped
    · obtain ⟨zero, first, later, same, refuses⟩ := refused failure (by rw [comes])
      obtain ⟨rfl, rfl⟩ := List.cons.inj same
      have left := (applyTransaction_refused txIndex blockHash admission setters refuses).1
      rw [step] at left
      have accounts := congrArg (fun was : WriteAheadState World => was.ethState.accounts) left
      exact ⟨⟨statedb, accounts.trans (start zero)⟩, rfl⟩
    · exact ⟨trivial, rfl⟩

theorem work_settled (admission : geth.AdmissionLaws) (setters : geth.SetterLaws) {api : Api World}
    (held : api.Settled geth) : (api.work geth).Settled geth := by
  obtain ⟨state, stage, settled, replaced, reading⟩ := api
  obtain ⟨held, balances⟩ := held
  cases stage with
  | idle => exact ⟨held, balances⟩
  | applying blockHash txIndex rest =>
    obtain ⟨next, statedb⟩ := applying_settled admission setters held
    refine ⟨next, fun half found => ?_⟩
    obtain ⟨earlier, same⟩ := balances half found
    refine ⟨earlier, fun seen => ?_⟩
    show half.balance = geth.getBalance (state.work geth _).1.statedb half.address
    rw [statedb]
    exact same seen
  | stored root =>
    refine ⟨rfl, fun half found => ?_⟩
    obtain ⟨earlier, -⟩ := balances half found
    refine ⟨Nat.le_succ_of_le earlier, fun seen => ?_⟩
    change half.seen ≤ replaced at earlier
    change half.seen = replaced + 1 at seen
    omega
  | assigned root => exact ⟨⟨rfl, rfl⟩, balances⟩
  | crashed => exact ⟨held, balances⟩

/-- In a calm moment the write-ahead state holds the committed accounts. -/
theorem calm_allowed {api : Api World} (held : StageSettled geth api.state api.settled api.stage)
    (calm : api.stage.Calm) :
    api.state.was.ethState.accounts = api.state.statedb.accounts ∧
      api.state.statedb.accounts ∈ api.allowed := by
  unfold Api.allowed
  cases stage : api.stage with
  | idle =>
    rw [stage] at held
    exact ⟨held.2.trans held.1.symm, List.mem_singleton.mpr held.1⟩
  | applying blockHash txIndex rest =>
    rw [stage] at held calm
    exact ⟨(held.2.1 calm).trans held.1.symm, List.mem_singleton.mpr held.1⟩
  | stored root =>
    rw [stage] at calm
    exact calm.elim
  | assigned root =>
    rw [stage] at held
    have same : api.state.statedb = api.state.was.ethState := held
    rw [same]
    exact ⟨rfl, List.mem_cons_of_mem _ List.mem_cons_self⟩
  | crashed =>
    rw [stage] at calm
    exact calm.elim

/-- **What every move keeps and shows**, if it is undisturbed. -/
theorem step_settled (admission : geth.AdmissionLaws) (setters : geth.SetterLaws) (api : Api World)
    (move : ApiMove) (held : api.Settled geth) (undisturbed : Undisturbed geth api move) :
    (api.step geth move).2.Coherent geth ∧ (api.step geth move).1.Settled geth := by
  obtain ⟨settledStage, balances⟩ := held
  obtain ⟨state, stage, settled, replaced, reading⟩ := api
  cases move with
  | deliver block =>
    cases stage with
    | idle =>
      refine ⟨trivial,
        ⟨settledStage.1, fun _ => settledStage.2, fun failure failed => ⟨rfl, ?_⟩⟩, balances⟩
      rw [restOf_start] at failed
      change (state.processBlock geth block).2 = .error failure at failed
      have rejected : Rejected geth state block := by
        rw [Rejected, failed]
        trivial
      have refused := undisturbed rejected
      unfold RefusedAtOnce at refused
      cases transactions : block.transactions with
      | nil =>
        rw [transactions] at refused
        exact refused.elim
      | cons txBytes later =>
        rw [transactions] at refused
        exact ⟨txBytes, later, rfl, refused⟩
    | applying blockHash txIndex rest => exact ⟨trivial, settledStage, balances⟩
    | stored root => exact ⟨trivial, settledStage, balances⟩
    | assigned root => exact ⟨trivial, settledStage, balances⟩
    | crashed => exact ⟨trivial, settledStage, balances⟩
  | work => exact ⟨trivial, work_settled admission setters ⟨settledStage, balances⟩⟩
  | readBalance address =>
    cases reading with
    | none =>
      refine ⟨trivial, settledStage, fun half found => ?_⟩
      cases found
      exact ⟨Nat.le_refl replaced, fun _ => rfl⟩
    | some half => exact ⟨trivial, settledStage, balances⟩
  | readNonce =>
    cases reading with
    | none => exact ⟨trivial, settledStage, balances⟩
    | some half =>
      obtain ⟨calm, seen⟩ := undisturbed half rfl
      have balance := (balances half rfl).2 seen
      refine ⟨?_, settledStage, fun other found => by cases found⟩
      -- the balance is that of the committed state as it is now, and the nonce is too
      have nonce := calm_allowed settledStage calm
      refine ⟨state.statedb.accounts, List.mem_append_right _ nonce.2, balance.symm, ?_⟩
      exact congrArg (fun accounts => (geth.account accounts half.address).nonce) nonce.1.symm
  | call message =>
    cases stage with
    | idle =>
      cases reading with
      | none =>
        exact ⟨List.mem_singleton.mpr settledStage.2, settledStage, fun half found => by cases found⟩
      | some half => exact ⟨trivial, settledStage, balances⟩
    | applying blockHash txIndex rest => exact ⟨trivial, settledStage, balances⟩
    | stored root => exact ⟨trivial, settledStage, balances⟩
    | assigned root => exact ⟨trivial, settledStage, balances⟩
    | crashed => exact ⟨trivial, settledStage, balances⟩

/-- **Under every interleaving, what is shown is coherent**, as long as every move is undisturbed. -/
theorem reads_coherent (admission : geth.AdmissionLaws) (setters : geth.SetterLaws) {s : State World}
    (reset : FreshlyReset geth s) {moves : List ApiMove}
    (undisturbed : Along (Api.step geth) (Undisturbed geth) (.start s) moves) :
    ReadsCoherent geth s moves := by
  have fresh : s.was.ethState.accounts = s.statedb.accounts := by
    rw [reset.fresh]
    rfl
  have start : (Api.start s).Settled geth := ⟨⟨rfl, fresh⟩, fun half found => by cases found⟩
  exact along_answers (Api.step geth) (along_invariant (Api.step geth) (Api.Settled geth)
    (step_settled admission setters) start undisturbed)

/-- With no move in between, the two reads report what the handler of an account does. -/
theorem read_jsonAccount (api : Api World) (free : api.reading = none) (address : Address) :
    ∃ allowed, ((api.step geth (.readBalance address)).1.step geth .readNonce).2 =
      .account (jsonAccount geth api.state address) allowed := by
  refine ⟨api.allowed ++ api.allowed, ?_⟩
  simp only [Api.step, free]
  rfl

end Moves

/-! ### Reads of the small chain -/

namespace Sample

/-- A block of a payment and bytes that are no transaction, and alice's account after it was rejected. -/
def afterRejection : List ApiMove :=
  [.deliver spoiled, .work, .work, .readBalance alice, .readNonce]

/-- The nonce is that of the payment, and the balance is not. -/
theorem rejection_not_coherent : newState Sample.geth Store.empty = .ok blank ∧
    ¬ ReadsCoherent Sample.geth started afterRejection :=
  ⟨newState_empty, by decide +kernel⟩

/-- Alice's account at the begin of a payment and at its end, and a call and bob's account around bytes
that are refused. -/
def aroundPayment : List ApiMove :=
  [.readBalance alice, .deliver payment, .readNonce, .work, .work, .work, .readBalance alice, .readNonce,
    .work, .call greedyCall, .deliver ⟨[5], [[]]⟩, .work, .readBalance bob, .readNonce]

theorem payment_coherent : ReadsCoherent Sample.geth started aroundPayment :=
  reads_coherent admissionLaws setterLaws started_reset (by decide +kernel)

end Sample

end EvmBabble
