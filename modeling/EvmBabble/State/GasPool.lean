/-
The gas of the write-ahead state.

`resetWAS` puts `gasLimit` into the pool and zero into `totalUsedGas`. A transaction that is applied
moves the gas it used from the one to the other and into its receipt. `Call` takes its gas from the
same pool and records it nowhere, and so does a transaction that fails once its gas is bought.

* `execute_pool_iff` — a message leaves the pool as it was exactly when it buys no gas.
* `execute_solvent` — the pool never goes below zero.
* `applyTransactions_balanced_iff` — the counters agree after every transaction of a block exactly
  when each one is applied or buys no gas.
* `gas_conserved_iff` — the same for whole runs, with calls.
-/

import EvmBabble.State.Atomic
import EvmBabble.State.ReadOnly
import EvmBabble.State.Receipts

namespace EvmBabble

open Library

variable {World : Type} (geth : Geth World)

/-! ### The property -/

/-- The counters of a write-ahead state agree: the pool and the used gas make up the gas limit, the
used gas is that of the receipts, and the pool is within the gas limit. -/
structure WriteAheadState.Balanced (was : WriteAheadState World) : Prop where
  conserved : was.gp + was.totalUsedGas = gasLimit
  receipts : was.totalUsedGas = (was.receipts.map Receipt.gasUsed).sum
  bounded : was.gp ≤ gasLimit

/-- The property of a happening: the counters agree after it and, in a block, after each of its
transactions, and the receipts of a block that is accepted have at most the gas limit. -/
structure GasConserved (s : State World) (happening : Happening) : Prop where
  after : (s.live geth happening).1.was.Balanced
  inside : ∀ block, happening = .block block → ∀ applied, applied <+: block.transactions →
    (applyTransactions geth (.ofBytes 32 block.hash) s.was 0 applied).1.Balanced
  within : ∀ block root, happening = .block block → (s.processBlock geth block).2 = .ok root →
    ((s.applyBlock geth block).1.receipts.map Receipt.gasUsed).sum ≤ gasLimit

/-- The property of a run: the counters agree in every state of it. -/
def ConservesGas (s : State World) (happenings : List Happening) : Prop :=
  s.was.Balanced ∧ Along (State.live geth) (GasConserved geth) s happenings

/-! ### The condition -/

/-- A message that is refused before it buys its gas, or has none to buy. -/
def Geth.BuysNone (message : Message) (accounts : World) (pool : Int) : Prop :=
  ¬ geth.Admits message accounts pool ∨ message.gasLimit = 0

instance (message : Message) (accounts : World) (pool : Int) :
    Decidable (geth.BuysNone message accounts pool) := inferInstanceAs (Decidable (_ ∨ _))

/-- A block in which a transaction that is not applied buys no gas. -/
def Sparing (blockHash : Hash) : WriteAheadState World → Nat → List Bytes → Prop
  | _, _, [] => True
  | was, txIndex, txBytes :: rest =>
    match geth.txStep blockHash was.ethState.accounts was.gp txBytes with
    | .ok step => Sparing blockHash (was.take geth blockHash txIndex step) (txIndex + 1) rest
    | .error _ => Idle geth was txBytes
    | .panic => Idle geth was txBytes

instance decidableSparing (blockHash : Hash) : ∀ (was : WriteAheadState World) (txIndex : Nat)
    (transactions : List Bytes), Decidable (Sparing geth blockHash was txIndex transactions)
  | _, _, [] => isTrue trivial
  | was, txIndex, txBytes :: rest => by
    unfold Sparing
    exact match geth.txStep blockHash was.ethState.accounts was.gp txBytes with
      | .ok step => decidableSparing blockHash (was.take geth blockHash txIndex step) (txIndex + 1) rest
      | .error _ => inferInstanceAs (Decidable (Idle geth was txBytes))
      | .panic => inferInstanceAs (Decidable (Idle geth was txBytes))

/-- A call that buys no gas, or a block in which every transaction is applied or buys none. -/
def SparesGas (s : State World) : Happening → Prop
  | .createAccounts _ => True
  | .block block => Sparing geth (.ofBytes 32 block.hash) s.was 0 block.transactions
  | .call message => geth.BuysNone message s.was.ethState.accounts s.was.gp
  | .restart => True

instance (s : State World) (happening : Happening) : Decidable (SparesGas geth s happening) :=
  match happening with
  | .createAccounts _ => inferInstanceAs (Decidable True)
  | .block block =>
    inferInstanceAs (Decidable (Sparing geth (.ofBytes 32 block.hash) s.was 0 block.transactions))
  | .call message =>
    inferInstanceAs (Decidable (geth.BuysNone message s.was.ethState.accounts s.was.gp))
  | .restart => inferInstanceAs (Decidable True)

/-! ### Messages -/

section Messages

variable {geth} {context : Context} {message : Message} {accounts : World} {pool : Int}

variable (context) in
/-- What an admitted message takes out of the pool: its gas limit, but for what comes back of it when
it ends well. -/
theorem execute_taken (laws : geth.PoolLaws) (bought : geth.BoughtLaws)
    (admitted : geth.Admits message accounts pool) :
    (∃ executed, (geth.execute context message accounts pool).outcome = .ok executed ∧
        (geth.execute context message accounts pool).pool = pool - executed.gasUsed ∧
        executed.gasUsed ≤ message.gasLimit) ∨
      (geth.execute context message accounts pool).pool = pool - message.gasLimit := by
  cases outcome : (geth.execute context message accounts pool).outcome with
  | ok executed =>
    exact Or.inl ⟨executed, rfl, laws.success _ _ _ _ _ outcome, bought.returned _ _ _ _ _ outcome⟩
  | error failure => exact Or.inr (laws.failure _ _ _ _ _ admitted outcome)
  | panic => exact Or.inr (bought.panicked _ _ _ _ admitted outcome)

/-- **The pool is as it was exactly when the message bought no gas.** -/
theorem execute_pool_iff (admission : geth.AdmissionLaws) (laws : geth.PoolLaws)
    (bought : geth.BoughtLaws) (spent : geth.SpentLaws) :
    (geth.execute context message accounts pool).pool = pool ↔
      geth.BuysNone message accounts pool := by
  unfold Geth.BuysNone
  by_cases admitted : geth.Admits message accounts pool
  · constructor
    · intro kept
      refine Or.inr ?_
      rcases execute_taken context laws bought admitted with
        ⟨executed, finished, left, most⟩ | left
      · by_cases sign : 0 ≤ message.gasLimit
        · have used := spent.positive _ _ _ _ _ finished sign
          omega
        · omega
      · omega
    · rintro (refused | free)
      · exact absurd admitted refused
      · rw [admission.underpaid _ _ _ _ admitted (by rw [free]; decide), free]
        exact Int.sub_zero pool
  · obtain ⟨error, ends⟩ := admission.refused context message accounts pool admitted
    rw [ends]
    exact iff_of_true rfl (Or.inl admitted)

/-- **A pool does not go below zero.** -/
theorem execute_solvent (admission : geth.AdmissionLaws) (laws : geth.PoolLaws)
    (bought : geth.BoughtLaws) (solvent : 0 ≤ pool) :
    0 ≤ (geth.execute context message accounts pool).pool := by
  by_cases admitted : geth.Admits message accounts pool
  · have fits : message.gasLimit ≤ pool := admitted.2.2.2
    rcases execute_taken context laws bought admitted with ⟨executed, -, left, most⟩ | left
    · omega
    · omega
  · obtain ⟨error, ends⟩ := admission.refused context message accounts pool admitted
    rw [ends]
    exact solvent

end Messages

/-! ### Transactions -/

section Transactions

variable {geth} {was left : WriteAheadState World} {txBytes : Bytes} {txIndex : Nat}
  {blockHash : Hash}

/-- With the same records the counters agree exactly on the same pool. -/
theorem WriteAheadState.Balanced.kept_iff (balanced : was.Balanced) (same : was.SameRecords left) :
    left.Balanced ↔ left.gp = was.gp := by
  have whole := balanced.conserved
  have total := same.totalUsedGas
  constructor
  · intro again
    have sum := again.conserved
    omega
  · intro kept
    refine ⟨by omega, ?_, kept ▸ balanced.bounded⟩
    rw [same.totalUsedGas, same.receipts]
    exact balanced.receipts

/-- The receipts of counters that agree have at most the gas limit. -/
theorem WriteAheadState.Balanced.within (balanced : was.Balanced) (solvent : 0 ≤ was.gp) :
    (was.receipts.map Receipt.gasUsed).sum ≤ gasLimit := by
  have whole := balanced.conserved
  rw [← balanced.receipts]
  omega

/-- A transaction that is applied moves the gas it used. -/
theorem take_balanced (laws : geth.PoolLaws) (codec : geth.CodecLaws) (balanced : was.Balanced)
    {step : TxStep World}
    (stepped : geth.txStep blockHash was.ethState.accounts was.gp txBytes = .ok step) :
    (was.take geth blockHash txIndex step).Balanced := by
  obtain ⟨t, message, executed, read, finished, rfl⟩ := txStep_ok stepped
  have moved := laws.success _ _ _ _ _ finished
  have used := (laws.bounds _ _ _ _ _ finished (gasLimit_nonneg codec read)).1
  have whole := balanced.conserved
  have bounded := balanced.bounded
  refine ⟨?_, ?_, ?_⟩
  · show (geth.execute _ message was.ethState.accounts was.gp).pool +
      (was.totalUsedGas + executed.gasUsed) = gasLimit
    rw [moved]
    omega
  · show was.totalUsedGas + executed.gasUsed = ((was.receipts ++ [_]).map Receipt.gasUsed).sum
    rw [List.map_append, List.sum_append, ← balanced.receipts]
    exact congrArg (was.totalUsedGas + ·) (Int.add_zero _).symm
  · show (geth.execute _ message was.ethState.accounts was.gp).pool ≤ gasLimit
    rw [moved]
    omega

/-- The pool of a transaction that was read is that of its message. -/
theorem applyTransaction_gp {t : Transaction} {message : Message}
    (read : geth.readMessage txBytes = .ok (t, message)) :
    (applyTransaction geth was txBytes txIndex blockHash).1.gp =
      (geth.execute (transactionContext message blockHash) message was.ethState.accounts was.gp).pool := by
  rcases applyTransaction_cases read with ⟨executed, -, applied⟩ | ⟨-, left, -⟩
  · rw [applied]
    rfl
  · rw [left]
    rfl

/-- A transaction that is not applied leaves the counters in agreement exactly when it bought no
gas. -/
theorem stopped_balanced_iff (admission : geth.AdmissionLaws) (laws : geth.PoolLaws)
    (bought : geth.BoughtLaws) (spent : geth.SpentLaws) (balanced : was.Balanced)
    (stopped : (applyTransaction geth was txBytes txIndex blockHash).2 ≠ .ok ()) :
    (applyTransaction geth was txBytes txIndex blockHash).1.Balanced ↔ Idle geth was txBytes := by
  rw [balanced.kept_iff (failed_records stopped)]
  unfold Idle
  cases read : geth.readMessage txBytes with
  | error failure =>
    rw [applyTransaction_unread read]
    exact iff_of_true rfl trivial
  | ok found =>
    obtain ⟨t, message⟩ := found
    rw [applyTransaction_gp read]
    exact execute_pool_iff admission laws bought spent

/-- The states inside a block are the one before it and those from its first transaction on. -/
theorem inside_cons (balanced : was.Balanced) {rest : List Bytes} :
    (∀ applied, applied <+: txBytes :: rest →
        (applyTransactions geth blockHash was txIndex applied).1.Balanced) ↔
      ∀ applied, applied <+: rest → (continueBlock geth blockHash txIndex applied
        (applyTransaction geth was txBytes txIndex blockHash)).1.Balanced := by
  constructor
  · intro every applied listed
    have here := every (txBytes :: applied) (List.cons_prefix_cons.mpr ⟨rfl, listed⟩)
    rwa [applyTransactions_cons] at here
  · intro every applied listed
    rcases List.prefix_cons_iff.mp listed with rfl | ⟨later, rfl, behind⟩
    · exact balanced
    · rw [applyTransactions_cons]
      exact every later behind

/-- Behind a transaction that is not applied a block has no other states. -/
theorem stopped_inside_iff (admission : geth.AdmissionLaws) (laws : geth.PoolLaws)
    (bought : geth.BoughtLaws) (spent : geth.SpentLaws) (balanced : was.Balanced) (rest : List Bytes)
    (stopped : (applyTransaction geth was txBytes txIndex blockHash).2 ≠ .ok ()) :
    (∀ applied, applied <+: rest → (continueBlock geth blockHash txIndex applied
      (applyTransaction geth was txBytes txIndex blockHash)).1.Balanced) ↔ Idle geth was txBytes := by
  rw [← stopped_balanced_iff admission laws bought spent balanced stopped]
  constructor
  · intro every
    have here := every [] List.nil_prefix
    rwa [continueBlock_stopped stopped] at here
  · intro here applied _
    rwa [continueBlock_stopped stopped]

/-- **The counters agree after every transaction of a block** exactly when each one is applied or buys
no gas. -/
theorem applyTransactions_balanced_iff (admission : geth.AdmissionLaws) (laws : geth.PoolLaws)
    (bought : geth.BoughtLaws) (spent : geth.SpentLaws) (codec : geth.CodecLaws)
    (balanced : was.Balanced) (transactions : List Bytes) :
    (∀ applied, applied <+: transactions →
        (applyTransactions geth blockHash was txIndex applied).1.Balanced) ↔
      Sparing geth blockHash was txIndex transactions := by
  induction transactions generalizing was txIndex with
  | nil =>
    refine iff_of_true (fun applied listed => ?_) trivial
    rw [List.prefix_nil.mp listed]
    exact balanced
  | cons txBytes rest ih =>
    have outcome := applyTransaction_step geth blockHash was txIndex txBytes
    rw [inside_cons balanced, Sparing]
    cases stepped : geth.txStep blockHash was.ethState.accounts was.gp txBytes with
    | ok step =>
      rw [stepped] at outcome
      unfold continueBlock
      rw [outcome.1, outcome.2 step rfl]
      exact ih (take_balanced laws codec balanced stepped)
    | error failure =>
      rw [stepped] at outcome
      exact stopped_inside_iff admission laws bought spent balanced rest
        (by rw [outcome.1]; exact Outcome.error_ne_ok _ _)
    | panic =>
      rw [stepped] at outcome
      exact stopped_inside_iff admission laws bought spent balanced rest
        (by rw [outcome.1]; exact Outcome.panic_ne_ok _)

theorem applyTransaction_solvent (admission : geth.AdmissionLaws) (laws : geth.PoolLaws)
    (bought : geth.BoughtLaws) (solvent : 0 ≤ was.gp) :
    0 ≤ (applyTransaction geth was txBytes txIndex blockHash).1.gp := by
  cases read : geth.readMessage txBytes with
  | error failure =>
    rw [applyTransaction_unread read]
    exact solvent
  | ok found =>
    rw [applyTransaction_gp read]
    exact execute_solvent admission laws bought solvent

theorem applyTransactions_solvent (admission : geth.AdmissionLaws) (laws : geth.PoolLaws)
    (bought : geth.BoughtLaws) (solvent : 0 ≤ was.gp) (transactions : List Bytes) :
    0 ≤ (applyTransactions geth blockHash was txIndex transactions).1.gp :=
  applyTransactions_preserves (fun was => 0 ≤ was.gp)
    (fun _ _ _ solvent => applyTransaction_solvent admission laws bought solvent) transactions solvent

end Transactions

/-! ### Commits -/

/-- A write-ahead state that was replaced by a fresh one, or whose counters stand. -/
def WriteAheadState.ResetOr (was left : WriteAheadState World) : Prop :=
  (∃ statedb, left = .fresh statedb) ∨ was.SameRecords left ∧ left.gp = was.gp

section Commits

variable {geth} {s : State World} {was left : WriteAheadState World}

theorem fresh_balanced (statedb : StateDB World) : (WriteAheadState.fresh statedb).Balanced :=
  ⟨Int.add_zero gasLimit, rfl, Int.le_refl gasLimit⟩

theorem WriteAheadState.ResetOr.balanced (either : was.ResetOr left) (balanced : was.Balanced) :
    left.Balanced := by
  rcases either with ⟨statedb, rfl⟩ | ⟨same, kept⟩
  · exact fresh_balanced statedb
  · exact (balanced.kept_iff same).mpr kept

theorem WriteAheadState.ResetOr.solvent (either : was.ResetOr left) (solvent : 0 ≤ was.gp) :
    0 ≤ left.gp := by
  rcases either with ⟨statedb, rfl⟩ | ⟨-, kept⟩
  · show 0 ≤ gasLimit
    decide
  · rw [kept]
    exact solvent

variable (geth s) in
theorem commit_resetOr : s.was.ResetOr (s.commit geth).1.was := by
  cases outcome : (s.was.commit geth s.db).outcome with
  | ok root =>
    rw [State.commit_ok outcome]
    exact Or.inl ⟨_, rfl⟩
  | error failure =>
    rw [State.commit_error outcome]
    exact Or.inr ⟨⟨rfl, rfl, rfl, rfl, rfl⟩, rfl⟩
  | panic => exact absurd outcome WriteAheadState.commit_ne_panic

theorem createAccounts_resetOr (accounts : AccountMap) :
    s.was.ResetOr (s.createAccounts geth accounts).1.was := by
  unfold State.createAccounts
  dsimp only
  split
  · rcases commit_resetOr geth (s.withAccounts
      (createAccountsLoop geth s.was.ethState.accounts accounts).1) with fresh | ⟨same, kept⟩
    · exact Or.inl fresh
    · exact Or.inr ⟨⟨same.totalUsedGas, same.txIndex, same.transactions, same.receipts,
        same.allLogs⟩, kept⟩
  · exact Or.inr ⟨⟨rfl, rfl, rfl, rfl, rfl⟩, rfl⟩

theorem processBlock_resetOr (block : Block) :
    (s.applyBlock geth block).1.ResetOr (s.processBlock geth block).1.was := by
  rcases applied : s.applyBlock geth block with ⟨was, _ | _ | _⟩
  · rw [State.processBlock_ok applied]
    exact commit_resetOr geth { s with was }
  · rw [State.processBlock_error applied]
    exact Or.inr ⟨⟨rfl, rfl, rfl, rfl, rfl⟩, rfl⟩
  · rw [State.processBlock_panic applied]
    exact Or.inr ⟨⟨rfl, rfl, rfl, rfl, rfl⟩, rfl⟩

theorem restart_resetOr : s.was.ResetOr (s.live geth .restart).1.was := by
  unfold State.live State.reopen
  dsimp only
  cases opened : newState geth s.db with
  | ok other => exact Or.inl ⟨_, (newState_fresh opened).2⟩
  | error failure => exact Or.inr ⟨⟨rfl, rfl, rfl, rfl, rfl⟩, rfl⟩

end Commits

/-! ### Runs -/

section Runs

variable {geth} {s : State World} {happening : Happening}

theorem live_solvent (admission : geth.AdmissionLaws) (laws : geth.PoolLaws)
    (bought : geth.BoughtLaws) (solvent : 0 ≤ s.was.gp) : 0 ≤ (s.live geth happening).1.was.gp := by
  cases happening with
  | createAccounts accounts => exact (createAccounts_resetOr accounts).solvent solvent
  | block block =>
    exact (processBlock_resetOr block).solvent
      (applyTransactions_solvent admission laws bought solvent block.transactions)
  | call message => exact execute_solvent admission laws bought solvent
  | restart => exact restart_resetOr.solvent solvent

/-- **One happening**: the counters stay in agreement exactly when no gas is lost. -/
theorem live_conserved_iff (admission : geth.AdmissionLaws) (laws : geth.PoolLaws)
    (bought : geth.BoughtLaws) (spent : geth.SpentLaws) (codec : geth.CodecLaws)
    (balanced : s.was.Balanced) (solvent : 0 ≤ s.was.gp) :
    GasConserved geth s happening ↔ SparesGas geth s happening := by
  cases happening with
  | createAccounts accounts =>
    exact iff_of_true ⟨(createAccounts_resetOr accounts).balanced balanced, nofun, nofun⟩ trivial
  | restart => exact iff_of_true ⟨restart_resetOr.balanced balanced, nofun, nofun⟩ trivial
  | call message =>
    have same : s.was.SameRecords (s.live geth (.call message)).1.was := ⟨rfl, rfl, rfl, rfl, rfl⟩
    have after : (s.live geth (.call message)).1.was.Balanced ↔
        geth.BuysNone message s.was.ethState.accounts s.was.gp :=
      (balanced.kept_iff same).trans (execute_pool_iff admission laws bought spent)
    exact ⟨fun conserved => after.mp conserved.after,
      fun spares => ⟨after.mpr spares, nofun, nofun⟩⟩
  | block block =>
    have inside : (∀ applied, applied <+: block.transactions →
          (applyTransactions geth (.ofBytes 32 block.hash) s.was 0 applied).1.Balanced) ↔
        Sparing geth (.ofBytes 32 block.hash) s.was 0 block.transactions :=
      applyTransactions_balanced_iff admission laws bought spent codec balanced block.transactions
    constructor
    · intro conserved
      exact inside.mp (conserved.inside block rfl)
    · intro spares
      have every := inside.mpr spares
      have applied : (s.applyBlock geth block).1.Balanced := every _ List.prefix_rfl
      refine ⟨(processBlock_resetOr block).balanced applied, ?_, ?_⟩
      · rintro other same
        cases same
        exact every
      · rintro other root same -
        cases same
        exact applied.within (applyTransactions_solvent admission laws bought solvent _)

/-- **Gas is conserved in a run exactly when every call buys none and every transaction of a block
is applied or buys none.** -/
theorem gas_conserved_iff (admission : geth.AdmissionLaws) (laws : geth.PoolLaws)
    (bought : geth.BoughtLaws) (spent : geth.SpentLaws) (codec : geth.CodecLaws) {db : Database}
    (opened : newState geth db = .ok s) (happenings : List Happening) :
    ConservesGas geth s happenings ↔ Along (State.live geth) (SparesGas geth) s happenings := by
  have fresh := (newState_fresh opened).2
  have balanced : s.was.Balanced := by
    rw [fresh]
    exact fresh_balanced s.statedb
  have solvent : 0 ≤ s.was.gp := by
    rw [fresh]
    show 0 ≤ gasLimit
    decide
  refine (and_iff_right balanced).trans ?_
  exact along_iff (State.live geth) (fun s => s.was.Balanced ∧ 0 ≤ s.was.gp)
    (fun s happening sound =>
      live_conserved_iff admission laws bought spent codec sound.1 sound.2)
    (fun s happening sound conserved =>
      ⟨conserved.after, live_solvent admission laws bought sound.2⟩) ⟨balanced, solvent⟩

end Runs

/-! ### Gas of the small chain -/

namespace Sample

/-- A call that asks for less than no gas. -/
def negativeCall : Message := ⟨alice, some bob, 0, 0, -gasLimit, 0, [], false⟩

/-- Two transactions that use up the whole gas limit each. -/
def wasteful : Block :=
  blockOf [signed 0 gasLimit (.ofBytes 20 [4]) 0, signed 1 gasLimit (.ofBytes 20 [4]) 0]

/-- After the call the pool holds more than the gas limit, and the block of both transactions is
accepted. -/
theorem negative_call_not_conserved : newState Sample.geth Store.empty = .ok blank ∧
    ¬ ConservesGas Sample.geth blank
      [.createAccounts brokenGenesis, .call negativeCall, .block wasteful] := by
  refine ⟨newState_empty, fun ⟨_, _, _, conserved, _⟩ => ?_⟩
  obtain ⟨root, accepted⟩ := Outcome.isOk_iff.mp (show
    ((run (State.live Sample.geth) blank [.createAccounts brokenGenesis, .call negativeCall]).1.processBlock
      Sample.geth wasteful).2.isOk = true by decide +kernel)
  exact absurd (conserved.within wasteful root rfl accepted) (by decide +kernel)

/-- A transfer that is applied, a call for more than the pool holds, and bytes that cannot be decoded
behind a transfer. -/
theorem transfers_conserved : ConservesGas Sample.geth blank
    [.createAccounts genesis, .block payment,
      .call ⟨alice, some bob, 0, 0, 2 * gasLimit, 0, [], false⟩,
      .block ⟨[6], [encoded (signed 1 21000 bob 5), []]⟩] :=
  (gas_conserved_iff admissionLaws poolLaws boughtLaws spentLaws codecLaws newState_empty _).mpr
    (by decide +kernel)

end Sample

end EvmBabble
