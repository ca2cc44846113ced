/-
Read-only operations and consensus.

`Call` runs on a copy of the write-ahead state but on its gas pool itself, so what it buys is missing
from the next block's pool. Apart from the pool nothing leaks: `Geth.PoolLaws.shift` says that a pool
that can still pay changes nothing but itself, and by induction over the block's transactions
(`applyTransactions_withPool`) a block that both pools cover ends the same way on both.

* `Covers` — the gas limits of a block's readable transactions fit into a pool.
* `queries_neutral` — a node that is also asked read-only operations answers every block as one that
  is not and stores the same records, when at every block the two pools are equal or both cover it.
-/

import EvmBabble.State.Requests
import EvmBabble.State.Sample
import Mathlib.Algebra.Order.BigOperators.Group.List
import Mathlib.Algebra.Order.Ring.Int

namespace EvmBabble

open Library

variable {World : Type} (geth : Geth World)

/-! ### The gas a block asks for -/

/-- The gas limit of a transaction that can be read. -/
def gasOf (txBytes : Bytes) : Int :=
  match geth.readMessage txBytes with
  | .ok (_, message) => message.gasLimit
  | .error _ => 0

/-- The gas limits of a block's readable transactions. -/
def totalGas (transactions : List Bytes) : Int := (transactions.map (gasOf geth)).sum

/-- A pool that holds the gas limits of a block's transactions together. -/
def Covers (pool : Int) (block : Block) : Prop := totalGas geth block.transactions ≤ pool

instance (pool : Int) (block : Block) : Decidable (Covers geth pool block) :=
  inferInstanceAs (Decidable (_ ≤ _))

variable {geth}

theorem gasOf_nonneg (codec : geth.CodecLaws) (txBytes : Bytes) : 0 ≤ gasOf geth txBytes := by
  unfold gasOf
  split
  · next read => exact gasLimit_nonneg codec read
  · exact le_refl 0

theorem gasOf_read {txBytes : Bytes} {t : Transaction} {message : Message}
    (read : geth.readMessage txBytes = .ok (t, message)) :
    gasOf geth txBytes = message.gasLimit := by
  rw [gasOf, read]

theorem totalGas_nonneg (codec : geth.CodecLaws) (transactions : List Bytes) :
    0 ≤ totalGas geth transactions :=
  List.sum_nonneg fun gas member => by
    obtain ⟨txBytes, -, rfl⟩ := List.mem_map.mp member
    exact gasOf_nonneg codec txBytes

/-! ### A block on another pool -/

namespace WriteAheadState

variable (was : WriteAheadState World)

/-- The write-ahead state with another gas pool. -/
def withPool (pool : Int) : WriteAheadState World := { was with gp := pool }

@[simp] theorem withPool_gp (pool : Int) : (was.withPool pool).gp = pool := rfl

@[simp] theorem withPool_self : was.withPool was.gp = was := rfl

end WriteAheadState

/-- A pool that can pay changes the run of a message by its difference only. -/
theorem runMessage_withPool (laws : geth.PoolLaws) (was : WriteAheadState World) (pool : Int)
    (t : Transaction) (message : Message) (txIndex : Nat) (blockHash : Hash)
    (here : message.gasLimit ≤ was.gp) (there : message.gasLimit ≤ pool) :
    (was.withPool pool).runMessage geth t message txIndex blockHash =
      { was.runMessage geth t message txIndex blockHash with
        pool := (was.runMessage geth t message txIndex blockHash).pool + (pool - was.gp) } := by
  unfold WriteAheadState.runMessage Geth.applyMessage
  simp only [WriteAheadState.withPool]
  rw [laws.shift _ _ _ was.gp pool here there]

/-- One transaction on another pool that can pay for it. -/
theorem applyTransaction_withPool (laws : geth.PoolLaws) (was : WriteAheadState World) (pool : Int)
    (txBytes : Bytes) (txIndex : Nat) (blockHash : Hash)
    (here : gasOf geth txBytes ≤ was.gp) (there : gasOf geth txBytes ≤ pool) :
    applyTransaction geth (was.withPool pool) txBytes txIndex blockHash =
      ((applyTransaction geth was txBytes txIndex blockHash).1.withPool
          ((applyTransaction geth was txBytes txIndex blockHash).1.gp + (pool - was.gp)),
        (applyTransaction geth was txBytes txIndex blockHash).2) := by
  cases read : geth.readMessage txBytes with
  | error failure =>
    rw [applyTransaction_unread read, applyTransaction_unread read]
    simp only [add_sub_cancel]
  | ok found =>
    obtain ⟨t, message⟩ := found
    rw [gasOf_read read] at here there
    rw [applyTransaction_read read, applyTransaction_read read,
      runMessage_withPool laws was pool t message txIndex blockHash here there]
    unfold WriteAheadState.afterMessage
    cases (was.runMessage geth t message txIndex blockHash).outcome <;> rfl

/-- An applied transaction takes at most its gas limit out of the pool. -/
theorem applyTransaction_pool_ge (laws : geth.PoolLaws) (codec : geth.CodecLaws)
    {was next : WriteAheadState World} {txBytes : Bytes} {txIndex : Nat} {blockHash : Hash}
    (applied : applyTransaction geth was txBytes txIndex blockHash = (next, .ok ())) :
    was.gp - gasOf geth txBytes ≤ next.gp := by
  cases read : geth.readMessage txBytes with
  | error failure =>
    rw [applyTransaction_unread read] at applied
    cases applied
  | ok found =>
    obtain ⟨t, message⟩ := found
    rw [applyTransaction_read read] at applied
    unfold WriteAheadState.afterMessage at applied
    split at applied
    · cases applied
    · cases applied
    · next executed finished =>
      cases applied
      have taken := laws.success _ _ _ _ _ finished
      have bound := (laws.bounds _ _ _ _ _ finished (gasLimit_nonneg codec read)).2
      rw [gasOf_read read]
      show _ ≤ (geth.execute _ _ _ _).pool
      rw [taken]
      omega

/-- A block's transactions on another pool that covers them. -/
theorem applyTransactions_withPool (laws : geth.PoolLaws) (codec : geth.CodecLaws)
    (blockHash : Hash) (transactions : List Bytes) :
    ∀ (was : WriteAheadState World) (txIndex : Nat) (pool : Int),
      totalGas geth transactions ≤ was.gp → totalGas geth transactions ≤ pool →
      ∃ left, applyTransactions geth blockHash (was.withPool pool) txIndex transactions =
        ((applyTransactions geth blockHash was txIndex transactions).1.withPool left,
          (applyTransactions geth blockHash was txIndex transactions).2) := by
  induction transactions with
  | nil => exact fun was txIndex pool _ _ => ⟨pool, rfl⟩
  | cons txBytes rest ih =>
    intro was txIndex pool here there
    have split : totalGas geth (txBytes :: rest) = gasOf geth txBytes + totalGas geth rest := by
      simp [totalGas]
    have tail := totalGas_nonneg codec rest
    rw [applyTransactions_cons, applyTransactions_cons,
      applyTransaction_withPool laws was pool txBytes txIndex blockHash (by omega) (by omega)]
    rcases applied : applyTransaction geth was txBytes txIndex blockHash with ⟨next, outcome⟩
    cases outcome with
    | ok _ =>
      have kept := applyTransaction_pool_ge laws codec applied
      exact ih next (txIndex + 1) (next.gp + (pool - was.gp)) (by omega) (by omega)
    | error failure => exact ⟨_, rfl⟩
    | panic => exact ⟨_, rfl⟩

/-- A commit looks at the pool only in the state it leaves when an encoding fails. -/
theorem commit_withPool (s : State World) (pool : Int) :
    ∃ left, (s.withPool pool).commit geth =
      ((s.commit geth).1.withPool left, (s.commit geth).2) := by
  have same : (s.withPool pool).was.commit geth (s.withPool pool).db = s.was.commit geth s.db :=
    WriteAheadState.commit_congr rfl rfl rfl
  cases outcome : (s.was.commit geth s.db).outcome with
  | ok root =>
    rw [State.commit_ok outcome, State.commit_ok (s := s.withPool pool) (by rw [same, outcome]), same]
    exact ⟨gasLimit, rfl⟩
  | error failure =>
    rw [State.commit_error outcome,
      State.commit_error (s := s.withPool pool) (by rw [same, outcome]), same]
    exact ⟨pool, rfl⟩
  | panic => exact absurd outcome WriteAheadState.commit_ne_panic

/-- **A block on another pool that covers it**: the same answer, and the same state but for the
pool. -/
theorem processBlock_withPool (laws : geth.PoolLaws) (codec : geth.CodecLaws) (s : State World)
    (block : Block) (pool : Int) (here : Covers geth s.was.gp block)
    (there : Covers geth pool block) :
    ∃ left, (s.withPool pool).processBlock geth block =
      ((s.processBlock geth block).1.withPool left, (s.processBlock geth block).2) := by
  obtain ⟨left, same⟩ := applyTransactions_withPool laws codec (.ofBytes 32 block.hash)
    block.transactions s.was 0 pool here there
  rcases applied : s.applyBlock geth block with ⟨was, outcome⟩
  have moved : (s.withPool pool).applyBlock geth block = (was.withPool left, outcome) := by
    refine same.trans ?_
    show ((s.applyBlock geth block).1.withPool left, (s.applyBlock geth block).2) = _
    rw [applied]
  cases outcome with
  | ok _ =>
    rw [State.processBlock_ok applied, State.processBlock_ok moved]
    exact commit_withPool { s with was } left
  | error failure =>
    rw [State.processBlock_error applied, State.processBlock_error moved]
    exact ⟨left, rfl⟩
  | panic =>
    rw [State.processBlock_panic applied, State.processBlock_panic moved]
    exact ⟨left, rfl⟩

/-! ### The node that is asked and the node that is not -/

/-- The read-only requests. -/
def isQuery (_ : State World) : Request → Bool
  | .block _ => false
  | .query _ => true

/-- At a block, the pools of the two nodes are equal, or both cover it. -/
def PoolsServe (geth : Geth World) (asked unasked : State World) : Request → Prop
  | .block block =>
    asked.was.gp = unasked.was.gp ∨
      (Covers geth asked.was.gp block ∧ Covers geth unasked.was.gp block)
  | .query _ => True

/-- The property of read-only operations: a node that is also asked them answers every block as one
that is not, and stores the same records. -/
def QueriesNeutral (geth : Geth World) (s : State World) (requests : List Request) : Prop :=
  visibleAnswers (State.serve geth) isQuery s requests =
      (run (State.serve geth) s (visibleInputs (State.serve geth) isQuery s requests)).2 ∧
    (run (State.serve geth) s requests).1.db =
      (run (State.serve geth) s (visibleInputs (State.serve geth) isQuery s requests)).1.db

/-- The asked node is the unasked one on another pool. -/
def PoolApart (asked unasked : State World) : Prop := asked = unasked.withPool asked.was.gp

/-- A block on both nodes, when their pools serve it. -/
theorem processBlock_poolApart (laws : geth.PoolLaws) (codec : geth.CodecLaws)
    {asked unasked : State World} {block : Block} (same : PoolApart asked unasked)
    (pools : PoolsServe geth asked unasked (.block block)) :
    PoolApart (asked.processBlock geth block).1 (unasked.processBlock geth block).1 ∧
      (asked.processBlock geth block).2 = (unasked.processBlock geth block).2 := by
  rcases pools with equal | ⟨here, there⟩
  · have merged : asked = unasked := by rw [same, equal]; rfl
    subst merged
    exact ⟨rfl, rfl⟩
  · obtain ⟨left, stepped⟩ :=
      processBlock_withPool laws codec unasked block asked.was.gp there here
    rw [← same] at stepped
    refine ⟨?_, by rw [stepped]⟩
    rw [stepped]
    rfl

/-- **Read-only operations do not influence consensus while the pools serve the blocks.** -/
theorem queries_neutral (laws : geth.PoolLaws) (codec : geth.CodecLaws) (s : State World)
    (requests : List Request)
    (served : Guarded (State.serve geth) isQuery (PoolsServe geth) s s requests) :
    QueriesNeutral geth s requests := by
  obtain ⟨answers, ends⟩ := erasure (State.serve geth) isQuery PoolApart
    (fun asked unasked request same _ shown => by
      cases request with
      | block block => cases shown
      | query query =>
        have moved := State.ask_withPool geth asked query
        show (asked.ask geth query).1 = _
        rw [moved, same]
        rfl)
    (fun asked unasked request same pools shown => by
      cases request with
      | query query => cases shown
      | block block =>
        obtain ⟨states, outcomes⟩ := processBlock_poolApart laws codec same pools
        exact ⟨states, congrArg Answer.root outcomes⟩)
    s s rfl served
  refine ⟨answers, ?_⟩
  rw [ends]
  rfl

/-! ### Two runs of the small chain -/

namespace Sample

/-- A call with all of the pool's gas that cannot pay what it sends. -/
def greedyCall : Message where
  sender := alice
  recipient := some bob
  nonce := 0
  amount := 2000000
  gasLimit := gasLimit
  price := 0
  data := []
  checkNonce := false

/-- The same call with the gas limit a request gets by default. -/
def modestCall : Message := { greedyCall with gasLimit := 90000 }

/-- The greedy call keeps what it bought, and the payment after it no longer fits into the pool. -/
theorem call_drains_pool : newState Sample.geth Store.empty = .ok blank ∧
    ¬ QueriesNeutral Sample.geth started [.query (.call greedyCall), .block payment] :=
  ⟨newState_empty, fun neutral => absurd neutral.1 (by decide +kernel)⟩

theorem modest_queries_neutral : QueriesNeutral Sample.geth started
    [.query (.call modestCall), .query (.getNonce alice), .block payment,
      .query (.getReceipt (txHash (signed 0 21000 bob 5))), .block (blockOf [])] :=
  queries_neutral poolLaws codecLaws started _
    ⟨trivial, trivial, Or.inr (by decide +kernel), trivial, Or.inl (by decide +kernel), trivial⟩

end Sample

end EvmBabble
