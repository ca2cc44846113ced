/-
A node that serves its API and its blocks.

`makeHandler` takes the service mutex and gives it back without a `defer`, and net/http recovers a
handler that panicked; nothing recovers `Proxy.Serve`. A `Node` is the state with what a panic leaves
of the rest: a mutex that is never freed, or a process that has ended.

* `execution_panic_iff`, `blockExecutions_panic_iff` — a call or a block panics exactly when one of
  the messages it executes asks for a number its context leaves out.
* `node_serves_iff` — a node answers everything, and its mutex is free again each time, exactly as
  long as no transaction's program reads the time or the difficulty, and no call's program a number.
-/

import EvmBabble.Service.Sample
import EvmBabble.State.Steps
import EvmBabble.Library.Run

namespace EvmBabble

open Library

variable {World : Type}

/-! ### The node -/

/-- The state, whether a handler that panicked still holds the service mutex, and whether the process
has crashed. -/
structure Node (World : Type) where
  state : State World
  locked : Bool
  crashed : Bool

/-- A node when its API begins to be served. -/
def Node.start (s : State World) : Node World := ⟨s, false, false⟩

inductive NodeInput
  | request (request : ApiRequest)
  | block (block : Block)

/-- What comes of an input; a request for a mutex that is never freed waits, and a process that has
ended answers nothing. -/
inductive NodeAnswer
  | replied (submitted : List Bytes) (response : Response)
  | recovered
  | waiting
  | responded (root : Except Failure Hash)
  | down
deriving DecidableEq

section Nodes

variable (geth : Geth World) (web : Web) (keyStore : KeyStore)

/-- `makeHandler`: the mutex is given back only if the handler returns. -/
def Node.serveRequest (node : Node World) (request : ApiRequest) : Node World × NodeAnswer :=
  if node.locked then (node, .waiting)
  else
    let handled := handle geth web keyStore node.state request
    match handled.reply with
    | .response response => ({ node with state := handled.state }, .replied handled.submitted response)
    | .panic => ({ node with state := handled.state, locked := true }, .recovered)

/-- A block from `CommitCh`: a panic ends the process. -/
def Node.serveBlock (node : Node World) (block : Block) : Node World × NodeAnswer :=
  let processed := node.state.processBlock geth block
  match processed.2 with
  | .ok root => ({ node with state := processed.1 }, .responded (.ok root))
  | .error failure => ({ node with state := processed.1 }, .responded (.error failure))
  | .panic => ({ node with state := processed.1, crashed := true }, .down)

def Node.step (node : Node World) (input : NodeInput) : Node World × NodeAnswer :=
  if node.crashed then (node, .down)
  else match input with
    | .request request => node.serveRequest geth web keyStore request
    | .block block => node.serveBlock geth block

/-! ### Executions -/

/-- A message that is executed: its context, the accounts and the pool it finds. -/
structure Execution (World : Type) where
  context : Context
  message : Message
  accounts : World
  pool : Int

/-- The messages a block executes; the last one may fail. -/
def blockExecutions (blockHash : Hash) :
    WriteAheadState World → Nat → List Bytes → List (Execution World)
  | _, _, [] => []
  | was, txIndex, txBytes :: rest =>
    match geth.readMessage txBytes with
    | .error _ => []
    | .ok (_, message) =>
      ⟨transactionContext message blockHash, message, was.ethState.accounts, was.gp⟩ ::
        match applyTransaction geth was txBytes txIndex blockHash with
        | (next, .ok ()) => blockExecutions blockHash next (txIndex + 1) rest
        | _ => []

/-- A message that is handed to `Call`. -/
def callExecution (s : State World) (message : Message) : Execution World :=
  ⟨callContext message, message, s.was.ethState.accounts, s.was.gp⟩

/-- The messages an input has the node execute. -/
def executions (node : Node World) : NodeInput → List (Execution World)
  | .request request =>
    (handle geth web keyStore node.state request).called.map (callExecution node.state)
  | .block block =>
    blockExecutions geth (.ofBytes 32 block.hash) node.state.was 0 block.transactions

/-- The execution asks for no number its context leaves out. -/
def Execution.ReadsSet (execution : Execution World) : Prop :=
  ∀ field ∈ (geth.transition execution.context.toMessageContext execution.message
      execution.accounts execution.pool).path execution.context.field,
    execution.context.field field ≠ none

/-- The context with the numbers that are left out filled in. -/
def Context.filled (context : Context) (fill : BlockField → Int) (field : BlockField) : Option Int :=
  some ((context.field field).getD (fill field))

/-- With every number of the context filled in, the program does not read one that was left out. -/
def Execution.Avoids (fill : BlockField → Int) (execution : Execution World) : Prop :=
  ∀ field ∈ (geth.transition execution.context.toMessageContext execution.message
      execution.accounts execution.pool).path (execution.context.filled fill),
    execution.context.field field ≠ none

/-- The numbers that the program of an execution reads, with those that are left out filled in with
zero. -/
def Execution.numbersRead (execution : Execution World) : List BlockField :=
  (geth.transition execution.context.toMessageContext execution.message execution.accounts
    execution.pool).path (execution.context.filled fun _ => 0)

/-- No transaction that the block comes to reads TIMESTAMP or DIFFICULTY, and the message of a call reads
none of TIMESTAMP, NUMBER, DIFFICULTY and GASLIMIT. -/
def NumbersUnread (node : Node World) : NodeInput → Prop
  | .request (.call body) => ∀ args, body.bind web.decodeArgs = some args →
    (callExecution node.state (prepareCallMessage web args)).numbersRead geth = []
  | .request _ => True
  | .block block =>
    ∀ execution ∈ blockExecutions geth (.ofBytes 32 block.hash) node.state.was 0 block.transactions,
      .time ∉ execution.numbersRead geth ∧ .difficulty ∉ execution.numbersRead geth

/-- The numbers the context of a transaction leaves out. -/
theorem transactionContext_gap (message : Message) (blockHash : Hash) (field : BlockField) :
    (transactionContext message blockHash).field field = none ↔ field = .time ∨ field = .difficulty := by
  cases field <;> simp [Context.field, transactionContext]

/-- The context of a call leaves all of them out. -/
theorem callContext_gap (message : Message) (field : BlockField) :
    (callContext message).field field = none := by
  cases field <;> rfl

/-- A program avoids the numbers exactly when it never asks for one that is unset. -/
theorem readsSet_iff_avoids (fill : BlockField → Int) (execution : Execution World) :
    execution.ReadsSet geth ↔ execution.Avoids geth fill := by
  have filled := Reading.path_filled_iff execution.context.field
    (execution.context.filled fill) (fun field set => by
      obtain ⟨value, found⟩ := Option.ne_none_iff_exists'.mp set
      rw [Context.filled, found]
      rfl)
    (geth.transition execution.context.toMessageContext execution.message execution.accounts
      execution.pool)
  constructor
  · intro set field member unset
    obtain ⟨other, inside, missing⟩ := filled.mpr ⟨field, member, unset⟩
    exact set other inside missing
  · intro avoids field member unset
    obtain ⟨other, inside, missing⟩ := filled.mp ⟨field, member, unset⟩
    exact avoids other inside missing

/-- Each execution of a block has the context of a transaction. -/
theorem blockExecutions_context {blockHash : Hash} {was : WriteAheadState World} {txIndex : Nat}
    {transactions : List Bytes} {execution : Execution World}
    (member : execution ∈ blockExecutions geth blockHash was txIndex transactions) :
    execution.context = transactionContext execution.message blockHash := by
  induction transactions generalizing was txIndex with
  | nil => cases member
  | cons txBytes rest ih =>
    rw [blockExecutions] at member
    split at member
    · cases member
    · rcases List.mem_cons.mp member with rfl | later
      · rfl
      · split at later
        · exact ih later
        · cases later

/-- A transaction asks for set numbers only exactly when it reads neither the time nor the difficulty. -/
theorem transaction_readsSet_iff {execution : Execution World} {blockHash : Hash}
    (context : execution.context = transactionContext execution.message blockHash) :
    execution.ReadsSet geth ↔
      .time ∉ execution.numbersRead geth ∧ .difficulty ∉ execution.numbersRead geth := by
  rw [readsSet_iff_avoids geth fun _ => 0]
  show (∀ field ∈ execution.numbersRead geth, execution.context.field field ≠ none) ↔ _
  rw [context]
  simp only [ne_eq, transactionContext_gap]
  constructor
  · intro avoids
    exact ⟨fun member => avoids _ member (Or.inl rfl), fun member => avoids _ member (Or.inr rfl)⟩
  · rintro ⟨time, difficulty⟩ field member (rfl | rfl)
    · exact time member
    · exact difficulty member

/-- A call asks for set numbers only exactly when it reads none. -/
theorem call_readsSet_iff (s : State World) (message : Message) :
    (callExecution s message).ReadsSet geth ↔ (callExecution s message).numbersRead geth = [] := by
  rw [readsSet_iff_avoids geth fun _ => 0, List.eq_nil_iff_forall_not_mem]
  exact forall_congr' fun field => forall_congr' fun _ => not_iff_false_intro (callContext_gap message field)

theorem execution_panic_iff (execution : Execution World) :
    (geth.execute execution.context execution.message execution.accounts execution.pool).outcome =
      .panic ↔ ¬ execution.ReadsSet geth := by
  rw [Geth.execute_panic_iff]
  unfold Execution.ReadsSet
  push Not
  rfl

/-! ### Steps -/

variable {geth}

theorem applyTransaction_panic_iff (was : WriteAheadState World) {txBytes : Bytes} (txIndex : Nat)
    (blockHash : Hash) {t : Transaction} {message : Message}
    (read : geth.readMessage txBytes = .ok (t, message)) :
    (applyTransaction geth was txBytes txIndex blockHash).2 = .panic ↔
      ¬ (⟨transactionContext message blockHash, message, was.ethState.accounts, was.gp⟩ :
        Execution World).ReadsSet geth := by
  rw [applyTransaction_read read, ← execution_panic_iff]
  show _ ↔ (was.runMessage geth t message txIndex blockHash).outcome = .panic
  unfold WriteAheadState.afterMessage
  cases (was.runMessage geth t message txIndex blockHash).outcome with
  | ok executed => exact iff_of_false (Outcome.ok_ne_panic _) (Outcome.ok_ne_panic _)
  | error failure => exact iff_of_false (Outcome.error_ne_panic _) (Outcome.error_ne_panic _)
  | panic => exact iff_of_true rfl rfl

/-- The loop of a block panics exactly when one of its messages asks for an unset number. -/
theorem blockExecutions_panic_iff (blockHash : Hash) (was : WriteAheadState World) (txIndex : Nat)
    (transactions : List Bytes) :
    (applyTransactions geth blockHash was txIndex transactions).2 = .panic ↔
      ¬ ∀ execution ∈ blockExecutions geth blockHash was txIndex transactions,
        execution.ReadsSet geth := by
  induction transactions generalizing was txIndex with
  | nil => exact iff_of_false (Outcome.ok_ne_panic _) (not_not.mpr (List.forall_mem_nil _))
  | cons txBytes rest ih =>
    rw [applyTransactions_cons, continueBlock, blockExecutions]
    cases read : geth.readMessage txBytes with
    | error failure =>
      rw [applyTransaction_unread read]
      exact iff_of_false (Outcome.error_ne_panic _) (not_not.mpr (List.forall_mem_nil _))
    | ok pair =>
      obtain ⟨t, message⟩ := pair
      have first := applyTransaction_panic_iff was txIndex blockHash read
      dsimp only
      rw [List.forall_mem_cons, not_and_or, ← first]
      rcases applyTransaction geth was txBytes txIndex blockHash with ⟨next, _ | _ | _⟩
      · rw [← ih next (txIndex + 1)]
        exact ⟨Or.inr, fun stuck => stuck.resolve_left (Outcome.ok_ne_panic _)⟩
      · exact iff_of_false (Outcome.error_ne_panic _)
          (not_or.mpr ⟨Outcome.error_ne_panic _, not_not.mpr (List.forall_mem_nil _)⟩)
      · exact iff_of_true rfl (Or.inl rfl)

theorem processBlock_panic_iff (s : State World) (block : Block) :
    (s.processBlock geth block).2 = .panic ↔
      ¬ ∀ execution ∈ blockExecutions geth (.ofBytes 32 block.hash) s.was 0 block.transactions,
        execution.ReadsSet geth := by
  rw [← blockExecutions_panic_iff]
  show _ ↔ (s.applyBlock geth block).2 = .panic
  rcases applied : s.applyBlock geth block with ⟨was, _ | failure | _⟩
  · -- a commit that follows does not panic
    rw [State.processBlock_ok applied, State.commit_outcome]
    exact iff_of_false WriteAheadState.commit_ne_panic (Outcome.ok_ne_panic _)
  · rw [State.processBlock_error applied]
    exact iff_of_false (Outcome.error_ne_panic _) (Outcome.error_ne_panic _)
  · rw [State.processBlock_panic applied]
    exact iff_of_true rfl rfl

theorem call_panic_iff (s : State World) (message : Message) :
    (s.call geth message).2 = .panic ↔ ¬ (callExecution s message).ReadsSet geth := by
  have outcome : (s.call geth message).2 =
      (geth.execute (callContext message) message s.was.ethState.accounts s.was.gp).outcome.map
        Executed.ret := by
    unfold State.call
    rw [← StateDB.copy_accounts, ← Geth.applyMessage_outcome]
    dsimp only
    cases (geth.applyMessage (callContext message) message s.was.ethState.copy s.was.gp).outcome with
    | ok executed => rfl
    | error failure => rfl
    | panic => rfl
  rw [outcome, Outcome.map_panic_iff, ← execution_panic_iff]
  rfl

/-- A call panics as its message does. -/
theorem callHandler_panic_iff (s : State World) (body : Option Bytes) :
    (callHandler geth web s body).reply = .panic ↔
      ¬ ∀ message ∈ (callHandler geth web s body).called, (callExecution s message).ReadsSet geth := by
  unfold callHandler
  cases body.bind web.decodeArgs with
  | none => exact iff_of_false (fun panics => by cases panics) (not_not.mpr (List.forall_mem_nil _))
  | some args =>
    dsimp only
    rw [List.forall_mem_singleton, ← call_panic_iff]
    cases (s.call geth (prepareCallMessage web args)).2 with
    | ok data => exact iff_of_false (fun panics => by cases panics) (Outcome.ok_ne_panic _)
    | error failure => exact iff_of_false (fun panics => by cases panics) (Outcome.error_ne_panic _)
    | panic => exact iff_of_true rfl rfl

/-- Only POST /call executes a message, and only that can panic. -/
theorem handle_panic_iff (node : Node World) (request : ApiRequest) :
    (handle geth web keyStore node.state request).reply = .panic ↔
      ¬ ∀ execution ∈ executions geth web keyStore node (.request request), execution.ReadsSet geth := by
  rw [executions, List.forall_mem_map]
  have quiet : ∀ {handled : Handled World}, handled.Answered node.state → (handled.reply = .panic ↔
      ¬ ∀ message ∈ handled.called, (callExecution node.state message).ReadsSet geth) := by
    rintro handled ⟨submitted, response, rfl⟩
    exact iff_of_false (fun panics => by cases panics) (not_not.mpr (List.forall_mem_nil _))
  cases request with
  | getAccount param => exact quiet ⟨[], _, rfl⟩
  | getAccounts => exact quiet ⟨[], _, rfl⟩
  | call body => exact callHandler_panic_iff web node.state body
  | tx body => exact quiet (transactionHandler_answered geth web keyStore node.state body)
  | rawtx body => exact quiet (rawTransactionHandler_answered geth web node.state body)
  | getTx param => exact quiet (transactionReceiptHandler_answered geth node.state param)

/-- The executions of an input ask for set numbers only exactly when they leave unread what their contexts
leave out. -/
theorem executions_readsSet_iff (node : Node World) (input : NodeInput) :
    (∀ execution ∈ executions geth web keyStore node input, execution.ReadsSet geth) ↔
      NumbersUnread geth web node input := by
  have quiet : ∀ {request : ApiRequest}, (handle geth web keyStore node.state request).Answered node.state →
      ∀ execution ∈ executions geth web keyStore node (.request request), execution.ReadsSet geth := by
    rintro request ⟨submitted, response, answered⟩
    rw [executions, answered]
    exact List.forall_mem_nil _
  cases input with
  | block block =>
    exact forall_congr' fun execution => forall_congr' fun member =>
      transaction_readsSet_iff geth (blockExecutions_context geth member)
  | request request =>
    cases request with
    | call body =>
      rw [executions, List.forall_mem_map]
      show (∀ message ∈ (callHandler geth web node.state body).called, _) ↔
        ∀ args, body.bind web.decodeArgs = some args → _
      unfold callHandler
      cases body.bind web.decodeArgs with
      | none => exact iff_of_true (List.forall_mem_nil _) nofun
      | some args =>
        simp only [List.forall_mem_singleton, Option.some.injEq, forall_eq']
        exact call_readsSet_iff geth node.state (prepareCallMessage web args)
    | getAccount param => exact iff_of_true (quiet ⟨[], _, rfl⟩) trivial
    | getAccounts => exact iff_of_true (quiet ⟨[], _, rfl⟩) trivial
    | tx body =>
      exact iff_of_true (quiet (transactionHandler_answered geth web keyStore node.state body)) trivial
    | rawtx body =>
      exact iff_of_true (quiet (rawTransactionHandler_answered geth web node.state body)) trivial
    | getTx param =>
      exact iff_of_true (quiet (transactionReceiptHandler_answered geth node.state param)) trivial

/-! ### Runs -/

/-- Nobody holds the mutex, and the process has not ended. -/
def Node.Free (node : Node World) : Prop := node.locked = false ∧ node.crashed = false

/-- An answer of a node that works: a response, or a root or error for a block. -/
def NodeAnswer.Proper : NodeAnswer → Prop
  | .replied _ _ => True
  | .responded _ => True
  | .recovered => False
  | .waiting => False
  | .down => False

variable (geth) in
/-- The property of one input: no execution asks for an unset number, there is an answer, and the mutex
is free again. -/
def Served (node : Node World) (input : NodeInput) : Prop :=
  (∀ execution ∈ executions geth web keyStore node input, execution.ReadsSet geth) ∧
    (node.step geth web keyStore input).2.Proper ∧ (node.step geth web keyStore input).1.Free

/-- An input without an answer is not served. -/
theorem unserved {node : Node World} {input : NodeInput}
    (improper : ¬ (node.step geth web keyStore input).2.Proper) :
    ¬ Served geth web keyStore node input := fun served => improper served.2.1

/-- On a free node, an input is served when its executions ask for set numbers only. -/
theorem served_of_readsSet {node : Node World} (free : node.Free) (input : NodeInput)
    (set : ∀ execution ∈ executions geth web keyStore node input, execution.ReadsSet geth) :
    Served geth web keyStore node input := by
  obtain ⟨unlocked, alive⟩ := free
  refine ⟨set, ?_⟩
  unfold Node.step
  rw [alive]
  cases input with
  | request request =>
    have returned := mt (handle_panic_iff web keyStore node request).mp (not_not.mpr set)
    simp only [Bool.false_eq_true, if_false, Node.serveRequest, unlocked]
    cases reply : (handle geth web keyStore node.state request).reply with
    | response response => exact ⟨trivial, rfl, alive⟩
    | panic => exact absurd reply returned
  | block block =>
    have returned := mt (processBlock_panic_iff node.state block).mp (not_not.mpr set)
    simp only [Bool.false_eq_true, if_false, Node.serveBlock]
    cases outcome : (node.state.processBlock geth block).2 with
    | ok root => exact ⟨trivial, unlocked, alive⟩
    | error failure => exact ⟨trivial, unlocked, alive⟩
    | panic => exact absurd outcome returned

variable (geth) in
/-- **A node serves everything exactly as long as no program reads what the contexts leave out**: a
transaction's the time and the difficulty, a call's any number. -/
theorem node_serves_iff (s : State World) (inputs : List NodeInput) :
    Along (Node.step geth web keyStore) (Served geth web keyStore) (.start s) inputs ↔
      Along (Node.step geth web keyStore) (NumbersUnread geth web) (.start s) inputs := by
  constructor
  · refine along_invariant _ (fun _ => True) ?_ trivial
    intro node input _ served
    exact ⟨(executions_readsSet_iff web keyStore node input).mp served.1, trivial⟩
  · refine along_invariant _ Node.Free ?_ ⟨rfl, rfl⟩
    intro node input free unread
    have served := served_of_readsSet web keyStore free input
      ((executions_readsSet_iff web keyStore node input).mpr unread)
    exact ⟨served, served.2.2⟩

end Nodes

/-! ### Programs of the small chain -/

namespace Sample

/-- Alice and two contracts: one reads the time, the other the block number. -/
def clocks : AccountMap :=
  [("0x01", ⟨"", [], "1000000"⟩), ("0x03", ⟨"42", [], "0"⟩), ("0x04", ⟨"43", [], "0"⟩)]

def ticking : State Ledger := (blank.createAccounts Sample.geth clocks).1

/-- A call from alice to the contract that reads the block number. -/
def numberBody : Bytes :=
  bodyOf "\x7b\"from\":\"0x0000000000000000000000000000000000000001\"," ++
    bodyOf "\"to\":\"0x0000000000000000000000000000000000000004\"\x7d"

/-- A transaction that runs TIMESTAMP ends the process, and a call that runs NUMBER leaves the mutex
held. -/
theorem clocks_not_served :
    ¬ Along (Node.step Sample.geth web keyStore) (Served Sample.geth web keyStore) (.start ticking)
        [.block (blockOf [signed 0 30000 (.ofBytes 20 [3]) 0])] ∧
      ¬ Along (Node.step Sample.geth web keyStore) (Served Sample.geth web keyStore) (.start ticking)
        [.request (.call (some numberBody)), .request .getAccounts] := by
  constructor
  · intro served
    have crashed : ((Node.start ticking).step Sample.geth web keyStore
        (.block (blockOf [signed 0 30000 (.ofBytes 20 [3]) 0]))).2 = .down := by decide +kernel
    exact unserved web keyStore (by rw [crashed]; exact not_false) served.1
  · intro served
    have waits : ((((Node.start ticking).step Sample.geth web keyStore
        (.request (.call (some numberBody)))).1).step Sample.geth web keyStore
          (.request .getAccounts)).2 = .waiting := by decide +kernel
    exact unserved web keyStore (by rw [waits]; exact not_false) served.2.1

example : ((Node.start ticking).step Sample.geth web keyStore
    (.block (blockOf [signed 0 30000 (.ofBytes 20 [4]) 0]))).2 ≠ .down := by decide +kernel

end Sample

end EvmBabble
