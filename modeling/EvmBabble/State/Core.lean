/-
The state application (`state.go`).

Every method is a function from the state to the state it leaves and its outcome. The write-ahead
state is changed in place by the source, so an error or a panic leaves it as it was when it
happened; only a commit replaces it. The mutex of the source plays no part here: each method holds
it from its first step to its last.
-/

import EvmBabble.State.WriteAhead

namespace EvmBabble

open Library

/-- `gasLimit`: the gas pool of a block. -/
def gasLimit : Int := 1000000000000000000

/-- `hashgraph.Block`: what the node reads of it. -/
structure Block where
  hash : Bytes
  transactions : List Bytes
deriving DecidableEq

/-- An entry of `AccountMap`. -/
structure GenesisAccount where
  code : String
  storage : List (String × String)
  balance : String

/-- `AccountMap`, in the order in which a `range` over it goes. -/
abbrev AccountMap := List (String × GenesisAccount)

structure State (World : Type) where
  db : Database
  statedb : StateDB World
  was : WriteAheadState World

variable {World : Type}

/-- The write-ahead state `resetWAS` makes over a committed state. -/
def WriteAheadState.fresh (statedb : StateDB World) : WriteAheadState World where
  ethState := statedb.copy
  txIndex := 0
  transactions := []
  receipts := []
  allLogs := []
  totalUsedGas := 0
  gp := gasLimit

/-! ### Transactions -/

/-- The `vm.Context` of a transaction: `Time` and `Difficulty` are left out. -/
def transactionContext (message : Message) (blockHash : Hash) : Context where
  getHash _ := blockHash
  origin := message.sender
  gasPrice := message.price
  coinbase := default
  gasLimit := some message.gasLimit
  blockNumber := some 0
  time := none
  difficulty := none

/-- The `vm.Context` of a call: all four numbers are left out. -/
def callContext (message : Message) : Context where
  getHash _ := default
  origin := message.sender
  gasPrice := message.price
  coinbase := default
  gasLimit := none
  blockNumber := none
  time := none
  difficulty := none

section Transactions

variable (geth : Geth World)

/-- The receipt of an applied transaction. -/
def makeReceipt (t : Transaction) (message : Message) (root : Hash) (executed : Executed)
    (totalUsedGas : Int) (logs : List Log) : Receipt where
  postState := root.bytes
  failed := executed.failed
  cumulativeGasUsed := totalUsedGas
  bloom := geth.createBloom logs
  txHash := geth.txHash t
  contractAddress :=
    if message.recipient = none then geth.createAddress message.sender t.nonce else default
  logs := logs
  gasUsed := executed.gasUsed

/-- `applyTransaction`: a transaction applied to the write-ahead state. -/
def applyTransaction (was : WriteAheadState World) (txBytes : Bytes) (txIndex : Nat) (blockHash : Hash) :
    WriteAheadState World × Outcome Unit :=
  match geth.rlpDecode txBytes with
  | none => (was, .error .decodingTransaction)
  | some t =>
    match geth.asMessage t with
    | none => (was, .error .convertingTransaction)
    | some message =>
      let prepared := was.ethState.prepare (geth.txHash t) blockHash txIndex
      let applied := geth.applyMessage (transactionContext message blockHash) message prepared was.gp
      let left := { was with ethState := applied.state, gp := applied.pool }
      match applied.outcome with
      | .error failure => (left, .error failure)
      | .panic => (left, .panic)
      | .ok executed =>
        let totalUsedGas := was.totalUsedGas + executed.gasUsed
        let (root, ethState) := geth.intermediateRoot applied.state
        let logs := ethState.getLogs (geth.txHash t)
        let receipt := makeReceipt geth t message root executed totalUsedGas logs
        ({ left with
            ethState
            totalUsedGas
            txIndex := was.txIndex + 1
            transactions := was.transactions ++ [t]
            receipts := was.receipts ++ [receipt]
            allLogs := was.allLogs ++ logs }, .ok ())

/-- The loop of `ProcessBlock`: it ends at the first transaction that is not applied. -/
def applyTransactions (blockHash : Hash) :
    WriteAheadState World → Nat → List Bytes → WriteAheadState World × Outcome Unit
  | was, _, [] => (was, .ok ())
  | was, txIndex, txBytes :: rest =>
    match applyTransaction geth was txBytes txIndex blockHash with
    | (next, .ok ()) => applyTransactions blockHash next (txIndex + 1) rest
    | (next, .error failure) => (next, .error failure)
    | (next, .panic) => (next, .panic)

end Transactions

/-! ### Commits and blocks -/

namespace State

variable (geth : Geth World) (s : State World)

def resetWAS : State World := { s with was := .fresh s.statedb }

/-- `commit`: the write-ahead state becomes the committed one, and a fresh one replaces it. -/
def commit : State World × Outcome Hash :=
  let committed := s.was.commit geth s.db
  let db := s.db.writes committed.writes
  match committed.outcome with
  | .ok root => (resetWAS { s with db, statedb := committed.ethState }, .ok root)
  | .error failure =>
    ({ s with db, was := { s.was with ethState := committed.ethState } }, .error failure)
  | .panic => ({ s with db, was := { s.was with ethState := committed.ethState } }, .panic)

def processBlock (block : Block) : State World × Outcome Hash :=
  let applied := applyTransactions geth (.ofBytes 32 block.hash) s.was 0 block.transactions
  let left := { s with was := applied.1 }
  match applied.2 with
  | .ok () => left.commit geth
  | .error failure => (left, .error failure)
  | .panic => (left, .panic)

/-! ### Read-only operations -/

/-- `Call`: the message runs on a copy of the write-ahead state and on its own gas pool. -/
def call (message : Message) : State World × Outcome Bytes :=
  let applied := geth.applyMessage (callContext message) message s.was.ethState.copy s.was.gp
  ({ s with was := { s.was with gp := applied.pool } },
    match applied.outcome with
    | .ok executed => .ok executed.ret
    | .error failure => .error failure
    | .panic => .panic)

def getBalance (address : Address) : Int := geth.getBalance s.statedb address

def getNonce (address : Address) : Nat := geth.getNonce s.was.ethState address

end State

/-- `GetTransaction`. -/
def getTransaction (geth : Geth World) (db : Database) (hash : Hash) : Except Failure Transaction :=
  match db (transactionKey hash) with
  | none => .error .notFound
  | some data =>
    match geth.rlpDecodeBytes data with
    | none => .error .decodingTransaction
    | some t => .ok t

/-- `GetReceipt`. -/
def getReceipt (geth : Geth World) (db : Database) (hash : Hash) : Except Failure Receipt :=
  match db (receiptKey hash) with
  | none => .error .notFound
  | some data =>
    match geth.rlpDecodeReceipt data with
    | none => .error .decodingReceipt
    | some receipt => .ok receipt

/-! ### Start-up -/

/-- The root `InitState` opens: the one in the head transaction's receipt, if there is a head. -/
def headRoot (geth : Geth World) (db : Database) : Except Failure Hash :=
  match db headTxKey with
  | none => .ok default
  | some [] => .ok default
  | some data =>
    match getReceipt geth db (.ofBytes 32 data) with
    | .error failure => .error failure
    | .ok receipt =>
      if receipt.postState = [] then .ok default else .ok (.ofBytes 32 receipt.postState)

/-- `InitState`. -/
def initState (geth : Geth World) (db : Database) : Except Failure (StateDB World) :=
  match headRoot geth db with
  | .error failure => .error failure
  | .ok root =>
    match geth.openState db root with
    | none => .error .openingState
    | some accounts => .ok (.ofAccounts accounts)

/-- `NewState` on an open database. -/
def newState (geth : Geth World) (db : Database) : Except Failure (State World) :=
  match initState geth db with
  | .error failure => .error failure
  | .ok statedb => .ok { db, statedb, was := .fresh statedb }

/-! ### Genesis accounts -/

/-- The storage loop of `CreateAccounts`. -/
def setStorage (geth : Geth World) (address : Address) (accounts : World)
    (storage : List (String × String)) : World :=
  storage.foldl (fun accounts slot =>
    geth.setState accounts address (geth.hexToHash slot.1) (geth.hexToHash slot.2)) accounts

/-- One entry of `CreateAccounts`; `none` is the panic of `MustParseBig256`. -/
def createAccount (geth : Geth World) (accounts : World) (entry : String × GenesisAccount) :
    Option World :=
  let address := geth.hexToAddress entry.1
  (geth.parseBig256 entry.2.balance).map fun balance =>
    setStorage geth address
      (geth.setCode (geth.addBalance accounts address balance) address (geth.hex2Bytes entry.2.code))
      entry.2.storage

/-- The account loop of `CreateAccounts`: the accounts it leaves, and whether it ran to its end. -/
def createAccountsLoop (geth : Geth World) : World → AccountMap → World × Bool
  | accounts, [] => (accounts, true)
  | accounts, entry :: rest =>
    match createAccount geth accounts entry with
    | none => (accounts, false)
    | some next => createAccountsLoop geth next rest

/-- `CreateAccounts`; the outcome carries the root that the source drops. -/
def State.createAccounts (geth : Geth World) (s : State World) (accounts : AccountMap) :
    State World × Outcome Hash :=
  let created := createAccountsLoop geth s.was.ethState.accounts accounts
  let left : State World := { s with was.ethState.accounts := created.1 }
  if created.2 then left.commit geth else (left, .panic)

end EvmBabble
