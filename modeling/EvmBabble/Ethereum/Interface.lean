/-
The functions of go-ethereum 1.7.0 that the node calls, as parameters.

None of this code is in the repository. `Geth` names each function the node uses, over any type of
account states; what the node relies on is stated apart, as laws. The EVM is a parameter too:
`transition` takes the part of the context both call sites fill in and *asks* for the block fields,
so a program that reads a number its caller left unset is visible as such.

`execute`, `applyMessage`, `intermediateRoot` and `commitTo` wire these functions to a `StateDB` the
way the library does.
-/

import EvmBabble.Ethereum.Types
import EvmBabble.Library.Reading
import EvmBabble.Library.Store

namespace EvmBabble

open Library

/-- The node's LevelDB database: one flat space of keys. -/
abbrev Database := Store Bytes Bytes

/-- What a message application that returned no error reports. -/
structure Executed where
  ret : Bytes
  gasUsed : Int
  failed : Bool
  emitted : List LogEntry
deriving DecidableEq

/-- What `core.ApplyMessage` leaves behind and returns. -/
structure Transition (World : Type) where
  accounts : World
  pool : Int
  result : Except CoreError Executed

/-- The functions of go-ethereum the node calls. -/
structure Geth (World : Type) where
  /-- `rlp.Decode` from a reader: what follows the first item is not looked at. -/
  rlpDecode : Bytes → Option Transaction
  /-- `rlp.DecodeBytes`: the item must be all of the input. -/
  rlpDecodeBytes : Bytes → Option Transaction
  rlpEncode : Transaction → Option Bytes
  rlpEncodeReceipt : Receipt → Option Bytes
  rlpDecodeReceipt : Bytes → Option Receipt
  txHash : Transaction → Hash
  /-- `ethTypes.Sender` with the EIP155 signer of chain 1. -/
  sender : Transaction → Option Address
  createAddress : Address → Nat → Address
  createBloom : List Log → Bloom
  /-- `core.ApplyMessage`; while it reads a block field it holds the accounts and the pool so far. -/
  transition : MessageContext → Message → World → Int →
    Reading BlockField Int (World × Int) (Transition World)
  /-- What `GetNonce`, `GetBalance`, `GetCode` and `GetState` read at an address. -/
  account : World → Address → Account
  /-- `Exist`: an account that is empty may be there or not. -/
  exist : World → Address → Bool
  /-- `GetOrNewStateObject`: an account is made, empty, where there is none. -/
  getOrNewStateObject : World → Address → World
  addBalance : World → Address → Int → World
  setCode : World → Address → Bytes → World
  setState : World → Address → Hash → Hash → World
  /-- `Finalise(true)`: self-destructed and empty accounts are removed. -/
  finalise : World → World
  root : World → Hash
  /-- The records `CommitTo` puts into the database, in order. -/
  trieRecords : Database → World → List (Bytes × Bytes)
  /-- `ethState.New`. -/
  openState : Database → Hash → Option World
  hexToAddress : String → Address
  hexToHash : String → Hash
  hex2Bytes : String → Bytes
  /-- `math.ParseBig256`; `MustParseBig256` panics on `none`. -/
  parseBig256 : String → Option Int

/-- An account state and a gas pool with the outcome of a message. -/
structure Applied (α : Type) where
  state : α
  pool : Int
  outcome : Outcome Executed

/-- What the run of a transition comes to. -/
def Applied.ofRun {World : Type} : Except (World × Int) (Transition World) → Applied World
  | .error (held, left) => ⟨held, left, .panic⟩
  | .ok ⟨accounts, pool, .error error⟩ => ⟨accounts, pool, .error (.applying error)⟩
  | .ok ⟨accounts, pool, .ok executed⟩ => ⟨accounts, pool, .ok executed⟩

namespace Geth

variable {World : Type} (geth : Geth World)

/-- `Transaction.AsMessage`: the transaction's own fields, its recovered sender, the nonce check on. -/
def asMessage (t : Transaction) : Option Message :=
  (geth.sender t).map fun sender =>
    { sender, recipient := t.recipient, nonce := t.nonce, amount := t.amount,
      gasLimit := t.gasLimit, price := t.price, data := t.payload, checkNonce := true }

/-- `core.ApplyMessage` on an account state; a read of an unset block field is a panic that leaves
what was changed by then. -/
def execute (context : Context) (message : Message) (accounts : World) (pool : Int) :
    Applied World :=
  .ofRun ((geth.transition context.toMessageContext message accounts pool).run context.field)

/-- The log entries of an outcome. -/
def emitted : Outcome Executed → List LogEntry
  | .ok executed => executed.emitted
  | .error _ => []
  | .panic => []

/-- `core.ApplyMessage` on a state database: the emitted logs go to its log book. -/
def applyMessage (context : Context) (message : Message) (statedb : StateDB World) (pool : Int) :
    Applied (StateDB World) :=
  let applied := geth.execute context message statedb.accounts pool
  { state := { statedb with accounts := applied.state }.addLogs (emitted applied.outcome)
    pool := applied.pool
    outcome := applied.outcome }

def getBalance (statedb : StateDB World) (address : Address) : Int :=
  (geth.account statedb.accounts address).balance

def getNonce (statedb : StateDB World) (address : Address) : Nat :=
  (geth.account statedb.accounts address).nonce

/-- `IntermediateRoot(true)`: the root, and the state database it finalised. -/
def intermediateRoot (statedb : StateDB World) : Hash × StateDB World :=
  let finalised := geth.finalise statedb.accounts
  (geth.root finalised, { statedb with accounts := finalised })

/-- `CommitTo(db, true)`: the finalised state database, the writes and the root. -/
def commitTo (db : Database) (statedb : StateDB World) :
    StateDB World × List (Write Bytes Bytes) × Hash :=
  let finalised := geth.finalise statedb.accounts
  ({ statedb with accounts := finalised },
    (geth.trieRecords db finalised).map fun record => .put record.1 record.2,
    geth.root finalised)

@[simp] theorem applyMessage_pool (context : Context) (message : Message) (statedb : StateDB World)
    (pool : Int) : (geth.applyMessage context message statedb pool).pool =
      (geth.execute context message statedb.accounts pool).pool := rfl

@[simp] theorem applyMessage_outcome (context : Context) (message : Message) (statedb : StateDB World)
    (pool : Int) : (geth.applyMessage context message statedb pool).outcome =
      (geth.execute context message statedb.accounts pool).outcome := rfl

@[simp] theorem applyMessage_accounts (context : Context) (message : Message) (statedb : StateDB World)
    (pool : Int) : (geth.applyMessage context message statedb pool).state.accounts =
      (geth.execute context message statedb.accounts pool).state :=
  StateDB.addLogs_accounts _ _

/-- The state database after a message that reported no error. -/
theorem applyMessage_state {context : Context} {message : Message} {statedb : StateDB World}
    {pool : Int} {executed : Executed}
    (finished : (geth.execute context message statedb.accounts pool).outcome = .ok executed) :
    (geth.applyMessage context message statedb pool).state =
      { statedb.addLogs executed.emitted with
        accounts := (geth.execute context message statedb.accounts pool).state } := by
  show { statedb with accounts := (geth.execute context message statedb.accounts pool).state }.addLogs
    (emitted (geth.execute context message statedb.accounts pool).outcome) = _
  rw [finished]
  exact StateDB.addLogs_with _ _ _

/-- A message panics exactly when its run asks for a block field its context left unset. -/
theorem execute_panic_iff (context : Context) (message : Message) (accounts : World)
    (pool : Int) :
    (geth.execute context message accounts pool).outcome = .panic ↔
      ∃ field ∈ (geth.transition context.toMessageContext message accounts pool).path context.field,
        context.field field = none := by
  rw [← Reading.run_stuck_iff, execute]
  rcases (geth.transition context.toMessageContext message accounts pool).run context.field with
    ⟨held, left⟩ | ⟨left, pool, _ | _⟩
  · exact ⟨fun _ => ⟨_, rfl⟩, fun _ => rfl⟩
  · exact ⟨nofun, nofun⟩
  · exact ⟨nofun, nofun⟩

end Geth

end EvmBabble
