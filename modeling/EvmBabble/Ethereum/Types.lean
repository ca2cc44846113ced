/-
The data of go-ethereum that the node handles.

Byte arrays of a fixed length carry their length, so a hash is always 32 bytes and an address 20.
The account state itself is a parameter `World`; a `StateDB` is an account state with the log book
that `Prepare`, `AddLog` and `GetLogs` work on. It is a value here, so `Copy` has only to drop the
prepared hashes, which it does not copy.
-/

import Mathlib.Logic.Function.Basic
import Mathlib.Data.List.Basic
import Mathlib.Tactic.Common

namespace EvmBabble

abbrev Bytes := List UInt8

/-! ### Fixed-length bytes -/

/-- A byte array of a fixed length. -/
structure FixedBytes (size : Nat) where
  bytes : Bytes
  length_eq : bytes.length = size
deriving DecidableEq

namespace FixedBytes

variable {size : Nat}

/-- `SetBytes` on a zero array: a long slice loses its front, a short one is padded there. -/
def ofBytes (size : Nat) (data : Bytes) : FixedBytes size where
  bytes := List.replicate (size - data.length) 0 ++ data.drop (data.length - size)
  length_eq := by
    rw [List.length_append, List.length_replicate, List.length_drop]
    omega

instance : Inhabited (FixedBytes size) := ⟨ofBytes size []⟩

theorem bytes_injective : Function.Injective (bytes : FixedBytes size → Bytes) := by
  rintro ⟨first, _⟩ ⟨second, _⟩ same
  cases same
  rfl

/-- A slice of the right length is taken as it is. -/
theorem bytes_ofBytes {data : Bytes} (length : data.length = size) :
    (ofBytes size data).bytes = data := by
  simp [ofBytes, length]

@[simp] theorem ofBytes_bytes (data : FixedBytes size) : ofBytes size data.bytes = data :=
  bytes_injective (bytes_ofBytes data.length_eq)

end FixedBytes

/-- `common.Hash`. -/
abbrev Hash := FixedBytes 32

/-- `common.Address`. -/
abbrev Address := FixedBytes 20

/-- `ethTypes.Bloom`. -/
abbrev Bloom := FixedBytes 256

/-! ### Accounts -/

/-- What an account state holds at one address. -/
structure Account where
  nonce : Nat
  balance : Int
  code : Bytes
  storage : Hash → Hash

/-- What an address holds before anything touches it. -/
def Account.blank : Account := ⟨0, 0, [], fun _ => default⟩

/-- An account that `deleteEmptyObjects` removes. -/
def Account.empty (account : Account) : Prop :=
  account.nonce = 0 ∧ account.balance = 0 ∧ account.code = []

instance (account : Account) : Decidable account.empty :=
  inferInstanceAs (Decidable (_ ∧ _ ∧ _))

theorem Account.blank_empty : Account.blank.empty := ⟨rfl, rfl, rfl⟩

/-! ### Logs and the state database -/

/-- A log as the EVM emits it. -/
structure LogEntry where
  address : Address
  topics : List Hash
  data : Bytes
  blockNumber : Nat
deriving DecidableEq

/-- `ethTypes.Log`: an emitted log with the place `AddLog` stamps on it. -/
structure Log extends LogEntry where
  txHash : Hash
  blockHash : Hash
  txIndex : Nat
  index : Nat
deriving DecidableEq

/-- `ethState.StateDB`: the account state and the log book. -/
structure StateDB (World : Type) where
  accounts : World
  thash : Hash
  bhash : Hash
  txIndex : Nat
  logs : Hash → List Log
  logSize : Nat

namespace StateDB

variable {World : Type}

/-- A state database over an account state, as `ethState.New` makes it. -/
def ofAccounts (accounts : World) : StateDB World :=
  ⟨accounts, default, default, 0, fun _ => [], 0⟩

def copy (statedb : StateDB World) : StateDB World :=
  { statedb with thash := default, bhash := default, txIndex := 0 }

def prepare (statedb : StateDB World) (thash bhash : Hash) (txIndex : Nat) : StateDB World :=
  { statedb with thash, bhash, txIndex }

/-- `AddLog` stamps the log with what `Prepare` was given and the running counter, and files it
under the prepared hash. -/
def addLog (statedb : StateDB World) (entry : LogEntry) : StateDB World :=
  let log : Log :=
    { toLogEntry := entry, txHash := statedb.thash, blockHash := statedb.bhash,
      txIndex := statedb.txIndex, index := statedb.logSize }
  { statedb with
    logs := Function.update statedb.logs statedb.thash (statedb.logs statedb.thash ++ [log])
    logSize := statedb.logSize + 1 }

def addLogs (statedb : StateDB World) (entries : List LogEntry) : StateDB World :=
  entries.foldl addLog statedb

def getLogs (statedb : StateDB World) (hash : Hash) : List Log := statedb.logs hash

@[simp] theorem copy_accounts (statedb : StateDB World) : statedb.copy.accounts = statedb.accounts := rfl

@[simp] theorem copy_copy (statedb : StateDB World) : statedb.copy.copy = statedb.copy := rfl

@[simp] theorem copy_prepare (statedb : StateDB World) (thash bhash : Hash) (txIndex : Nat) :
    (statedb.prepare thash bhash txIndex).copy = statedb.copy := rfl

@[simp] theorem prepare_accounts (statedb : StateDB World) (thash bhash : Hash) (txIndex : Nat) :
    (statedb.prepare thash bhash txIndex).accounts = statedb.accounts := rfl

@[simp] theorem prepare_copy (statedb : StateDB World) (thash bhash : Hash) (txIndex : Nat) :
    statedb.copy.prepare thash bhash txIndex = statedb.prepare thash bhash txIndex := rfl

@[simp] theorem addLogs_accounts (statedb : StateDB World) (entries : List LogEntry) :
    (statedb.addLogs entries).accounts = statedb.accounts := by
  induction entries generalizing statedb with
  | nil => rfl
  | cons entry entries ih => exact ih (statedb.addLog entry)

/-- Emitted logs as `AddLog` stamps them, the first of them with the given index. -/
def stamp (thash bhash : Hash) (txIndex : Nat) : Nat → List LogEntry → List Log
  | _, [] => []
  | first, entry :: entries =>
    ⟨entry, thash, bhash, txIndex, first⟩ :: stamp thash bhash txIndex (first + 1) entries

theorem stamp_entries (thash bhash : Hash) (txIndex first : Nat) (entries : List LogEntry) :
    (stamp thash bhash txIndex first entries).map Log.toLogEntry = entries := by
  induction entries generalizing first with
  | nil => rfl
  | cons entry entries ih => rw [stamp, List.map_cons, ih]

/-- What emitted logs do to the state database: they are stamped and filed under the prepared
hash. -/
theorem addLogs_eq (statedb : StateDB World) (entries : List LogEntry) :
    statedb.addLogs entries =
      { statedb with
        logs := Function.update statedb.logs statedb.thash (statedb.logs statedb.thash ++
          stamp statedb.thash statedb.bhash statedb.txIndex statedb.logSize entries)
        logSize := statedb.logSize + entries.length } := by
  induction entries generalizing statedb with
  | nil => simp [addLogs, stamp]
  | cons entry entries ih =>
    show (statedb.addLog entry).addLogs entries = _
    rw [ih]
    simp only [addLog, stamp, Function.update_self, Function.update_idem, List.append_assoc,
      List.singleton_append, List.length_cons]
    congr 1
    omega

theorem addLogs_with (statedb : StateDB World) (accounts : World) (entries : List LogEntry) :
    { statedb with accounts }.addLogs entries = { statedb.addLogs entries with accounts } := by
  rw [addLogs_eq, addLogs_eq]

end StateDB

/-! ### Transactions, messages and receipts -/

/-- `ethTypes.Transaction`. -/
structure Transaction where
  nonce : Nat
  price : Int
  gasLimit : Int
  recipient : Option Address
  amount : Int
  payload : Bytes
  v : Int
  r : Int
  s : Int
deriving DecidableEq

/-- The value `&ethTypes.Transaction{}`; a nil number is encoded as zero. -/
def Transaction.empty : Transaction := ⟨0, 0, 0, none, 0, [], 0, 0, 0⟩

/-- `ethTypes.Message`. -/
structure Message where
  sender : Address
  recipient : Option Address
  nonce : Nat
  amount : Int
  gasLimit : Int
  price : Int
  data : Bytes
  checkNonce : Bool
deriving DecidableEq

/-- `ethTypes.Receipt`. -/
structure Receipt where
  postState : Bytes
  failed : Bool
  cumulativeGasUsed : Int
  bloom : Bloom
  txHash : Hash
  contractAddress : Address
  logs : List Log
  gasUsed : Int
deriving DecidableEq

/-! ### The execution context -/

/-- The numeric fields of `vm.Context` that describe the block. -/
inductive BlockField
  | blockNumber
  | time
  | difficulty
  | gasLimit
deriving DecidableEq

/-- The rest of `vm.Context`: what both contexts of the node fill in. -/
structure MessageContext where
  getHash : Nat → Hash
  origin : Address
  gasPrice : Int
  coinbase : Address

/-- `vm.Context`; a number left out of the literal is a nil pointer. -/
structure Context extends MessageContext where
  gasLimit : Option Int
  blockNumber : Option Int
  time : Option Int
  difficulty : Option Int

/-- The number a block opcode dereferences. -/
def Context.field (context : Context) : BlockField → Option Int
  | .blockNumber => context.blockNumber
  | .time => context.time
  | .difficulty => context.difficulty
  | .gasLimit => context.gasLimit

/-! ### Errors and outcomes -/

/-- The errors of `core.ApplyMessage`. -/
inductive CoreError
  | nonceTooHigh
  | nonceTooLow
  | outOfGas
  | insufficientBalanceForGas
  | gasLimitReached
  | insufficientBalance
deriving DecidableEq

/-- The errors the node's own functions return. -/
inductive Failure
  | decodingTransaction
  | convertingTransaction
  | applying (error : CoreError)
  | encodingTransaction
  | encodingReceipt
  | notFound
  | decodingReceipt
  | openingState
deriving DecidableEq

/-- How a call ends: with a value, with an error, or with a panic. -/
inductive Outcome (α : Type)
  | ok (value : α)
  | error (failure : Failure)
  | panic
deriving DecidableEq

namespace Outcome

variable {α β : Type}

def bind (outcome : Outcome α) (next : α → Outcome β) : Outcome β :=
  match outcome with
  | .ok value => next value
  | .error failure => .error failure
  | .panic => .panic

def map (f : α → β) (outcome : Outcome α) : Outcome β := outcome.bind fun value => .ok (f value)

def isOk : Outcome α → Bool
  | .ok _ => true
  | .error _ => false
  | .panic => false

theorem isOk_iff {outcome : Outcome α} : outcome.isOk = true ↔ ∃ value, outcome = .ok value := by
  cases outcome with
  | ok value => exact ⟨fun _ => ⟨value, rfl⟩, fun _ => rfl⟩
  | error failure => exact ⟨nofun, nofun⟩
  | panic => exact ⟨nofun, nofun⟩

theorem ok_ne_panic (value : α) : (.ok value : Outcome α) ≠ .panic := nofun

theorem error_ne_panic (failure : Failure) : (.error failure : Outcome α) ≠ .panic := nofun

theorem error_ne_ok (failure : Failure) (value : α) : (.error failure : Outcome α) ≠ .ok value := nofun

theorem panic_ne_ok (value : α) : (.panic : Outcome α) ≠ .ok value := nofun

theorem bind_ok {outcome : Outcome α} {next : α → Outcome β} {result : β}
    (done : outcome.bind next = .ok result) : ∃ value, outcome = .ok value ∧ next value = .ok result := by
  cases outcome with
  | ok value => exact ⟨value, rfl, done⟩
  | error failure => cases done
  | panic => cases done

theorem map_ok {outcome : Outcome α} {f : α → β} {result : β} (done : outcome.map f = .ok result) :
    ∃ value, outcome = .ok value ∧ f value = result := by
  obtain ⟨value, found, same⟩ := bind_ok done
  cases same
  exact ⟨value, found, rfl⟩

theorem map_ok_iff {outcome : Outcome α} {f : α → β} {result : β} :
    outcome.map f = .ok result ↔ ∃ value, outcome = .ok value ∧ f value = result :=
  ⟨map_ok, fun ⟨_, found, same⟩ => by rw [found, ← same]; rfl⟩

theorem map_panic_iff {outcome : Outcome α} {f : α → β} : outcome.map f = .panic ↔ outcome = .panic := by
  cases outcome with
  | ok value => exact iff_of_false (ok_ne_panic _) (ok_ne_panic _)
  | error failure => exact iff_of_false (error_ne_panic _) (error_ne_panic _)
  | panic => exact iff_of_true rfl rfl

end Outcome

end EvmBabble
