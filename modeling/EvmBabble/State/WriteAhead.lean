/-
The write-ahead state (`was.go`).

`Commit` is a function of the database it writes to: it gives the writes it issues, in order, with
the committed state and the outcome, so that a stop between two writes is a prefix of that list. An
encoding error ends it early with the writes issued by then.
-/

import EvmBabble.Ethereum.Interface

namespace EvmBabble

open Library

/-- `headTxKey`: the bytes of `LastTx`. -/
def headTxKey : Bytes := [76, 97, 115, 116, 84, 120]

/-- `receiptsPrefix`: the bytes of `receipts-`. -/
def receiptsPrefix : Bytes := [114, 101, 99, 101, 105, 112, 116, 115, 45]

/-- The key of a transaction's record. -/
def transactionKey (hash : Hash) : Bytes := hash.bytes

/-- The key of a receipt's record. -/
def receiptKey (hash : Hash) : Bytes := receiptsPrefix ++ hash.bytes

theorem transactionKey_length (hash : Hash) : (transactionKey hash).length = 32 := hash.length_eq

theorem receiptKey_length (hash : Hash) : (receiptKey hash).length = 41 := by
  rw [receiptKey, List.length_append, hash.length_eq]
  rfl

theorem receiptKey_injective : Function.Injective receiptKey := fun _ _ same =>
  FixedBytes.bytes_injective (List.append_cancel_left same)

theorem transactionKey_injective : Function.Injective transactionKey := FixedBytes.bytes_injective

theorem transactionKey_ne_head (hash : Hash) : transactionKey hash ≠ headTxKey := fun same => by
  have lengths := congrArg List.length same
  rw [transactionKey_length] at lengths
  cases lengths

theorem receiptKey_ne_head (hash : Hash) : receiptKey hash ≠ headTxKey := fun same => by
  have lengths := congrArg List.length same
  rw [receiptKey_length] at lengths
  cases lengths

theorem receiptKey_ne_transactionKey (hash other : Hash) : receiptKey hash ≠ transactionKey other :=
  fun same => by
    have lengths := congrArg List.length same
    rw [receiptKey_length, transactionKey_length] at lengths
    cases lengths

/-- The state a block's transactions work on until it is committed. -/
structure WriteAheadState (World : Type) where
  ethState : StateDB World
  txIndex : Nat
  transactions : List Transaction
  receipts : List Receipt
  allLogs : List Log
  totalUsedGas : Int
  gp : Int

/-- What `WriteAheadState.Commit` does: the writes it issues, the state it leaves, its outcome. -/
structure Commit (World : Type) where
  writes : List (Write Bytes Bytes)
  ethState : StateDB World
  outcome : Outcome Hash

namespace WriteAheadState

variable {World : Type} (geth : Geth World) (was : WriteAheadState World)

/-- The head: the last transaction of the block, or an empty one. -/
def head : Transaction := was.transactions.getLast?.getD .empty

def writeHead : Write Bytes Bytes := .put headTxKey (geth.txHash was.head).bytes

/-- The records of the transaction batch, unless one of them cannot be encoded. -/
def transactionRecords : Option (List (Bytes × Bytes)) :=
  was.transactions.mapM fun t => (geth.rlpEncode t).map fun data => (transactionKey (geth.txHash t), data)

/-- The records of the receipt batch, unless one of them cannot be encoded. -/
def receiptRecords : Option (List (Bytes × Bytes)) :=
  was.receipts.mapM fun receipt =>
    (geth.rlpEncodeReceipt receipt).map fun data => (receiptKey receipt.txHash, data)

/-- `Commit`: the state trie, the head, the transactions, the receipts. -/
def commit (db : Database) : Commit World :=
  let (ethState, trie, root) := geth.commitTo db was.ethState
  match was.transactionRecords geth with
  | none => ⟨trie ++ [was.writeHead geth], ethState, .error .encodingTransaction⟩
  | some transactions =>
    match was.receiptRecords geth with
    | none =>
      ⟨trie ++ [was.writeHead geth, .batch transactions], ethState, .error .encodingReceipt⟩
    | some receipts =>
      ⟨trie ++ [was.writeHead geth, .batch transactions, .batch receipts], ethState, .ok root⟩

end WriteAheadState

end EvmBabble
