/-
The state application as a machine.

A request is a block from consensus or one of the read-only operations a client may ask for;
`State.serve` is the step of the machine, and its runs are those of `Library.run`.
-/

import EvmBabble.State.Steps
import EvmBabble.Library.Run

namespace EvmBabble

open Library

variable {World : Type}

/-- The read-only operations. -/
inductive Query
  | call (message : Message)
  | getBalance (address : Address)
  | getNonce (address : Address)
  | getTransaction (hash : Hash)
  | getReceipt (hash : Hash)

inductive Request
  | block (block : Block)
  | query (query : Query)

inductive Answer
  | root (root : Outcome Hash)
  | data (data : Outcome Bytes)
  | balance (balance : Int)
  | nonce (nonce : Nat)
  | transaction (transaction : Except Failure Transaction)
  | receipt (receipt : Except Failure Receipt)
deriving DecidableEq

namespace State

variable (geth : Geth World) (s : State World)

/-- A read-only operation: only `Call` can leave another state. -/
def ask : Query → State World × Answer
  | .call message => ((s.call geth message).1, .data (s.call geth message).2)
  | .getBalance address => (s, .balance (s.getBalance geth address))
  | .getNonce address => (s, .nonce (s.getNonce geth address))
  | .getTransaction hash => (s, .transaction (getTransaction geth s.db hash))
  | .getReceipt hash => (s, .receipt (getReceipt geth s.db hash))

def serve : Request → State World × Answer
  | .block block => ((s.processBlock geth block).1, .root (s.processBlock geth block).2)
  | .query query => s.ask geth query

/-! ### The gas pool apart -/

/-- The state with another gas pool. -/
def withPool (pool : Int) : State World := { s with was.gp := pool }

@[simp] theorem withPool_db (pool : Int) : (s.withPool pool).db = s.db := rfl

@[simp] theorem withPool_gp (pool : Int) : (s.withPool pool).was.gp = pool := rfl

@[simp] theorem withPool_withPool (pool other : Int) :
    (s.withPool pool).withPool other = s.withPool other := rfl

@[simp] theorem withPool_self : s.withPool s.was.gp = s := rfl

/-- A read-only operation changes at most the gas pool. -/
theorem ask_withPool (query : Query) :
    (s.ask geth query).1 = s.withPool (s.ask geth query).1.was.gp := by
  cases query <;> rfl

end State

end EvmBabble
