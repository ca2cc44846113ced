/-
What the node relies on of go-ethereum 1.7.0.

Each structure is one documented behaviour, as propositions about a `Geth`; a result takes the ones
it needs as hypotheses. `Admits` is what `preCheck` asks of a message: the nonce, a gas limit of at
most 64 bits, a balance that pays for it and a pool that holds it.
-/

import EvmBabble.Ethereum.Interface
import EvmBabble.Library.Hex
import Mathlib.Algebra.Group.Nat.Defs

namespace EvmBabble

variable {World : Type}

namespace Geth

variable (geth : Geth World)

/-- `preCheck` and `buyGas`: what a message must meet before it changes anything. -/
def Admits (message : Message) (world : World) (pool : Int) : Prop :=
  (message.checkNonce = true → (geth.account world message.sender).nonce = message.nonce) ∧
    message.gasLimit.natAbs < 2 ^ 64 ∧
    message.gasLimit * message.price ≤ (geth.account world message.sender).balance ∧
    message.gasLimit ≤ pool

instance (message : Message) (world : World) (pool : Int) :
    Decidable (geth.Admits message world pool) :=
  inferInstanceAs (Decidable (_ ∧ _ ∧ _ ∧ _))

/-- The state `buyGas` makes. -/
def bought (message : Message) (world : World) : World :=
  geth.addBalance world message.sender (-(message.gasLimit * message.price))

/-- The admission of a message: a refused one has made its sender's account and nothing else, and an
admitted one whose gas limit is below the least intrinsic gas pays for it and fails. -/
structure AdmissionLaws : Prop where
  refused : ∀ context message world pool, ¬ geth.Admits message world pool →
    ∃ error, geth.execute context message world pool =
      ⟨geth.getOrNewStateObject world message.sender, pool, .error (.applying error)⟩
  underpaid : ∀ context message world pool, geth.Admits message world pool →
    message.gasLimit.natAbs < 21000 →
      geth.execute context message world pool =
        ⟨geth.bought message world, pool - message.gasLimit, .error (.applying .outOfGas)⟩

/-- State objects: making one where there is none shows in `Exist` only, until the empty accounts are
removed. -/
structure ObjectLaws : Prop where
  getOrNew_exist : ∀ world address, geth.exist world address = true →
    geth.getOrNewStateObject world address = world
  exist_getOrNew : ∀ world address,
    geth.exist (geth.getOrNewStateObject world address) address = true
  account_getOrNew : ∀ world address, geth.account (geth.getOrNewStateObject world address) =
    geth.account world
  finalise_getOrNew : ∀ world address, geth.finalise (geth.getOrNewStateObject world address) =
    geth.finalise world

/-- The setters make the account they write to, and leave it as it is when they add nothing to its
balance or write the code or the slot it has. -/
structure SetterLaws : Prop extends ObjectLaws geth where
  addBalance_zero : ∀ world address,
    geth.addBalance world address 0 = geth.getOrNewStateObject world address
  setCode_same : ∀ world address, geth.setCode world address (geth.account world address).code =
    geth.getOrNewStateObject world address
  setState_same : ∀ world address key,
    geth.setState world address key ((geth.account world address).storage key) =
      geth.getOrNewStateObject world address

/-- The gas pool under `ApplyMessage`: the gas limit is taken out, the unused part comes back only on
success, and the pool is looked at for nothing else. -/
structure PoolLaws : Prop where
  success : ∀ context message world pool executed,
    (geth.execute context message world pool).outcome = .ok executed →
      (geth.execute context message world pool).pool = pool - executed.gasUsed
  failure : ∀ context message world pool error, geth.Admits message world pool →
    (geth.execute context message world pool).outcome = .error error →
      (geth.execute context message world pool).pool = pool - message.gasLimit
  bounds : ∀ context message world pool executed,
    (geth.execute context message world pool).outcome = .ok executed → 0 ≤ message.gasLimit →
      0 ≤ executed.gasUsed ∧ executed.gasUsed ≤ message.gasLimit
  shift : ∀ context message world pool other, message.gasLimit ≤ pool → message.gasLimit ≤ other →
    geth.execute context message world other =
      { geth.execute context message world pool with
        pool := (geth.execute context message world pool).pool + (other - pool) }

/-- An account without code, and its nonce. -/
def Holds (world : World) (address : Address) (nonce : Nat) : Prop :=
  (geth.account world address).nonce = nonce ∧ (geth.account world address).code = []

/-- Nonces, and the accounts of keys: the nonce check passes when the nonces agree, a message that
ends well raises its sender's nonce by one, and the account of another key, which runs nothing while
it has no code and at which no contract is created, keeps its nonce. -/
structure NonceLaws (keyed : Address → Prop) : Prop where
  agreed : ∀ context message world pool, (geth.account world message.sender).nonce = message.nonce →
    (geth.execute context message world pool).outcome ≠ .error (.applying .nonceTooHigh) ∧
      (geth.execute context message world pool).outcome ≠ .error (.applying .nonceTooLow)
  counted : ∀ context message world pool executed nonce, keyed message.sender →
    geth.Holds world message.sender nonce →
      (geth.execute context message world pool).outcome = .ok executed →
        geth.Holds (geth.execute context message world pool).state message.sender (nonce + 1)
  others : ∀ context message world pool address nonce, keyed address → address ≠ message.sender →
    geth.Holds world address nonce →
      geth.Holds (geth.execute context message world pool).state address nonce
  finalised : ∀ world address nonce, keyed address → geth.Holds world address nonce →
    geth.Holds (geth.finalise world) address nonce

/-- The receipt that comes back from `ReceiptForStorage`: one status slot holds the post state, or
the failure flag when there is none. -/
def stored (receipt : Receipt) : Receipt :=
  if receipt.postState = [] then receipt else { receipt with failed := false }

/-- RLP: decoded numbers are not negative, and decoding inverts encoding. -/
structure CodecLaws : Prop where
  decoded : ∀ data t, geth.rlpDecode data = some t →
    0 ≤ t.gasLimit ∧ 0 ≤ t.price ∧ 0 ≤ t.amount ∧
      ∃ canonical, geth.rlpEncode t = some canonical ∧ geth.rlpDecodeBytes canonical = some t
  encoded : ∀ t data, geth.rlpEncode t = some data → geth.rlpDecode data = some t
  receipt : ∀ receipt, 0 ≤ receipt.cumulativeGasUsed → 0 ≤ receipt.gasUsed →
    receipt.postState.length = 32 →
      ∃ data, geth.rlpEncodeReceipt receipt = some data ∧
        geth.rlpDecodeReceipt data = some (stored receipt)

/-- The state trie: finalising twice is finalising once, `CommitTo` writes nodes and code under their
32-byte hashes and preimages behind a prefix of 11 bytes, and a root stays open while the records
under 32-byte keys stay. -/
structure TrieLaws : Prop where
  finalise_finalise : ∀ world, geth.finalise (geth.finalise world) = geth.finalise world
  trie_key : ∀ db world, ∀ record ∈ geth.trieRecords db world,
    record.1.length = 32 ∨ record.1.length = 43
  open_keeps : ∀ db later root world, geth.openState db root = some world →
    Library.Store.Keeps (fun key => key.length = 32) db later →
      geth.openState later root = some world

/-- An account state that was just opened holds nothing to remove. -/
structure OpenLaws : Prop where
  open_finalised : ∀ db root world, geth.openState db root = some world → geth.finalise world = world

/-- Roots: an account state has the root that it was opened by, and the zero root opens the empty account
state, as the root of the empty trie does. -/
structure RootLaws (blank : World) : Prop where
  opened : ∀ db root world, root ≠ default → geth.openState db root = some world →
    geth.root world = root
  zero : ∀ db, geth.openState db default = some blank
  empty : ∀ db, geth.openState db (geth.root blank) = some blank

/-- The root of the account state that a root opens. -/
def openedRoot (blank : World) (root : Hash) : Hash := if root = default then geth.root blank else root

theorem RootLaws.root_opened {geth : Geth World} {blank : World} (laws : geth.RootLaws blank)
    {db : Library.Store Bytes Bytes} {root : Hash} {world : World}
    (found : geth.openState db root = some world) : geth.root world = geth.openedRoot blank root := by
  unfold openedRoot
  split
  · next zero =>
    subst zero
    rw [Option.some.inj ((laws.zero db).symm.trans found)]
  · next named => exact laws.opened db root world named found

/-- A database in which some root opens an account state opens it by its own root too. -/
theorem RootLaws.opens_own {geth : Geth World} {blank : World} (laws : geth.RootLaws blank)
    {db : Library.Store Bytes Bytes} {root : Hash} {world : World}
    (found : geth.openState db root = some world) : geth.openState db (geth.root world) = some world := by
  by_cases zero : root = default
  · subst zero
    rw [← Option.some.inj ((laws.zero db).symm.trans found)]
    exact laws.empty db
  · rwa [laws.opened db root world zero found]

/-- A root that leads to the root of an account state the database opens leads to such a state. -/
theorem RootLaws.reached {geth : Geth World} {blank : World} (laws : geth.RootLaws blank)
    {db : Library.Store Bytes Bytes} {posted : Hash} {world : World}
    (leads : geth.openedRoot blank posted = geth.root world)
    (found : geth.openState db (geth.root world) = some world) :
    ∃ accounts, geth.openState db posted = some accounts ∧ geth.root accounts = geth.root world := by
  unfold openedRoot at leads
  split at leads
  · next zero =>
    subst zero
    exact ⟨blank, laws.zero db, leads⟩
  · exact ⟨world, leads ▸ found, rfl⟩

/-! ### Programs -/

/-- Block hashes: BLOCKHASH reads the block number first, and with none or number 0 it does not ask for
a hash. -/
structure HashLaws : Prop where
  unasked : ∀ context message world pool getHash (env : BlockField → Option Int),
    env .blockNumber = none ∨ env .blockNumber = some 0 →
      (geth.transition { context with getHash } message world pool).run env =
          (geth.transition context message world pool).run env ∧
        (geth.transition { context with getHash } message world pool).path env =
          (geth.transition context message world pool).path env

/-- How a message comes to its program: its nonce is compared and not read again, and an error ends it
before the program reads anything. -/
structure EntryLaws : Prop where
  unchecked : ∀ context message world pool nonce,
    (message.checkNonce = true → (geth.account world message.sender).nonce = message.nonce) →
      geth.transition context message world pool =
        geth.transition context { message with nonce, checkNonce := false } world pool
  early : ∀ context message world pool (env : BlockField → Option Int) accounts left error,
    (geth.transition context message world pool).run env = .ok ⟨accounts, left, .error error⟩ →
      (geth.transition context message world pool).path env = []

/-- A message that does not end well lowers no nonce of its sender and gives it no code. -/
structure SteadyLaws (keyed : Address → Prop) : Prop extends NonceLaws geth keyed where
  failed : ∀ context message world pool nonce, keyed message.sender →
    geth.Holds world message.sender nonce →
      (∀ executed, (geth.execute context message world pool).outcome ≠ .ok executed) →
        ∃ later, nonce ≤ later ∧
          geth.Holds (geth.execute context message world pool).state message.sender later

/-- A message that ends well has used gas: at least half of the intrinsic one. -/
structure SpentLaws : Prop where
  positive : ∀ context message world pool executed,
    (geth.execute context message world pool).outcome = .ok executed → 0 ≤ message.gasLimit →
      0 < executed.gasUsed

/-- Gas that was bought: what comes back at a success is not negative, and at a panic nothing comes
back. -/
structure BoughtLaws : Prop where
  returned : ∀ context message world pool executed,
    (geth.execute context message world pool).outcome = .ok executed →
      executed.gasUsed ≤ message.gasLimit
  panicked : ∀ context message world pool, geth.Admits message world pool →
    (geth.execute context message world pool).outcome = .panic →
      (geth.execute context message world pool).pool = pool - message.gasLimit

/-! ### Writes -/

/-- The setters and `Finalise(true)` as they read. An account that destroyed itself is `gone`: it
can be read until it is removed, and so it is removed whatever is written to it. The tries of a node
hold no empty account, so what is left depends on what can be read. -/
structure WriteLaws (gone : World → Address → Prop) : Prop where
  account_addBalance : ∀ world address amount, geth.account (geth.addBalance world address amount) =
    Function.update (geth.account world) address { geth.account world address with
      balance := (geth.account world address).balance + amount }
  account_setCode : ∀ world address code, geth.account (geth.setCode world address code) =
    Function.update (geth.account world) address { geth.account world address with code }
  account_setState : ∀ world address key value,
    geth.account (geth.setState world address key value) =
      Function.update (geth.account world) address { geth.account world address with
        storage := Function.update (geth.account world address).storage key value }
  gone_addBalance : ∀ world address amount, gone (geth.addBalance world address amount) = gone world
  gone_setCode : ∀ world address code, gone (geth.setCode world address code) = gone world
  gone_setState : ∀ world address key value,
    gone (geth.setState world address key value) = gone world
  gone_finalise : ∀ world address, ¬ gone (geth.finalise world) address
  finalise_removed : ∀ world address, gone world address ∨ (geth.account world address).empty →
    geth.account (geth.finalise world) address = .blank
  finalise_kept : ∀ world address, ¬ gone world address → ¬ (geth.account world address).empty →
    geth.account (geth.finalise world) address = geth.account world address
  finalise_congr : ∀ one two, geth.account one = geth.account two → gone one = gone two →
    geth.finalise one = geth.finalise two
  open_blank : ∀ db world, geth.openState db default = some world → ∀ address,
    geth.account world address = .blank ∧ ¬ gone world address

/-! ### Formats -/

/-- Decoding a stored receipt inverts its encoding. -/
structure ReceiptLaws : Prop where
  read : ∀ receipt data, geth.rlpEncodeReceipt receipt = some data →
    geth.rlpDecodeReceipt data = some (stored receipt)

/-- `Hex2Bytes` knows no prefix: it reads plain digits, and nothing of a text that has one. -/
structure HexLaws : Prop where
  plain : ∀ text data, Library.Hex.bytes text.toList = some data → geth.hex2Bytes text = data
  prefixed : ∀ text, Library.Hex.Prefixed text → geth.hex2Bytes text = []

end Geth

end EvmBabble
