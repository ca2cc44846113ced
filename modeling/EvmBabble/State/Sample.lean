/-
A small chain: one concrete `Geth`.

The laws of `EvmBabble.Ethereum.Laws` are hypotheses elsewhere; here they are met by functions that
run. The account state is an association list, the wire formats are those of `Library.Wire`, a
signature is the signer's address, and `transition` follows `TransitionDb` step by step over a
machine with a handful of opcodes: STOP, CALLER, TIMESTAMP, NUMBER, DIFFICULTY, GASLIMIT, LOG0 and
SELFDESTRUCT. The concrete runs of the other modules start from `started`.
-/

import EvmBabble.State.Core
import EvmBabble.Ethereum.Laws
import EvmBabble.Library.Canonical
import EvmBabble.Library.Wire

namespace EvmBabble.Sample

open Library

/-! ### Account states -/

/-- An account with its storage as a list of slots. -/
structure Entry where
  nonce : Nat
  balance : Int
  code : Bytes
  storage : List (Hash × Hash)
deriving DecidableEq

def Entry.blank : Entry := ⟨0, 0, [], []⟩

/-- The account state: the accounts that exist. -/
abbrev Ledger := List (Address × Entry)

section Ledgers

variable {κ ν : Type} [DecidableEq κ]

/-- The value of a key in an association list. -/
def look (list : List (κ × ν)) (blank : ν) (key : κ) : ν :=
  ((list.find? fun pair => pair.1 = key).map Prod.snd).getD blank

/-- A list with another value in the place of a key's. -/
def replace (list : List (κ × ν)) (key : κ) (value : ν) : List (κ × ν) :=
  (key, value) :: list.filter fun pair => pair.1 ≠ key

theorem look_replace (list : List (κ × ν)) (blank : ν) (key other : κ) (value : ν) :
    look (replace list key value) blank other =
      if other = key then value else look list blank other := by
  unfold replace
  by_cases here : other = key
  · rw [if_pos here]
    simp [look, here]
  · rw [if_neg here]
    have apart : ¬ key = other := fun same => here same.symm
    unfold look
    rw [List.find?_cons_of_neg (by simpa using apart), List.find?_filter]
    have same : (fun pair : κ × ν =>
        decide (decide (pair.1 ≠ key) = true ∧ decide (pair.1 = other) = true)) =
          fun pair => decide (pair.1 = other) := by
      funext pair
      by_cases found : pair.1 = other
      · simp [found, here]
      · simp [found]
    rw [same]

variable [DecidableEq ν]

/-- A list that gives a key another value; the value it has already is not written again. -/
def assign (list : List (κ × ν)) (blank : ν) (key : κ) (value : ν) : List (κ × ν) :=
  if look list blank key = value then list else replace list key value

/-- A list that holds a key with a value. -/
def put (list : List (κ × ν)) (key : κ) (value : ν) : List (κ × ν) :=
  if (list.find? fun pair => pair.1 = key).map Prod.snd = some value then list
  else replace list key value

theorem assign_look (list : List (κ × ν)) (blank : ν) (key : κ) :
    assign list blank key (look list blank key) = list := if_pos rfl

theorem look_put (list : List (κ × ν)) (blank : ν) (key other : κ) (value : ν) :
    look (put list key value) blank other =
      if other = key then value else look list blank other := by
  unfold put
  split
  · next same =>
    split
    · next here => rw [here, look, same, Option.getD_some]
    · rfl
  · exact look_replace list blank key other value

/-- Putting the value that is looked up makes a key that was not there, and no more. -/
theorem put_look (list : List (κ × ν)) (blank : ν) (key : κ)
    (found : (list.any fun pair => pair.1 = key) = true) :
    put list key (look list blank key) = list := by
  obtain ⟨pair, member, here⟩ := List.any_eq_true.mp found
  refine if_pos ?_
  unfold look
  cases sought : list.find? fun pair => pair.1 = key with
  | none => exact absurd here (List.find?_eq_none.mp sought pair member)
  | some pair => rfl

end Ledgers

def entry (ledger : Ledger) (address : Address) : Entry := look ledger .blank address

def account (ledger : Ledger) (address : Address) : Account :=
  let entry := entry ledger address
  ⟨entry.nonce, entry.balance, entry.code, fun key => look entry.storage default key⟩

def exist (ledger : Ledger) (address : Address) : Bool := ledger.any fun pair => pair.1 = address

def getOrNewStateObject (ledger : Ledger) (address : Address) : Ledger :=
  put ledger address (entry ledger address)

def addBalance (ledger : Ledger) (address : Address) (amount : Int) : Ledger :=
  let entry := entry ledger address
  put ledger address { entry with balance := entry.balance + amount }

def setNonce (ledger : Ledger) (address : Address) (nonce : Nat) : Ledger :=
  put ledger address { entry ledger address with nonce }

def setCode (ledger : Ledger) (address : Address) (code : Bytes) : Ledger :=
  put ledger address { entry ledger address with code }

def setState (ledger : Ledger) (address : Address) (key value : Hash) : Ledger :=
  let entry := entry ledger address
  put ledger address { entry with storage := assign entry.storage default key value }

/-- An account `deleteEmptyObjects` keeps. -/
def Entry.live (entry : Entry) : Bool :=
  entry.nonce != 0 || entry.balance != 0 || entry.code != []

/-- The number whose big-endian bytes a key is. -/
def keyNumber {size : Nat} (key : FixedBytes size) : Nat :=
  key.bytes.foldl (fun sum byte => 256 * sum + byte.toNat) 0

/-- The slots that are set, in order. -/
def Entry.tidy (entry : Entry) : Entry :=
  { entry with
    storage := canonical keyNumber (entry.storage.map Prod.fst)
      (fun key => look entry.storage default key != default) (look entry.storage default) }

/-- The accounts that are kept, in order: nothing is left but what can be read. -/
def finalise (ledger : Ledger) : Ledger :=
  canonical keyNumber (ledger.map Prod.fst) (fun address => (entry ledger address).live) fun address =>
    (entry ledger address).tidy

section Finalised

theorem foldl_bytes_injective : ∀ {one two : Bytes} {sum other : Nat}, one.length = two.length →
    one.foldl (fun sum byte => 256 * sum + byte.toNat) sum =
      two.foldl (fun sum byte => 256 * sum + byte.toNat) other → sum = other ∧ one = two
  | [], [], _, _, _, same => ⟨same, rfl⟩
  | first :: one, second :: two, sum, other, lengths, same => by
    obtain ⟨sums, rest⟩ := foldl_bytes_injective (Nat.succ.inj lengths) same
    change 256 * sum + first.toNat = 256 * other + second.toNat at sums
    have low := first.toNat_lt
    have high := second.toNat_lt
    exact ⟨by omega, by rw [UInt8.toNat_inj.mp (by omega : first.toNat = second.toNat), rest]⟩

theorem keyNumber_injective {size : Nat} : Function.Injective (keyNumber : FixedBytes size → Nat) :=
  fun one two same => FixedBytes.bytes_injective
    (foldl_bytes_injective (one.length_eq.trans two.length_eq.symm) same).2

theorem look_filter {κ ν : Type} [DecidableEq κ] (list : List (κ × ν)) (blank : ν)
    (keep : κ → Bool) (key : κ) : look (list.filter fun pair => keep pair.1) blank key =
      if keep key then look list blank key else blank := by
  unfold look
  rw [List.find?_filter]
  split
  · next kept =>
    congr 3
    funext pair
    by_cases here : pair.1 = key
    · simp [here, kept]
    · simp [here]
  · next gone =>
    rw [List.find?_eq_none.mpr]
    · rfl
    · rintro pair -
      by_cases here : pair.1 = key
      · simp [here, gone]
      · simp [here]

theorem look_absent {κ ν : Type} [DecidableEq κ] {list : List (κ × ν)} (blank : ν) {key : κ}
    (absent : key ∉ list.map Prod.fst) : look list blank key = blank := by
  rw [look, List.find?_eq_none.mpr]
  · rfl
  · rintro pair member here
    exact absent (List.mem_map.mpr ⟨pair, member, by simpa using here⟩)

theorem look_canonical {κ ν : Type} [DecidableEq κ] (number : κ → Nat) (keys : List κ)
    (keep : κ → Bool) (value : κ → ν) (blank : ν) (key : κ) :
    look (canonical number keys keep value) blank key =
      if key ∈ keys ∧ keep key = true then value key else blank := by
  rw [look, find_canonical]
  split <;> rfl

@[simp] theorem live_tidy (entry : Entry) : entry.tidy.live = entry.live := rfl

/-- Tidying changes no slot. -/
theorem look_tidy (entry : Entry) : look entry.tidy.storage default = look entry.storage default := by
  funext key
  rw [Entry.tidy, look_canonical]
  split
  · rfl
  · next outside =>
    by_cases listed : key ∈ entry.storage.map Prod.fst
    · have unset : ¬ (look entry.storage default key != default) = true := fun set =>
        outside ⟨listed, set⟩
      exact (by simpa using unset : look entry.storage default key = default).symm
    · exact (look_absent default listed).symm

/-- A tidy entry is what can be read of it. -/
theorem tidy_congr {one two : Entry} (nonce : one.nonce = two.nonce)
    (balance : one.balance = two.balance) (code : one.code = two.code)
    (slots : look one.storage default = look two.storage default) : one.tidy = two.tidy := by
  have kept : ∀ (entry : Entry) (key : Hash),
      (look entry.storage default key != default) = true → key ∈ entry.storage.map Prod.fst := by
    intro entry key set
    by_contra absent
    rw [look_absent default absent] at set
    simp at set
  have storage : one.tidy.storage = two.tidy.storage :=
    canonical_congr keyNumber_injective
      (fun key => ⟨fun inside => ⟨kept two key (slots ▸ inside.2), slots ▸ inside.2⟩,
        fun inside => ⟨kept one key (slots ▸ inside.2), slots ▸ inside.2⟩⟩)
      fun key _ _ => congrFun slots key
  have fields : ∀ entry : Entry,
      entry.tidy = ⟨entry.nonce, entry.balance, entry.code, entry.tidy.storage⟩ := fun _ => rfl
  rw [fields one, fields two, nonce, balance, code, storage]

theorem live_listed {ledger : Ledger} {address : Address} (live : (entry ledger address).live = true) :
    address ∈ ledger.map Prod.fst := by
  by_contra absent
  rw [entry, look_absent .blank absent] at live
  cases live

theorem entry_finalise (ledger : Ledger) (address : Address) : entry (finalise ledger) address =
    if (entry ledger address).live then (entry ledger address).tidy else .blank := by
  rw [entry, finalise, look_canonical]
  by_cases live : (entry ledger address).live = true
  · rw [if_pos ⟨live_listed live, live⟩, if_pos live]
  · rw [if_neg fun inside => live inside.2, if_neg live]

/-- The entries of an account that can be read alike. -/
theorem entry_read {one two : Ledger} {address : Address}
    (same : account one address = account two address) :
    (entry one address).live = (entry two address).live ∧
      (entry one address).tidy = (entry two address).tidy := by
  have nonce := congrArg Account.nonce same
  have balance := congrArg Account.balance same
  have code := congrArg Account.code same
  change (entry one address).nonce = (entry two address).nonce at nonce
  change (entry one address).balance = (entry two address).balance at balance
  change (entry one address).code = (entry two address).code at code
  exact ⟨by rw [Entry.live, Entry.live, nonce, balance, code],
    tidy_congr nonce balance code (congrArg Account.storage same)⟩

/-- **A finalised ledger is what can be read of it.** -/
theorem finalise_congr {one two : Ledger} (same : account one = account two) :
    finalise one = finalise two := by
  refine canonical_congr keyNumber_injective (fun address => ?_) fun address _ _ =>
    (entry_read (congrFun same address)).2
  have live := (entry_read (congrFun same address)).1
  exact ⟨fun inside => ⟨live_listed (live ▸ inside.2), live ▸ inside.2⟩,
    fun inside => ⟨live_listed (live.symm ▸ inside.2), live.symm ▸ inside.2⟩⟩

theorem account_finalise (ledger : Ledger) (address : Address) :
    account (finalise ledger) address =
      if (entry ledger address).live then account ledger address else .blank := by
  unfold account
  rw [entry_finalise]
  split
  · dsimp only
    rw [look_tidy]
    rfl
  · rfl

theorem live_iff {ledger : Ledger} {address : Address} :
    (entry ledger address).live = true ↔ ¬ (account ledger address).empty := by
  unfold Entry.live Account.empty account
  simp only [Bool.or_eq_true, bne_iff_ne, not_and_or]
  exact or_assoc

theorem finalise_finalise (ledger : Ledger) : finalise (finalise ledger) = finalise ledger := by
  refine canonical_congr keyNumber_injective (fun address => ?_) fun address _ live => ?_
  · have kept : (entry (finalise ledger) address).live = (entry ledger address).live := by
      rw [entry_finalise]
      cases live : (entry ledger address).live with
      | true => exact live
      | false => rfl
    exact ⟨fun inside => ⟨live_listed (kept ▸ inside.2), kept ▸ inside.2⟩,
      fun inside => ⟨live_listed (kept.symm ▸ inside.2), kept.symm ▸ inside.2⟩⟩
  · rw [entry_finalise] at live ⊢
    split at live
    · next kept =>
      rw [if_pos kept]
      exact tidy_congr rfl rfl rfl (look_tidy _)
    · cases live

end Finalised

/-! ### Wire formats and hashes -/

section Formats

def fixedWire (size : Nat) : Wire (FixedBytes size) :=
  Wire.bytes.via (.ofBytes size) FixedBytes.bytes FixedBytes.ofBytes_bytes

def transactionWire : Wire Transaction :=
  (Wire.nat.both (Wire.int.both (Wire.int.both ((Wire.option (fixedWire 20)).both
    (Wire.int.both (Wire.bytes.both (Wire.int.both (Wire.int.both Wire.int)))))))).via
    (fun ⟨nonce, price, gasLimit, recipient, amount, payload, v, r, s⟩ =>
      ⟨nonce, price, gasLimit, recipient, amount, payload, v, r, s⟩)
    (fun t => (t.nonce, t.price, t.gasLimit, t.recipient, t.amount, t.payload, t.v, t.r, t.s))
    (fun _ => rfl)

def logWire : Wire Log :=
  ((fixedWire 20).both ((Wire.list (fixedWire 32)).both (Wire.bytes.both (Wire.nat.both
    ((fixedWire 32).both ((fixedWire 32).both (Wire.nat.both Wire.nat))))))).via
    (fun ⟨address, topics, data, blockNumber, txHash, blockHash, txIndex, index⟩ =>
      ⟨⟨address, topics, data, blockNumber⟩, txHash, blockHash, txIndex, index⟩)
    (fun log => (log.address, log.topics, log.data, log.blockNumber, log.txHash, log.blockHash,
      log.txIndex, log.index))
    (fun _ => rfl)

def receiptWire : Wire Receipt :=
  (Wire.bytes.both (Wire.bool.both (Wire.int.both ((fixedWire 256).both ((fixedWire 32).both
    ((fixedWire 20).both ((Wire.list logWire).both Wire.int))))))).via
    (fun ⟨postState, failed, cumulativeGasUsed, bloom, txHash, contractAddress, logs, gasUsed⟩ =>
      ⟨postState, failed, cumulativeGasUsed, bloom, txHash, contractAddress, logs, gasUsed⟩)
    (fun receipt => (receipt.postState, receipt.failed, receipt.cumulativeGasUsed, receipt.bloom,
      receipt.txHash, receipt.contractAddress, receipt.logs, receipt.gasUsed))
    (fun _ => rfl)

def ledgerWire : Wire Ledger :=
  Wire.list ((fixedWire 20).both ((Wire.nat.both (Wire.int.both (Wire.bytes.both
    (Wire.list ((fixedWire 32).both (fixedWire 32)))))).via
    (fun ⟨nonce, balance, code, storage⟩ => ⟨nonce, balance, code, storage⟩)
    (fun entry : Entry => (entry.nonce, entry.balance, entry.code, entry.storage))
    (fun _ => rfl)))

/-- The big-endian bytes of a number. -/
def bigEndian : Nat → Nat → Bytes
  | 0, _ => []
  | width + 1, number => bigEndian width (number / 256) ++ [UInt8.ofNat number]

/-- A polynomial hash behind a tag. -/
def digest (tag : UInt8) (data : Bytes) : Hash :=
  .ofBytes 32 (tag :: bigEndian 31 (data.foldl (fun sum byte => sum * 65599 + byte.toNat + 1) 7))

theorem bigEndian_length (width number : Nat) : (bigEndian width number).length = width := by
  induction width generalizing number with
  | zero => rfl
  | succ width ih => rw [bigEndian, List.length_append, ih, List.length_singleton]

/-- Hashes behind different tags are different. -/
theorem digest_tag {tag other : UInt8} {data rest : Bytes} (same : digest tag data = digest other rest) :
    tag = other := by
  have bytes := congrArg FixedBytes.bytes same
  rw [digest, digest, FixedBytes.bytes_ofBytes (by rw [List.length_cons, bigEndian_length]),
    FixedBytes.bytes_ofBytes (by rw [List.length_cons, bigEndian_length])] at bytes
  exact (List.cons.inj bytes).1

end Formats

/-- A transaction whose numbers are not negative. -/
def WellFormed (t : Transaction) : Prop :=
  0 ≤ t.price ∧ 0 ≤ t.gasLimit ∧ 0 ≤ t.amount ∧ 0 ≤ t.v ∧ 0 ≤ t.r ∧ 0 ≤ t.s

instance (t : Transaction) : Decidable (WellFormed t) :=
  inferInstanceAs (Decidable (_ ∧ _ ∧ _ ∧ _ ∧ _ ∧ _))

def rlpDecode (data : Bytes) : Option Transaction :=
  match transactionWire.read data with
  | some (t, _) => if WellFormed t then some t else none
  | none => none

def rlpDecodeBytes (data : Bytes) : Option Transaction :=
  match transactionWire.readAll data with
  | some t => if WellFormed t then some t else none
  | none => none

def rlpEncode (t : Transaction) : Option Bytes :=
  if WellFormed t then some (transactionWire.write t) else none

def rlpEncodeReceipt (receipt : Receipt) : Option Bytes :=
  if 0 ≤ receipt.cumulativeGasUsed ∧ 0 ≤ receipt.gasUsed then
    some (receiptWire.write (Geth.stored receipt))
  else none

def txHash (t : Transaction) : Hash :=
  if t = .empty then digest 0 [] else digest 1 (transactionWire.write t)

/-- The sender is written in the signature. -/
def sender (t : Transaction) : Option Address :=
  if t.v = 27 then some (.ofBytes 20 (bigEndian 20 t.r.toNat)) else none

def root (ledger : Ledger) : Hash := digest 2 (ledgerWire.write ledger)

/-- The code of the accounts under its hash, which is made as that of a transaction is, and the ledger
under its root. -/
def trieRecords (db : Database) (ledger : Ledger) : List (Bytes × Bytes) :=
  (ledger.filter fun pair => pair.2.code ≠ []).map
      (fun pair => ((digest 1 pair.2.code).bytes, pair.2.code)) ++
    if db (root ledger).bytes = some (ledgerWire.write ledger) then []
    else [((root ledger).bytes, ledgerWire.write ledger)]

/-- A ledger is found under its own root only. -/
def openState (db : Database) (hash : Hash) : Option Ledger :=
  if hash = default ∨ hash = root [] then some []
  else (((db hash.bytes).bind ledgerWire.readAll).map finalise).filter fun ledger => root ledger = hash

/-! ### The machine -/

/-- What a program does when it is run: the block fields it reads, the logs it emits, the gas it
takes, the account it gives its balance to when it destroys itself, and whether it ends well. -/
structure Trace where
  reads : List BlockField
  logs : Nat
  cost : Nat
  beneficiary : Option Address
  good : Bool

/-- The opcodes one after another, with the stack of addresses so far. -/
def trace (caller : Address) : Bytes → List Address → Trace
  | [], _ => ⟨[], 0, 0, none, true⟩
  | op :: rest, stack =>
    let push (address : Address) : Trace :=
      let later := trace caller rest (address :: stack)
      { later with cost := later.cost + 2 }
    let number (field : BlockField) : Trace :=
      let later := push default
      { later with reads := field :: later.reads }
    if op = 0x00 then ⟨[], 0, 0, none, true⟩
    else if op = 0x33 then push caller
    else if op = 0x42 then number .time
    else if op = 0x43 then number .blockNumber
    else if op = 0x44 then number .difficulty
    else if op = 0x45 then number .gasLimit
    else match op, stack with
      | 0xa0, _ :: _ :: below =>
        let later := trace caller rest below
        { later with
          reads := .blockNumber :: later.reads, logs := later.logs + 1, cost := later.cost + 375 }
      | 0xff, beneficiary :: _ => ⟨[], 0, 0, some beneficiary, true⟩
      | _, _ => ⟨[], 0, 0, none, false⟩

/-- The gas left over of `available`, or `none` when the run uses it up. -/
def gasLeft (program : Trace) (available : Nat) : Option Nat :=
  if program.good ∧ 21000 + program.cost ≤ available then
    let left := available - 21000 - program.cost
    let refund := if program.beneficiary.isSome then min ((available - left) / 2) 24000 else 0
    some (left + refund)
  else none

def createAddress (address : Address) (nonce : Nat) : Address :=
  .ofBytes 20 (9 :: bigEndian 2 nonce ++ address.bytes.drop 3)

/-- `evm.Call` and `evm.Create` with the fees after them, for a message whose gas is bought and whose
value can be paid. -/
def perform (message : Message) (ledger : Ledger) : Trace → Ledger × Executed := fun program =>
  let available := message.gasLimit.natAbs
  let self := message.recipient.getD (createAddress message.sender (entry ledger message.sender).nonce)
  let counted := setNonce ledger message.sender ((entry ledger message.sender).nonce + 1)
  let left := (gasLeft program available).getD 0
  let gasUsed := message.gasLimit - left
  let paid (ledger : Ledger) : Ledger :=
    addBalance (addBalance ledger message.sender (left * message.price)) default
      (gasUsed * message.price)
  match gasLeft program available with
  | none => (paid counted, ⟨[], gasUsed, true, []⟩)
  | some _ =>
    let moved := addBalance (addBalance counted message.sender (-message.amount)) self message.amount
    let executed : Executed := ⟨[], gasUsed, false, List.replicate program.logs ⟨self, [], [], 0⟩⟩
    match program.beneficiary with
    | none => (paid moved, executed)
    | some beneficiary =>
      let given := addBalance moved beneficiary (entry moved self).balance
      ((paid given).filter fun pair => pair.1 ≠ self, executed)

/-- The ledger once the gas is bought. -/
def bought (message : Message) (ledger : Ledger) : Ledger :=
  addBalance ledger message.sender (-(message.gasLimit * message.price))

/-- The program a message runs: its data, or the code of its recipient. -/
def programOf (message : Message) (ledger : Ledger) : Trace :=
  trace message.sender (match message.recipient with
    | none => message.data
    | some recipient => (entry ledger recipient).code) []

/-- `TransitionDb` once the gas is bought. -/
def settle (message : Message) (ledger : Ledger) (pool : Int) :
    Reading BlockField Int (Ledger × Int) (Transition Ledger) :=
  let ledger := bought message ledger
  let left := pool - message.gasLimit
  if message.gasLimit.natAbs < 21000 then .done ⟨ledger, left, .error .outOfGas⟩
  else if (entry ledger message.sender).balance < message.amount then
    -- only a call has raised the nonce by now
    let counted := if message.recipient = none then ledger
      else setNonce ledger message.sender ((entry ledger message.sender).nonce + 1)
    .done ⟨counted, left, .error .insufficientBalance⟩
  else
    let program := programOf message ledger
    let performed := perform message ledger program
    .readAll (ledger, left) ⟨performed.1, pool - performed.2.gasUsed, .ok performed.2⟩ program.reads

/-- `preCheck` and the balance part of `buyGas`: the error of a message that is refused. -/
def preCheck (message : Message) (ledger : Ledger) : Option CoreError :=
  let account := entry ledger message.sender
  if message.checkNonce ∧ account.nonce < message.nonce then some .nonceTooHigh
  else if message.checkNonce ∧ message.nonce < account.nonce then some .nonceTooLow
  else if ¬ message.gasLimit.natAbs < 2 ^ 64 then some .outOfGas
  else if account.balance < message.gasLimit * message.price then some .insufficientBalanceForGas
  else none

def transition (_ : MessageContext) (message : Message) (ledger : Ledger) (pool : Int) :
    Reading BlockField Int (Ledger × Int) (Transition Ledger) :=
  match preCheck message ledger with
  | some error => .done ⟨getOrNewStateObject ledger message.sender, pool, .error error⟩
  | none =>
    if pool < message.gasLimit then
      .done ⟨getOrNewStateObject ledger message.sender, pool, .error .gasLimitReached⟩
    else settle message ledger pool

/-! ### Texts -/

/-- `common.Hex2Bytes`: a decoding error is dropped. -/
def hex2Bytes (text : String) : Bytes := (Hex.bytes text.toList).getD []

/-- `common.FromHex`: an optional prefix, and an odd number of digits is padded. -/
def fromHex (text : String) : Bytes :=
  let letters := Hex.unprefixed text.toList
  (Hex.bytes (if letters.length % 2 = 0 then letters else '0' :: letters)).getD []

/-- Decimal digits; the empty text is zero. -/
def parseBig256 (text : String) : Option Int :=
  text.toList.foldl (fun sum letter => sum.bind fun value =>
    if '0' ≤ letter ∧ letter ≤ '9' then some (10 * value + (letter.toNat - 48)) else none) (some 0)

/-- The small chain. -/
def geth : Geth Ledger where
  rlpDecode := rlpDecode
  rlpDecodeBytes := rlpDecodeBytes
  rlpEncode := rlpEncode
  rlpEncodeReceipt := rlpEncodeReceipt
  rlpDecodeReceipt := receiptWire.readAll
  txHash := txHash
  sender := sender
  createAddress := createAddress
  createBloom _ := default
  transition := transition
  account := account
  exist := exist
  getOrNewStateObject := getOrNewStateObject
  addBalance := addBalance
  setCode := setCode
  setState := setState
  finalise := finalise
  root := root
  trieRecords := trieRecords
  openState := openState
  hexToAddress text := .ofBytes 20 (fromHex text)
  hexToHash text := .ofBytes 32 (fromHex text)
  hex2Bytes := hex2Bytes
  parseBig256 := parseBig256

/-! ### The laws -/

section Laws

variable (context : Context) (message : Message) (ledger : Ledger) (pool : Int)

theorem preCheck_none : preCheck message ledger = none ↔
    (message.checkNonce = true → (entry ledger message.sender).nonce = message.nonce) ∧
      message.gasLimit.natAbs < 2 ^ 64 ∧
      message.gasLimit * message.price ≤ (entry ledger message.sender).balance := by
  unfold preCheck
  dsimp only
  constructor
  · intro passed
    split_ifs at passed with high low large poor
    refine ⟨fun checked => ?_, by omega, Int.not_lt.mp poor⟩
    have notHigh : ¬ (entry ledger message.sender).nonce < message.nonce := fun h => high ⟨checked, h⟩
    have notLow : ¬ message.nonce < (entry ledger message.sender).nonce := fun h => low ⟨checked, h⟩
    omega
  · rintro ⟨nonce, small, paid⟩
    rw [if_neg fun high => by have := nonce high.1; omega,
      if_neg fun low => by have := nonce low.1; omega, if_neg (not_not.mpr small),
      if_neg (Int.not_lt.mpr paid)]

theorem admits_iff : geth.Admits message ledger pool ↔
    preCheck message ledger = none ∧ message.gasLimit ≤ pool := by
  rw [preCheck_none]
  exact ⟨fun ⟨nonce, small, paid, fits⟩ => ⟨⟨nonce, small, paid⟩, fits⟩,
    fun ⟨⟨nonce, small, paid⟩, fits⟩ => ⟨nonce, small, paid, fits⟩⟩

theorem execute_eq : geth.execute context message ledger pool =
    .ofRun ((transition context.toMessageContext message ledger pool).run context.field) := rfl

/-- A message that fails its check is refused with the same error on every pool. -/
theorem execute_checked {error : CoreError} (failed : preCheck message ledger = some error) :
    geth.execute context message ledger pool =
      ⟨getOrNewStateObject ledger message.sender, pool, .error (.applying error)⟩ := by
  rw [execute_eq, transition, failed]
  rfl

theorem execute_refused (refused : ¬ geth.Admits message ledger pool) :
    ∃ error, geth.execute context message ledger pool =
      ⟨getOrNewStateObject ledger message.sender, pool, .error (.applying error)⟩ := by
  cases checked : preCheck message ledger with
  | some error => exact ⟨error, execute_checked context message ledger pool checked⟩
  | none =>
    refine ⟨.gasLimitReached, ?_⟩
    have short : pool < message.gasLimit := by
      rw [admits_iff] at refused
      exact Int.not_le.mp fun fits => refused ⟨checked, fits⟩
    rw [execute_eq, transition, checked]
    dsimp only
    rw [if_pos short]
    rfl

theorem execute_settle (admitted : geth.Admits message ledger pool) :
    geth.execute context message ledger pool =
      .ofRun ((settle message ledger pool).run context.field) := by
  obtain ⟨checked, fits⟩ := (admits_iff message ledger pool).mp admitted
  rw [execute_eq, transition, checked]
  dsimp only
  rw [if_neg (Int.not_lt.mpr fits)]

/-- The gas a message used is its limit less what was left of it, which is not all of it. -/
theorem perform_gasUsed (program : Trace) : ∃ left,
    (left = 0 ∨ left < message.gasLimit.natAbs) ∧
      (perform message ledger program).2.gasUsed = message.gasLimit - left := by
  refine ⟨(gasLeft program message.gasLimit.natAbs).getD 0, ?_, ?_⟩
  · unfold gasLeft
    split
    · refine Or.inr ?_
      simp only [Option.getD_some]
      split <;> omega
    · exact Or.inl rfl
  · unfold perform
    dsimp only
    split
    · rfl
    · split <;> rfl

/-- The three ways a message ends once its gas is bought, the same on every pool that admits it. -/
theorem execute_admitted :
    (∃ left error, (∀ pool, geth.Admits message ledger pool →
        geth.execute context message ledger pool =
          ⟨left, pool - message.gasLimit, .error (.applying error)⟩) ∧
        (left = bought message ledger ∨ left = setNonce (bought message ledger) message.sender
          ((entry (bought message ledger) message.sender).nonce + 1)) ∧
        (error = .outOfGas ∨ error = .insufficientBalance)) ∨
      (∀ pool, geth.Admits message ledger pool → geth.execute context message ledger pool =
        ⟨bought message ledger, pool - message.gasLimit, .panic⟩) ∨
      ∃ performed, performed = perform message (bought message ledger)
          (programOf message (bought message ledger)) ∧
        ∀ pool, geth.Admits message ledger pool → geth.execute context message ledger pool =
          ⟨performed.1, pool - performed.2.gasUsed, .ok performed.2⟩ := by
  by_cases small : message.gasLimit.natAbs < 21000
  · refine Or.inl ⟨bought message ledger, .outOfGas, fun pool admitted => ?_, Or.inl rfl, Or.inl rfl⟩
    rw [execute_settle context message ledger pool admitted, settle]
    dsimp only
    rw [if_pos small]
    rfl
  by_cases poor : (entry (bought message ledger) message.sender).balance < message.amount
  · refine Or.inl ⟨if message.recipient = none then bought message ledger
      else setNonce (bought message ledger) message.sender
        ((entry (bought message ledger) message.sender).nonce + 1),
      .insufficientBalance, fun pool admitted => ?_, ?_, Or.inr rfl⟩
    · rw [execute_settle context message ledger pool admitted, settle]
      dsimp only
      rw [if_neg small, if_pos poor]
      rfl
    · split
      · exact Or.inl rfl
      · exact Or.inr rfl
  have settled : ∀ pool, settle message ledger pool =
      .readAll (bought message ledger, pool - message.gasLimit)
        ⟨(perform message (bought message ledger) (programOf message (bought message ledger))).1,
          pool - (perform message (bought message ledger)
            (programOf message (bought message ledger))).2.gasUsed,
          .ok (perform message (bought message ledger)
            (programOf message (bought message ledger))).2⟩
        (programOf message (bought message ledger)).reads := fun pool => by
    rw [settle]
    dsimp only
    rw [if_neg small, if_neg poor]
  by_cases set : ∀ field ∈ (programOf message (bought message ledger)).reads,
      context.field field ≠ none
  · refine Or.inr (Or.inr ⟨_, rfl, fun pool admitted => ?_⟩)
    rw [execute_settle context message ledger pool admitted, settled, Reading.run_readAll,
      if_pos set]
    rfl
  · refine Or.inr (Or.inl fun pool admitted => ?_)
    rw [execute_settle context message ledger pool admitted, settled, Reading.run_readAll,
      if_neg set]
    rfl

end Laws

theorem admissionLaws : geth.AdmissionLaws where
  refused := execute_refused
  underpaid context message ledger pool admitted small := by
    rw [execute_settle context message ledger pool admitted, settle]
    dsimp only
    rw [if_pos small]
    rfl

theorem entry_getOrNew (ledger : Ledger) (address other : Address) :
    entry (getOrNewStateObject ledger address) other = entry ledger other := by
  rw [entry, getOrNewStateObject, look_put]
  split
  · next here => rw [here]
  · rfl

theorem getOrNew_exist {ledger : Ledger} {address : Address} (found : exist ledger address = true) :
    getOrNewStateObject ledger address = ledger := put_look ledger .blank address found

/-- An account that does not exist is made in front of the others. -/
theorem getOrNew_absent {ledger : Ledger} {address : Address}
    (absent : exist ledger address = false) :
    getOrNewStateObject ledger address = (address, .blank) :: ledger := by
  have apart : ∀ pair ∈ ledger, pair.1 ≠ address := by simpa [exist] using absent
  have sought : (ledger.find? fun pair => pair.1 = address) = none :=
    List.find?_eq_none.mpr fun pair member => by simpa using apart pair member
  have blank : entry ledger address = .blank := by
    rw [entry, look, sought]
    rfl
  rw [getOrNewStateObject, put, sought, if_neg (by simp), replace, blank,
    List.filter_eq_self.mpr fun pair member => by simpa using apart pair member]

theorem objectLaws : geth.ObjectLaws where
  getOrNew_exist _ _ found := getOrNew_exist found
  exist_getOrNew ledger address := by
    show exist (getOrNewStateObject ledger address) address = true
    cases found : exist ledger address with
    | true => rw [getOrNew_exist found, found]
    | false => simp [getOrNew_absent found, exist]
  account_getOrNew ledger address := by
    funext other
    show account (getOrNewStateObject ledger address) other = account ledger other
    rw [account, entry_getOrNew]
    rfl
  finalise_getOrNew ledger address := by
    refine finalise_congr ?_
    funext other
    show account (getOrNewStateObject ledger address) other = account ledger other
    rw [account, entry_getOrNew]
    rfl

theorem setterLaws : geth.SetterLaws where
  toObjectLaws := objectLaws
  addBalance_zero ledger address := by
    show put ledger address { entry ledger address with
      balance := (entry ledger address).balance + 0 } = getOrNewStateObject ledger address
    rw [Int.add_zero]
    rfl
  setCode_same _ _ := rfl
  setState_same ledger address key := by
    show put ledger address { entry ledger address with
      storage := assign (entry ledger address).storage default key
        (look (entry ledger address).storage default key) } = getOrNewStateObject ledger address
    rw [assign_look]
    rfl

/-- A message that ended well was admitted. -/
theorem execute_ok {context : Context} {message : Message} {ledger : Ledger} {pool : Int}
    {executed : Executed} (finished : (geth.execute context message ledger pool).outcome = .ok executed) :
    (geth.execute context message ledger pool).pool = pool - executed.gasUsed ∧
      ∃ unused, (unused = 0 ∨ unused < message.gasLimit.natAbs) ∧
        executed.gasUsed = message.gasLimit - unused := by
  by_cases admitted : geth.Admits message ledger pool
  · rcases execute_admitted context message ledger with
      ⟨_, _, same, -⟩ | same | ⟨_, rfl, same⟩
    · rw [same pool admitted] at finished
      cases finished
    · rw [same pool admitted] at finished
      cases finished
    · rw [same pool admitted] at finished ⊢
      cases finished
      exact ⟨rfl, perform_gasUsed message _ _⟩
  · obtain ⟨_, same⟩ := execute_refused context message ledger pool admitted
    rw [same] at finished
    cases finished

theorem poolLaws : geth.PoolLaws where
  success _ _ _ _ _ finished := (execute_ok finished).1
  failure context message ledger pool error admitted finished := by
    rcases execute_admitted context message ledger with ⟨_, _, same, -⟩ | same | ⟨_, -, same⟩
    · rw [same pool admitted]
    · rw [same pool admitted] at finished
      cases finished
    · rw [same pool admitted] at finished
      cases finished
  bounds _ _ _ _ _ finished sign := by
    obtain ⟨-, unused, bound, used⟩ := execute_ok finished
    omega
  shift context message ledger pool other here there := by
    cases checked : preCheck message ledger with
    | some error =>
      rw [execute_checked context message ledger pool checked,
        execute_checked context message ledger other checked]
      congr 1
      dsimp only
      omega
    | none =>
      have first := (admits_iff message ledger pool).mpr ⟨checked, here⟩
      have second := (admits_iff message ledger other).mpr ⟨checked, there⟩
      rcases execute_admitted context message ledger with ⟨_, _, same, -⟩ | same | ⟨_, -, same⟩
      all_goals
        rw [same pool first, same other second]
        congr 1
        dsimp only
        omega

theorem spentLaws : geth.SpentLaws where
  positive context message ledger pool executed finished sign := by
    have admitted : geth.Admits message ledger pool := by
      by_contra refused
      obtain ⟨_, same⟩ := execute_refused context message ledger pool refused
      rw [same] at finished
      cases finished
    have enough : ¬ message.gasLimit.natAbs < 21000 := fun small => by
      rw [admissionLaws.underpaid context message ledger pool admitted small] at finished
      cases finished
    obtain ⟨-, unused, bound, used⟩ := execute_ok finished
    omega

theorem boughtLaws : geth.BoughtLaws where
  returned _ _ _ _ _ finished := by
    obtain ⟨-, unused, -, used⟩ := execute_ok finished
    omega
  panicked context message ledger pool admitted finished := by
    rcases execute_admitted context message ledger with ⟨_, _, same, -⟩ | same | ⟨_, -, same⟩
    · rw [same pool admitted]
    · rw [same pool admitted]
    · rw [same pool admitted] at finished
      cases finished

/-! ### Nonces -/

section Nonces

/-- The nonce and the code of an account. -/
def plain (ledger : Ledger) (address : Address) : Nat × Bytes :=
  ((entry ledger address).nonce, (entry ledger address).code)

theorem holds_iff {ledger : Ledger} {address : Address} {nonce : Nat} :
    geth.Holds ledger address nonce ↔ plain ledger address = (nonce, []) :=
  (Iff.of_eq (Prod.mk.injEq ..)).symm

@[simp] theorem plain_addBalance (ledger : Ledger) (address other : Address) (amount : Int) :
    plain (addBalance ledger address amount) other = plain ledger other := by
  rw [plain, addBalance, entry, look_put]
  split
  · next same => rw [same]; rfl
  · rfl

theorem plain_setNonce (ledger : Ledger) (address other : Address) (nonce : Nat) :
    plain (setNonce ledger address nonce) other =
      if other = address then (nonce, (plain ledger address).2) else plain ledger other := by
  rw [plain, setNonce, entry, look_put]
  split <;> rfl

theorem plain_remove (ledger : Ledger) {self address : Address} (apart : address ≠ self) :
    plain (ledger.filter fun pair => pair.1 ≠ self) address = plain ledger address := by
  rw [plain, entry, look_filter ledger .blank (fun address => address ≠ self) address,
    if_pos (by simpa using apart)]
  rfl

/-- A created account has its own kind of address. -/
theorem createAddress_head (address : Address) (nonce : Nat) :
    (createAddress address nonce).bytes.head? = some 9 := by
  rw [createAddress, FixedBytes.bytes_ofBytes]
  · rfl
  · rw [List.length_append, List.length_cons, bigEndian_length, List.length_drop, address.length_eq]

variable {message : Message} {ledger : Ledger} {address : Address}

/-- A message changes the nonce of its sender only, and no code, at an account that does not destroy
itself. -/
theorem plain_perform {program : Trace}
    (kept : program.beneficiary ≠ none → address ≠ message.recipient.getD
      (createAddress message.sender (entry ledger message.sender).nonce)) :
    plain (perform message ledger program).1 address =
      plain (setNonce ledger message.sender ((entry ledger message.sender).nonce + 1)) address := by
  unfold perform
  dsimp only
  split
  · simp only [plain_addBalance]
  · split
    · simp only [plain_addBalance]
    · next beneficiary found =>
      rw [plain_remove _ (kept (by rw [found]; exact nofun))]
      simp only [plain_addBalance]

/-- An account without code whose address is not a created one does not destroy itself. -/
theorem kept_plain (apart : address.bytes.head? ≠ some 9) (blank : (plain ledger address).2 = []) :
    (programOf message ledger).beneficiary ≠ none → address ≠ message.recipient.getD
      (createAddress message.sender (entry ledger message.sender).nonce) := by
  rintro given rfl
  cases recipient : message.recipient with
  | none =>
    rw [recipient, Option.getD_none] at apart
    exact apart (createAddress_head _ _)
  | some self =>
    rw [recipient] at blank
    have code : (entry ledger self).code = [] := blank
    rw [programOf, recipient] at given
    dsimp only at given
    rw [code] at given
    exact given rfl

variable {context : Context} {pool : Int} {nonce : Nat}

/-- The account states a message may leave. -/
theorem execute_plain (apart : address.bytes.head? ≠ some 9)
    (holds : plain ledger address = (nonce, [])) :
    (plain (geth.execute context message ledger pool).state address = (nonce, []) ∧
        ∀ executed, (geth.execute context message ledger pool).outcome ≠ .ok executed) ∨
      plain (geth.execute context message ledger pool).state address =
        plain (setNonce (bought message ledger) message.sender
          ((entry (bought message ledger) message.sender).nonce + 1)) address := by
  have same : plain (bought message ledger) address = plain ledger address :=
    plain_addBalance _ _ _ _
  by_cases admitted : geth.Admits message ledger pool
  · rcases execute_admitted context message ledger with
      ⟨left, _, ends, rfl | rfl, -⟩ | ends | ⟨_, rfl, ends⟩
    · rw [ends pool admitted]
      exact Or.inl ⟨same.trans holds, nofun⟩
    · rw [ends pool admitted]
      exact Or.inr rfl
    · rw [ends pool admitted]
      exact Or.inl ⟨same.trans holds, nofun⟩
    · rw [ends pool admitted]
      refine Or.inr (plain_perform (kept_plain apart ?_))
      rw [same, holds]
  · obtain ⟨_, ends⟩ := execute_refused context message ledger pool admitted
    rw [ends]
    refine Or.inl ⟨?_, nofun⟩
    rw [plain, entry_getOrNew]
    exact holds

/-- The nonce check fails only on another nonce. -/
theorem execute_agreed (agreed : (entry ledger message.sender).nonce = message.nonce) :
    (geth.execute context message ledger pool).outcome ≠ .error (.applying .nonceTooHigh) ∧
      (geth.execute context message ledger pool).outcome ≠ .error (.applying .nonceTooLow) := by
  cases checked : preCheck message ledger with
  | some error =>
    rw [execute_checked context message ledger pool checked]
    unfold preCheck at checked
    dsimp only at checked
    split_ifs at checked with high low large poor
    · omega
    · omega
    · cases checked
      exact ⟨nofun, nofun⟩
    · cases checked
      exact ⟨nofun, nofun⟩
  | none =>
    by_cases fits : message.gasLimit ≤ pool
    · have admitted := (admits_iff message ledger pool).mpr ⟨checked, fits⟩
      rcases execute_admitted context message ledger with
        ⟨_, _, ends, -, rfl | rfl⟩ | ends | ⟨_, -, ends⟩
      all_goals
        rw [ends pool admitted]
        exact ⟨nofun, nofun⟩
    · rw [execute_eq, transition, checked]
      dsimp only
      rw [if_pos (Int.not_le.mp fits)]
      exact ⟨nofun, nofun⟩

theorem nonceLaws {keyed : Address → Prop}
    (apart : ∀ address, keyed address → address.bytes.head? ≠ some 9) : geth.NonceLaws keyed where
  agreed _ _ _ _ agreed := execute_agreed agreed
  counted context message ledger pool executed nonce sender holds finished := by
    rw [holds_iff] at holds ⊢
    rcases execute_plain (apart _ sender) holds with ⟨-, failed⟩ | counted
    · exact absurd finished (failed executed)
    · have same : plain (bought message ledger) message.sender = (nonce, []) :=
        (plain_addBalance _ _ _ _).trans holds
      rw [counted, plain_setNonce, if_pos rfl, same]
      exact Prod.ext (congrArg (·.1 + 1) same) rfl
  others context message ledger pool address nonce key other holds := by
    rw [holds_iff] at holds ⊢
    rcases execute_plain (apart _ key) holds with ⟨kept, -⟩ | counted
    · exact kept
    · rw [counted, plain_setNonce, if_neg other]
      exact (plain_addBalance _ _ _ _).trans holds
  finalised ledger address nonce _ holds := by
    rw [holds_iff] at holds ⊢
    show plain (finalise ledger) address = _
    rw [plain, entry_finalise]
    split
    · exact holds
    · next gone =>
      -- an empty account has nonce 0, as a blank one
      have zero : (entry ledger address).nonce = 0 := by
        simp only [Entry.live, Bool.or_eq_true, bne_iff_ne, not_or, not_not] at gone
        exact gone.1.1
      rw [← holds]
      exact Prod.ext zero.symm (congrArg Prod.snd holds).symm

end Nonces

theorem codecLaws : geth.CodecLaws where
  decoded data t decoded := by
    have formed : WellFormed t := by
      change rlpDecode data = some t at decoded
      unfold rlpDecode at decoded
      split at decoded
      · split at decoded
        · next formed =>
          cases decoded
          exact formed
        · cases decoded
      · cases decoded
    refine ⟨formed.2.1, formed.1, formed.2.2.1, transactionWire.write t, if_pos formed, ?_⟩
    show rlpDecodeBytes _ = _
    unfold rlpDecodeBytes
    rw [transactionWire.readAll_write]
    exact if_pos formed
  encoded t data encoded := by
    change rlpEncode t = some data at encoded
    unfold rlpEncode at encoded
    split at encoded
    · next formed =>
      cases encoded
      show rlpDecode (transactionWire.write t) = some t
      have back := transactionWire.read_write t []
      rw [List.append_nil] at back
      rw [rlpDecode, back]
      exact if_pos formed
    · cases encoded
  receipt receipt cumulative used _ :=
    ⟨receiptWire.write (Geth.stored receipt), if_pos ⟨cumulative, used⟩, receiptWire.readAll_write _⟩

/-- A signed transaction is not the empty one, and its hash has another tag. -/
theorem txHash_signed (t : Transaction) (signed : sender t ≠ none) : txHash t ≠ txHash .empty := by
  have named : t ≠ .empty := by
    rintro rfl
    exact signed rfl
  intro same
  rw [txHash, txHash, if_neg named, if_pos rfl] at same
  exact absurd (digest_tag same) (by decide)

theorem trieLaws : geth.TrieLaws where
  finalise_finalise := finalise_finalise
  trie_key db ledger record member := by
    change record ∈ trieRecords db ledger at member
    unfold trieRecords at member
    rcases List.mem_append.mp member with code | whole
    · obtain ⟨pair, -, rfl⟩ := List.mem_map.mp code
      exact Or.inl (digest 1 pair.2.code).length_eq
    · split at whole
      · cases whole
      · rw [List.mem_singleton.mp whole]
        exact Or.inl (root ledger).length_eq
  open_keeps db later hash ledger opened kept := by
    change openState db hash = some ledger at opened
    show openState later hash = some ledger
    unfold openState at opened ⊢
    split
    · next blank => rwa [if_pos blank] at opened
    · next named =>
      rw [if_neg named] at opened
      obtain ⟨found, own⟩ := Option.filter_eq_some_iff.mp opened
      obtain ⟨stored, read, rfl⟩ := Option.map_eq_some_iff.mp found
      obtain ⟨data, there, decoded⟩ := Option.bind_eq_some_iff.mp read
      rw [kept _ hash.length_eq data there, Option.bind_some, decoded, Option.map_some, Option.filter,
        if_pos own]

theorem rootLaws : geth.RootLaws [] where
  opened db hash ledger named opened := by
    change openState db hash = some ledger at opened
    unfold openState at opened
    split at opened
    · next blank =>
      cases opened
      exact (blank.resolve_left named).symm
    · exact of_decide_eq_true (Option.filter_eq_some_iff.mp opened).2
  zero db := by
    show openState db default = some []
    exact if_pos (Or.inl rfl)
  empty db := by
    show openState db (root []) = some []
    exact if_pos (Or.inr rfl)

theorem openLaws : geth.OpenLaws where
  open_finalised db hash ledger opened := by
    change openState db hash = some ledger at opened
    show finalise ledger = ledger
    unfold openState at opened
    split at opened
    · cases opened
      rfl
    · obtain ⟨stored, -, rfl⟩ := Option.map_eq_some_iff.mp (Option.filter_eq_some_iff.mp opened).1
      exact finalise_finalise stored

/-- The machine has no BLOCKHASH. -/
theorem hashLaws : geth.HashLaws where
  unasked _ _ _ _ _ _ _ := ⟨rfl, rfl⟩

theorem entryLaws : geth.EntryLaws where
  unchecked context message ledger pool nonce agreed := by
    have checked : preCheck message ledger =
        preCheck { message with nonce, checkNonce := false } ledger := by
      unfold preCheck
      dsimp only
      rw [if_neg fun high => ?_, if_neg fun low => ?_]
      · rfl
      · have same : (entry ledger message.sender).nonce = message.nonce := agreed low.1
        omega
      · have same : (entry ledger message.sender).nonce = message.nonce := agreed high.1
        omega
    show transition context message ledger pool = transition context _ ledger pool
    rw [transition, checked]
    rfl
  early context message ledger pool env accounts left error ends := by
    change (transition context message ledger pool).run env = _ at ends
    show (transition context message ledger pool).path env = []
    unfold transition at ends ⊢
    cases checked : preCheck message ledger with
    | some _ => rfl
    | none =>
      rw [checked] at ends
      dsimp only at ends ⊢
      unfold settle at ends ⊢
      dsimp only at ends ⊢
      by_cases short : pool < message.gasLimit
      · rw [if_pos short]
        rfl
      · rw [if_neg short] at ends ⊢
        by_cases small : message.gasLimit.natAbs < 21000
        · rw [if_pos small]
          rfl
        · rw [if_neg small] at ends ⊢
          by_cases poor : (entry (bought message ledger) message.sender).balance < message.amount
          · rw [if_pos poor]
            rfl
          · -- a message that comes to its program does not end with an error
            rw [if_neg poor, Reading.run_readAll] at ends
            split at ends <;> cases ends

theorem steadyLaws {keyed : Address → Prop}
    (apart : ∀ address, keyed address → address.bytes.head? ≠ some 9) : geth.SteadyLaws keyed where
  toNonceLaws := nonceLaws apart
  failed context message ledger pool nonce key holds _ := by
    rw [holds_iff] at holds
    rcases execute_plain (apart _ key) holds with ⟨kept, -⟩ | counted
    · exact ⟨nonce, Nat.le_refl nonce, holds_iff.mpr kept⟩
    · have same : plain (bought message ledger) message.sender = (nonce, []) :=
        (plain_addBalance _ _ _ _).trans holds
      rw [plain_setNonce, if_pos rfl, same] at counted
      exact ⟨_, Nat.le_of_eq (congrArg Prod.fst same).symm |>.trans (Nat.le_succ _),
        holds_iff.mpr counted⟩

theorem account_put (ledger : Ledger) (address : Address) (value : Entry) :
    account (put ledger address value) = Function.update (account ledger) address
      ⟨value.nonce, value.balance, value.code, look value.storage default⟩ := by
  funext other
  rw [account, entry, look_put, Function.update_apply]
  split <;> rfl

theorem look_assign (list : List (Hash × Hash)) (key value : Hash) :
    look (assign list default key value) default = Function.update (look list default) key value := by
  funext other
  rw [Function.update_apply, assign]
  split
  · next same =>
    split
    · next here => rw [here, same]
    · rfl
  · exact look_replace list default key other value

/-- A self-destructed account is removed at once. -/
def gone (_ : Ledger) (_ : Address) : Prop := False

theorem writeLaws : geth.WriteLaws gone where
  account_addBalance ledger address amount := account_put ledger address _
  account_setCode ledger address code := account_put ledger address _
  account_setState ledger address key value := by
    refine (account_put ledger address _).trans ?_
    rw [look_assign]
    rfl
  gone_addBalance _ _ _ := rfl
  gone_setCode _ _ _ := rfl
  gone_setState _ _ _ _ := rfl
  gone_finalise _ _ := id
  finalise_removed ledger address removed := by
    have empty := removed.resolve_left id
    refine (account_finalise ledger address).trans (if_neg fun live => ?_)
    exact live_iff.mp live empty
  finalise_kept ledger address _ live :=
    (account_finalise ledger address).trans (if_pos (live_iff.mpr live))
  finalise_congr one two same _ := finalise_congr same
  open_blank db ledger opened address := by
    obtain rfl : [] = ledger := Option.some.inj opened
    exact ⟨rfl, id⟩

theorem receiptLaws : geth.ReceiptLaws where
  read receipt data encoded := by
    change rlpEncodeReceipt receipt = some data at encoded
    show receiptWire.readAll data = some (Geth.stored receipt)
    unfold rlpEncodeReceipt at encoded
    split at encoded
    · cases encoded
      exact receiptWire.readAll_write _
    · cases encoded

theorem hexLaws : geth.HexLaws where
  plain text data read := by
    show (Hex.bytes text.toList).getD [] = data
    rw [read, Option.getD_some]
  prefixed text found := by
    show (Hex.bytes text.toList).getD [] = []
    unfold Hex.Prefixed Hex.unprefixed at found
    split at found
    · next rest letters => rw [letters]; rfl
    · next rest letters => rw [letters]; rfl
    · exact absurd rfl found

/-! ### A node over the small chain -/

def alice : Address := .ofBytes 20 [1]

def bob : Address := .ofBytes 20 [2]

/-- A transaction of alice's. -/
def signed (nonce : Nat) (gasLimit : Int) (recipient : Address) (amount : Int) : Transaction where
  nonce
  price := 0
  gasLimit
  recipient := some recipient
  amount
  payload := []
  v := 27
  r := 1
  s := 1

def encoded (t : Transaction) : Bytes := transactionWire.write t

/-- A block of transactions. -/
def blockOf (transactions : List Transaction) : Block := ⟨[5], transactions.map encoded⟩

def payment : Block := blockOf [signed 0 21000 bob 5]

/-- A block with a transaction that moves nothing. -/
def tip : Block := blockOf [signed 0 21000 bob 0]

/-- The state of a node on an empty database. -/
def blank : State Ledger where
  db := Store.empty
  statedb := .ofAccounts []
  was := .fresh (.ofAccounts [])

theorem newState_empty : newState geth Store.empty = .ok blank := rfl

def genesis : AccountMap := [("0x01", ⟨"", [], "1000000"⟩)]

/-- The node after its genesis accounts: alice holds a million. -/
def started : State Ledger := (blank.createAccounts geth genesis).1

example : started.getBalance geth alice = 1000000 := by decide +kernel

end EvmBabble.Sample
