/-
The HTTP handlers (`http_handlers.go`, `types.go`).

A handler takes the state and a request, and gives the state it leaves, the byte strings it sent on
`submitCh`, the messages it handed to `State.Call` and its reply. The texts of hashes, addresses and data in a JSON answer are kept as the
bytes they show, and `json.Marshal` is left out: it cannot fail on these types. A request body may
fail to be read.
-/

import EvmBabble.State.Core

namespace EvmBabble

open Library

/-! ### Data -/

/-- `SendTxArgs`. -/
structure SendTxArgs where
  sender : Address
  recipient : Option Address
  gas : Option Int
  gasPrice : Option Int
  value : Option Int
  data : String
  nonce : Option Nat
deriving DecidableEq

/-- `JsonAccount`. -/
structure JsonAccount where
  address : Address
  balance : Int
  nonce : Nat
deriving DecidableEq

/-- `JsonReceipt`. -/
structure JsonReceipt where
  root : Hash
  transactionHash : Hash
  sender : Address
  recipient : Option Address
  gasUsed : Int
  cumulativeGasUsed : Int
  contractAddress : Address
  logs : List Log
  logsBloom : Bloom
  failed : Bool
deriving DecidableEq

/-- What a handler answers as JSON. -/
inductive JsonResult
  | account (account : JsonAccount)
  | accounts (accounts : List JsonAccount)
  | callRes (data : Bytes)
  | txRes (txHash : Hash)
  | receipt (receipt : JsonReceipt)
deriving DecidableEq

/-- The errors a handler answers with. -/
inductive HandlerError
  | decodingArgs
  | unknownAccount
  | signing
  | encodingTransaction
  | readingBody
  | readingHex
  | executing (failure : Failure)
  | gettingTransaction (failure : Failure)
  | gettingReceipt (failure : Failure)
  | gettingSender
deriving DecidableEq

/-- A response: a JSON result, an error of status 500, or a success without a body. -/
inductive Response
  | json (result : JsonResult)
  | httpError (error : HandlerError)
  | empty
deriving DecidableEq

/-- How a handler ends. -/
inductive Reply
  | response (response : Response)
  | panic
deriving DecidableEq

/-- What a handler does. -/
structure Handled (World : Type) where
  state : State World
  submitted : List Bytes
  called : List Message
  reply : Reply

/-- The requests the router knows. -/
inductive ApiRequest
  | getAccount (param : String)
  | getAccounts
  | call (body : Option Bytes)
  | tx (body : Option Bytes)
  | rawtx (body : Option Bytes)
  | getTx (param : String)

/-- The functions of the standard library and of go-ethereum that only the service calls. -/
structure Web where
  /-- `json.Decoder.Decode` into `SendTxArgs`. -/
  decodeArgs : Bytes → Option SendTxArgs
  /-- `hexutil.Decode` of the body as a string. -/
  hexutilDecode : Bytes → Option Bytes
  fromHex : String → Bytes
  /-- What the EIP155 signer of chain 1 has signed of a transaction. -/
  signerHash : Transaction → Hash
  withSignature : Transaction → Bytes → Option Transaction

/-- `keystore.KeyStore`. -/
structure KeyStore where
  accounts : List Address
  find : Address → Option Address
  signHash : Address → Hash → Option Bytes

/-- The key store and the signer: the account found is the one asked for, and a transaction with its
signature has that account as its sender and keeps every other field. -/
structure SigningLaws {World : Type} (geth : Geth World) (web : Web) (keyStore : KeyStore) : Prop where
  found : ∀ address account, keyStore.find address = some account → account = address
  sender : ∀ account t signature signedTx,
    keyStore.signHash account (web.signerHash t) = some signature →
      web.withSignature t signature = some signedTx → geth.sender signedTx = some account
  unsigned : ∀ t signature signedTx, web.withSignature t signature = some signedTx →
    { signedTx with v := t.v, r := t.r, s := t.s } = t

/-! ### Preparing messages and transactions -/

/-- `defaultGas`. -/
def defaultGas : Int := 90000

/-- `prepareSendTxArgs`: the fields that were left out get their defaults. -/
def prepareSendTxArgs (args : SendTxArgs) : SendTxArgs :=
  { args with
    gas := some (args.gas.getD defaultGas)
    gasPrice := some (args.gasPrice.getD 0)
    value := some (args.value.getD 0) }

section Handlers

variable {World : Type} (geth : Geth World) (web : Web) (keyStore : KeyStore) (s : State World)

/-- `prepareCallMessage`. -/
def prepareCallMessage (args : SendTxArgs) : Message :=
  let args := prepareSendTxArgs args
  { sender := args.sender, recipient := args.recipient, nonce := 0, amount := args.value.getD 0,
    gasLimit := args.gas.getD 0, price := args.gasPrice.getD 0, data := web.fromHex args.data,
    checkNonce := false }

/-- The transaction `prepareTransaction` signs; a nonce that was left out is fetched from the state. -/
def unsignedTransaction (args : SendTxArgs) : Transaction :=
  let args := prepareSendTxArgs args
  { nonce := args.nonce.getD (s.getNonce geth args.sender), price := args.gasPrice.getD 0,
    gasLimit := args.gas.getD 0, recipient := args.recipient, amount := args.value.getD 0,
    payload := web.fromHex args.data, v := 0, r := 0, s := 0 }

/-- `prepareTransaction`. -/
def prepareTransaction (args : SendTxArgs) : Except HandlerError Transaction :=
  let tx := unsignedTransaction geth web s args
  match keyStore.find args.sender with
  | none => .error .unknownAccount
  | some account =>
    match keyStore.signHash account (web.signerHash tx) with
    | none => .error .signing
    | some signature =>
      match web.withSignature tx signature with
      | none => .error .signing
      | some signedTx => .ok signedTx

/-! ### Handlers -/

/-- A reply that changes nothing and submits nothing. -/
def Handled.answer (response : Response) : Handled World := ⟨s, [], [], .response response⟩

def jsonAccount (address : Address) : JsonAccount :=
  ⟨address, s.getBalance geth address, s.getNonce geth address⟩

def accountHandler (param : String) : Handled World :=
  .answer s (.json (.account (jsonAccount geth s (geth.hexToAddress param))))

def accountsHandler : Handled World :=
  .answer s (.json (.accounts (keyStore.accounts.map (jsonAccount geth s))))

/-- What a call is answered with. -/
def callReply : Outcome Bytes → Reply
  | .ok data => .response (.json (.callRes data))
  | .error failure => .response (.httpError (.executing failure))
  | .panic => .panic

def callHandler (body : Option Bytes) : Handled World :=
  match body.bind web.decodeArgs with
  | none => .answer s (.httpError .decodingArgs)
  | some args =>
    let callMessage := prepareCallMessage web args
    let (left, outcome) := s.call geth callMessage
    ⟨left, [], [callMessage], callReply outcome⟩

def transactionHandler (body : Option Bytes) : Handled World :=
  match body.bind web.decodeArgs with
  | none => .answer s (.httpError .decodingArgs)
  | some args =>
    match prepareTransaction geth web keyStore s args with
    | .error error => .answer s (.httpError error)
    | .ok tx =>
      match geth.rlpEncode tx with
      | none => .answer s (.httpError .encodingTransaction)
      | some data => ⟨s, [data], [], .response (.json (.txRes (geth.txHash tx)))⟩

/-- `rawTransactionHandler`: the bytes are submitted before they are decoded, and nothing is written
when they cannot be. -/
def rawTransactionHandler (body : Option Bytes) : Handled World :=
  match body with
  | none => .answer s (.httpError .readingBody)
  | some text =>
    match web.hexutilDecode text with
    | none => .answer s (.httpError .readingHex)
    | some rawTxBytes =>
      match geth.rlpDecode rawTxBytes with
      | none => ⟨s, [rawTxBytes], [], .response .empty⟩
      | some t => ⟨s, [rawTxBytes], [], .response (.json (.txRes (geth.txHash t)))⟩

def transactionReceiptHandler (param : String) : Handled World :=
  let txHash := geth.hexToHash param
  match getTransaction geth s.db txHash with
  | .error failure => .answer s (.httpError (.gettingTransaction failure))
  | .ok tx =>
    match getReceipt geth s.db txHash with
    | .error failure => .answer s (.httpError (.gettingReceipt failure))
    | .ok receipt =>
      match geth.sender tx with
      | none => .answer s (.httpError .gettingSender)
      | some sender => .answer s (.json (.receipt
          { root := .ofBytes 32 receipt.postState, transactionHash := txHash, sender,
            recipient := tx.recipient, gasUsed := receipt.gasUsed,
            cumulativeGasUsed := receipt.cumulativeGasUsed,
            contractAddress := receipt.contractAddress, logs := receipt.logs,
            logsBloom := receipt.bloom, failed := receipt.failed }))

/-- The handler the router picks. -/
def handle : ApiRequest → Handled World
  | .getAccount param => accountHandler geth s param
  | .getAccounts => accountsHandler geth keyStore s
  | .call body => callHandler geth web s body
  | .tx body => transactionHandler geth web keyStore s body
  | .rawtx body => rawTransactionHandler geth web s body
  | .getTx param => transactionReceiptHandler geth s param

/-- A reply that changes nothing and calls nothing, with whatever was submitted. -/
def Handled.Answered (handled : Handled World) : Prop :=
  ∃ submitted response, handled = ⟨s, submitted, [], .response response⟩

end Handlers

/-! ### What the handlers can do -/

section Answers

variable {World : Type} {geth : Geth World} {web : Web} {keyStore : KeyStore} {s : State World}

theorem Handled.Answered.state {handled : Handled World} (answered : handled.Answered s) :
    handled.state = s := by
  obtain ⟨submitted, response, rfl⟩ := answered
  rfl

/-- A transaction is prepared when its account is found, signs and its signature fits. -/
theorem prepareTransaction_iff {args : SendTxArgs} {tx : Transaction} :
    prepareTransaction geth web keyStore s args = .ok tx ↔
      ∃ account signature, keyStore.find args.sender = some account ∧
        keyStore.signHash account (web.signerHash (unsignedTransaction geth web s args)) =
          some signature ∧
        web.withSignature (unsignedTransaction geth web s args) signature = some tx := by
  unfold prepareTransaction
  dsimp only
  constructor
  · intro prepared
    split at prepared
    · cases prepared
    · next account found =>
      split at prepared
      · cases prepared
      · next signature signed =>
        split at prepared
        · cases prepared
        · next signedTx sealed =>
          cases prepared
          exact ⟨account, signature, found, signed, sealed⟩
  · rintro ⟨account, signature, found, signed, sealed⟩
    rw [found]
    dsimp only
    rw [signed]
    dsimp only
    rw [sealed]

variable (geth web keyStore s)

/-- POST /tx is answered with an error, or with the hash of the transaction it submits. -/
theorem transactionHandler_cases (body : Option Bytes) :
    (∃ error, transactionHandler geth web keyStore s body = .answer s (.httpError error)) ∨
      ∃ args tx data, body.bind web.decodeArgs = some args ∧
        prepareTransaction geth web keyStore s args = .ok tx ∧ geth.rlpEncode tx = some data ∧
        transactionHandler geth web keyStore s body =
          ⟨s, [data], [], .response (.json (.txRes (geth.txHash tx)))⟩ := by
  unfold transactionHandler
  cases body.bind web.decodeArgs with
  | none => exact Or.inl ⟨_, rfl⟩
  | some args =>
    dsimp only
    cases prepared : prepareTransaction geth web keyStore s args with
    | error error => exact Or.inl ⟨_, rfl⟩
    | ok tx =>
      dsimp only
      cases encoded : geth.rlpEncode tx with
      | none => exact Or.inl ⟨_, rfl⟩
      | some data => exact Or.inr ⟨args, tx, data, rfl, prepared, encoded, rfl⟩

theorem transactionHandler_answered (body : Option Bytes) :
    (transactionHandler geth web keyStore s body).Answered s := by
  rcases transactionHandler_cases geth web keyStore s body with
    ⟨error, denied⟩ | ⟨args, tx, data, -, -, -, sent⟩
  · exact ⟨_, _, denied⟩
  · exact ⟨_, _, sent⟩

theorem rawTransactionHandler_answered (body : Option Bytes) :
    (rawTransactionHandler geth web s body).Answered s := by
  unfold rawTransactionHandler
  split
  · exact ⟨_, _, rfl⟩
  · split
    · exact ⟨_, _, rfl⟩
    · split
      · exact ⟨_, _, rfl⟩
      · exact ⟨_, _, rfl⟩

theorem transactionReceiptHandler_answered (param : String) :
    (transactionReceiptHandler geth s param).Answered s := by
  unfold transactionReceiptHandler
  dsimp only
  split
  · exact ⟨_, _, rfl⟩
  · split
    · exact ⟨_, _, rfl⟩
    · split
      · exact ⟨_, _, rfl⟩
      · exact ⟨_, _, rfl⟩

end Answers

end EvmBabble
