/-
What a client asks for, and what is executed.

`SendTxArgs.asked` is the message that arguments describe: each field as given or by its default, and
the data read as a hexadecimal text. POST /tx and POST /call both read the data with `common.FromHex`,
which drops what it cannot decode; a negative number stops POST /tx at its encoding and POST /call
nowhere; and a message of POST /call has the nonce 0.

* `transactionHandler_sent`, `transactionHandler_unsent` — POST /tx submits the message that its
  arguments describe, with the bytes that `FromHex` makes of the data, or is answered with an error.
* `intent_kept_iff` — exactly which requests are denied or get the message they ask for.
-/

import EvmBabble.Service.Submission
import EvmBabble.Library.Hex

namespace EvmBabble

open Library

variable {World : Type}

/-! ### What is asked for -/

namespace SendTxArgs

variable (args : SendTxArgs)

/-- The message of the arguments over some data, where `next` is the nonce to use if none is given. -/
def message (next : Nat) (data : Bytes) : Message where
  sender := args.sender
  recipient := args.recipient
  nonce := args.nonce.getD next
  amount := args.value.getD 0
  gasLimit := args.gas.getD defaultGas
  price := args.gasPrice.getD 0
  data
  checkNonce := true

/-- Numbers that a transaction can hold. -/
def Representable : Prop :=
  0 ≤ args.gas.getD defaultGas ∧ 0 ≤ args.gasPrice.getD 0 ∧ 0 ≤ args.value.getD 0

instance : Decidable args.Representable := inferInstanceAs (Decidable (_ ∧ _ ∧ _))

/-- Data that is a hexadecimal text. -/
def HexData : Prop := (Hex.denoted args.data).isSome = true

instance : Decidable args.HexData := inferInstanceAs (Decidable (_ = true))

/-- The message that the arguments ask for, unless they cannot be meant. -/
def asked (next : Nat) : Option Message :=
  if args.Representable then (Hex.denoted args.data).map (args.message next) else none

variable {args} {next : Nat} {message : Message}

theorem asked_some (found : args.asked next = some message) : args.Representable ∧
    ∃ data, Hex.denoted args.data = some data ∧ message = args.message next data := by
  unfold asked at found
  split at found
  · next fits =>
    obtain ⟨data, read, rfl⟩ := Option.map_eq_some_iff.mp found
    exact ⟨fits, data, read, rfl⟩
  · cases found

theorem asked_of (fits : args.Representable) {data : Bytes} (read : Hex.denoted args.data = some data) :
    args.asked next = some (args.message next data) := by
  rw [asked, if_pos fits, read, Option.map_some]

/-- Data that is no hexadecimal text cannot be meant. -/
theorem asked_garbled (garbled : ¬ args.HexData) : args.asked next = none := by
  unfold asked
  split
  · rw [Option.not_isSome_iff_eq_none.mp garbled, Option.map_none]
  · rfl

end SendTxArgs

/-- `common.FromHex` on a hexadecimal text: the bytes it denotes. -/
structure Web.FromHexLaws (web : Web) : Prop where
  denoted : ∀ text data, Hex.denoted text = some data → web.fromHex text = data

/-! ### What is executed -/

/-- The requests that carry a message in the form of `SendTxArgs`. -/
inductive Ask
  | tx (body : Option Bytes)
  | call (body : Option Bytes)

namespace Ask

def request : Ask → ApiRequest
  | .tx body => .tx body
  | .call body => .call body

def body : Ask → Option Bytes
  | .tx body => body
  | .call body => body

/-- The nonce of a call is not checked. -/
def form : Ask → Message → Message
  | .tx _, message => message
  | .call _, message => { message with checkNonce := false }

end Ask

section Requests

variable (geth : Geth World) (web : Web) (keyStore : KeyStore) (s : State World)

/-- The message that bytes hold for `applyTransaction`. -/
def messageIn (data : Bytes) : List Message :=
  match geth.readMessage data with
  | .ok (_, message) => [message]
  | .error _ => []

/-- The messages that a request gets executed: those in the submitted bytes, or those that its handler
handed to `Call`. -/
def executes (ask : Ask) : List Message :=
  match ask with
  | .tx _ => (handle geth web keyStore s ask.request).submitted.flatMap (messageIn geth)
  | .call _ => (handle geth web keyStore s ask.request).called

/-- The request runs a message: `applyTransaction` does on the submitted bytes, whatever state it finds, or
the handler has left the state and the reply of `Call`. -/
def Runs (ask : Ask) (message : Message) : Prop :=
  match ask with
  | .tx _ => ∀ data ∈ (handle geth web keyStore s ask.request).submitted,
    ∀ (was : WriteAheadState World) txIndex blockHash, ∃ t,
      applyTransaction geth was data txIndex blockHash =
        was.afterMessage geth t message (was.runMessage geth t message txIndex blockHash)
  | .call _ => (handle geth web keyStore s ask.request).state = (s.call geth message).1 ∧
    (handle geth web keyStore s ask.request).reply = callReply (s.call geth message).2

/-- Answered with an error; nothing was submitted, nothing is executed and the state is left alone. -/
def Denied (ask : Ask) : Prop :=
  TurnedAway (handle geth web keyStore s ask.request) ∧ executes geth web keyStore s ask = [] ∧
    (handle geth web keyStore s ask.request).state = s

/-- The property of a request: it is denied, or the message it asks for, and no other, is run. -/
def KeepsIntent (ask : Ask) : Prop :=
  Denied geth web keyStore s ask ∨
    ∃ args message, ask.body.bind web.decodeArgs = some args ∧
      args.asked (s.getNonce geth args.sender) = some message ∧
      executes geth web keyStore s ask = [ask.form message] ∧
      Runs geth web keyStore s ask (ask.form message)

/-- Arguments whose transaction can be signed and encoded: the account is in the key store and
unlocked, and no number is in the way of the encoding. -/
def Sendable (args : SendTxArgs) : Prop :=
  ∃ account signature tx data, keyStore.find args.sender = some account ∧
    keyStore.signHash account (web.signerHash (unsignedTransaction geth web s args)) =
      some signature ∧
    web.withSignature (unsignedTransaction geth web s args) signature = some tx ∧
    geth.rlpEncode tx = some data

/-- A request that is read as it is meant: one of POST /tx whose data is hexadecimal or that cannot be
sent anyway, or one of POST /call whose data is hexadecimal, whose numbers a transaction can hold and
that asks for the nonce 0. -/
def Understood : Ask → Prop
  | .tx body => ∀ args, body.bind web.decodeArgs = some args →
    args.HexData ∨ ¬ Sendable geth web keyStore s args
  | .call body => ∀ args, body.bind web.decodeArgs = some args →
    args.HexData ∧ args.Representable ∧ args.nonce.getD (s.getNonce geth args.sender) = 0

end Requests

section Transactions

variable {geth : Geth World} {web : Web} {keyStore : KeyStore} {s : State World}
  {body : Option Bytes} {args : SendTxArgs}

/-- `applyTransaction` runs the message in its bytes. -/
theorem applyTransaction_messageIn {data : Bytes} {message : Message}
    (inside : messageIn geth data = [message]) (was : WriteAheadState World) (txIndex : Nat)
    (blockHash : Hash) : ∃ t, applyTransaction geth was data txIndex blockHash =
      was.afterMessage geth t message (was.runMessage geth t message txIndex blockHash) := by
  unfold messageIn at inside
  split at inside
  · next t read found =>
    obtain rfl := (List.cons.inj inside).1
    exact ⟨t, applyTransaction_read found⟩
  · cases inside

/-- What asks for no message can only be denied. -/
theorem unasked_denied {ask : Ask} (kept : KeepsIntent geth web keyStore s ask)
    (decoded : ask.body.bind web.decodeArgs = some args)
    (unasked : args.asked (s.getNonce geth args.sender) = none) : Denied geth web keyStore s ask := by
  rcases kept with denied | ⟨other, message, same, asked, -, -⟩
  · exact denied
  · obtain rfl := Option.some.inj (decoded.symm.trans same)
    exact nomatch unasked.symm.trans asked

/-! ### POST /tx -/

/-- A sendable request was prepared and encoded. -/
theorem sendable_iff : Sendable geth web keyStore s args ↔
    ∃ tx data, prepareTransaction geth web keyStore s args = .ok tx ∧
      geth.rlpEncode tx = some data := by
  constructor
  · rintro ⟨account, signature, tx, data, found, signed, sealed, encoded⟩
    exact ⟨tx, data, prepareTransaction_iff.mpr ⟨account, signature, found, signed, sealed⟩, encoded⟩
  · rintro ⟨tx, data, prepared, encoded⟩
    obtain ⟨account, signature, found, signed, sealed⟩ := prepareTransaction_iff.mp prepared
    exact ⟨account, signature, tx, data, found, signed, sealed, encoded⟩

/-- The message in the bytes of a prepared transaction: the one its arguments describe, over what
`FromHex` makes of the data. -/
theorem prepared_message (codec : geth.CodecLaws) (signing : SigningLaws geth web keyStore)
    {tx : Transaction} {data : Bytes}
    (prepared : prepareTransaction geth web keyStore s args = .ok tx)
    (encoded : geth.rlpEncode tx = some data) :
    geth.readMessage data =
      .ok (tx, args.message (s.getNonce geth args.sender) (web.fromHex args.data)) := by
  obtain ⟨recovered, -, unsigned⟩ := prepareTransaction_ok web keyStore signing prepared
  obtain ⟨message, read, -⟩ := readMessage_encoded codec encoded recovered
  obtain ⟨sender, recipient, nonce, amount, gasLimit, price, payload, checked⟩ :=
    asMessage_some (readMessage_ok read).2
  -- the fields of the message are those of the transaction, and so those of the arguments
  have fields : message =
      { sender := args.sender, recipient := tx.recipient, nonce := tx.nonce, amount := tx.amount,
        gasLimit := tx.gasLimit, price := tx.price, data := tx.payload, checkNonce := true } := by
    rw [← Option.some.inj (sender.symm.trans recovered), ← recipient, ← nonce, ← amount, ← gasLimit,
      ← price, ← payload, ← checked]
  cases tx
  cases unsigned
  rw [read, fields]
  rfl

/-- Numbers that were encoded are not negative. -/
theorem prepared_representable (codec : geth.CodecLaws) (signing : SigningLaws geth web keyStore)
    {tx : Transaction} {data : Bytes}
    (prepared : prepareTransaction geth web keyStore s args = .ok tx)
    (encoded : geth.rlpEncode tx = some data) : args.Representable := by
  obtain ⟨-, -, unsigned⟩ := prepareTransaction_ok web keyStore signing prepared
  obtain ⟨gas, price, value, -⟩ := codec.decoded data tx (codec.encoded tx data encoded)
  have limit : tx.gasLimit = args.gas.getD defaultGas := congrArg Transaction.gasLimit unsigned
  have rate : tx.price = args.gasPrice.getD 0 := congrArg Transaction.price unsigned
  have amount : tx.amount = args.value.getD 0 := congrArg Transaction.amount unsigned
  exact ⟨limit ▸ gas, rate ▸ price, amount ▸ value⟩

/-- **A request that can be sent** is answered with a hash and submits the message of its arguments. -/
theorem transactionHandler_sent (codec : geth.CodecLaws) (signing : SigningLaws geth web keyStore)
    (decoded : body.bind web.decodeArgs = some args) (sendable : Sendable geth web keyStore s args) :
    args.Representable ∧ (transactionHandler geth web keyStore s body).submitted ≠ [] ∧
      executes geth web keyStore s (.tx body) =
        [args.message (s.getNonce geth args.sender) (web.fromHex args.data)] ∧
      Runs geth web keyStore s (.tx body)
        (args.message (s.getNonce geth args.sender) (web.fromHex args.data)) := by
  obtain ⟨tx, data, prepared, encoded⟩ := sendable_iff.mp sendable
  have handled : transactionHandler geth web keyStore s body =
      ⟨s, [data], [], .response (.json (.txRes (geth.txHash tx)))⟩ := by
    unfold transactionHandler
    rw [decoded]
    dsimp only
    rw [prepared]
    dsimp only
    rw [encoded]
  have inside : messageIn geth data =
      [args.message (s.getNonce geth args.sender) (web.fromHex args.data)] := by
    rw [messageIn, prepared_message codec signing prepared encoded]
  refine ⟨prepared_representable codec signing prepared encoded, ?_, ?_, ?_⟩
  · rw [handled]
    exact List.cons_ne_nil _ _
  · show (transactionHandler geth web keyStore s body).submitted.flatMap (messageIn geth) = _
    rw [handled, ← inside]
    exact List.append_nil _
  · show ∀ sent ∈ (transactionHandler geth web keyStore s body).submitted, _
    rw [handled]
    rintro sent member was txIndex blockHash
    obtain rfl := List.mem_singleton.mp member
    exact applyTransaction_messageIn inside was txIndex blockHash

/-- **A request that cannot be sent** is denied. -/
theorem transactionHandler_unsent
    (unsent : ∀ args, body.bind web.decodeArgs = some args → ¬ Sendable geth web keyStore s args) :
    Denied geth web keyStore s (.tx body) := by
  rcases transactionHandler_cases geth web keyStore s body with
    ⟨error, denied⟩ | ⟨args, tx, data, decoded, prepared, encoded, -⟩
  · have away : TurnedAway (transactionHandler geth web keyStore s body) := by
      rw [denied]
      exact ⟨rfl, _, rfl⟩
    refine ⟨away, ?_, ?_⟩
    · show (transactionHandler geth web keyStore s body).submitted.flatMap (messageIn geth) = []
      rw [away.1]
      rfl
    · exact (transactionHandler_answered geth web keyStore s body).state
  · exact absurd (sendable_iff.mpr ⟨tx, data, prepared, encoded⟩) (unsent args decoded)

theorem tx_kept_iff (codec : geth.CodecLaws) (signing : SigningLaws geth web keyStore)
    (hex : web.FromHexLaws) :
    KeepsIntent geth web keyStore s (.tx body) ↔ Understood geth web keyStore s (.tx body) := by
  constructor
  · intro kept args decoded
    by_contra! unclear
    obtain ⟨garbled, sendable⟩ := unclear
    obtain ⟨-, submitted, -⟩ := transactionHandler_sent codec signing decoded sendable
    have denied := unasked_denied kept decoded (SendTxArgs.asked_garbled garbled)
    exact submitted denied.1.1
  · intro understood
    by_cases unsent : ∀ args, body.bind web.decodeArgs = some args →
        ¬ Sendable geth web keyStore s args
    · exact Or.inl (transactionHandler_unsent unsent)
    · push Not at unsent
      obtain ⟨args, decoded, sendable⟩ := unsent
      obtain ⟨data, read⟩ := Option.isSome_iff_exists.mp
        ((understood args decoded).resolve_right (not_not.mpr sendable))
      obtain ⟨fits, -, sent, runs⟩ := transactionHandler_sent codec signing decoded sendable
      rw [hex.denoted _ _ read] at sent runs
      exact Or.inr ⟨args, _, decoded, SendTxArgs.asked_of fits read, sent, runs⟩

/-! ### POST /call -/

variable (geth keyStore s) in
/-- **What `callHandler` does with a request that it can decode**: it hands one message to `Call`, and what
it leaves and answers is what `Call` makes of that message. -/
theorem callHandler_hands (decoded : body.bind web.decodeArgs = some args) :
    executes geth web keyStore s (.call body) = [prepareCallMessage web args] ∧
      Runs geth web keyStore s (.call body) (prepareCallMessage web args) := by
  have handled : handle geth web keyStore s (.call body) = ⟨(s.call geth (prepareCallMessage web args)).1, [],
      [prepareCallMessage web args], callReply (s.call geth (prepareCallMessage web args)).2⟩ := by
    show callHandler geth web s body = _
    unfold callHandler
    rw [decoded]
  unfold executes Runs
  dsimp only [Ask.request]
  rw [handled]
  exact ⟨rfl, rfl, rfl⟩

/-- The message of a call: the one its arguments describe, but for the nonce. -/
theorem prepareCallMessage_eq (next : Nat) : prepareCallMessage web args =
    { args.message next (web.fromHex args.data) with nonce := 0, checkNonce := false } := rfl

theorem call_kept_iff (hex : web.FromHexLaws) :
    KeepsIntent geth web keyStore s (.call body) ↔ Understood geth web keyStore s (.call body) := by
  cases decoded : body.bind web.decodeArgs with
  | none =>
    have handled : handle geth web keyStore s (.call body) = .answer s (.httpError .decodingArgs) := by
      show callHandler geth web s body = _
      unfold callHandler
      rw [decoded]
    refine iff_of_true (Or.inl ?_) fun args found => ?_
    · unfold Denied executes
      dsimp only [Ask.request]
      rw [handled]
      exact ⟨⟨rfl, _, rfl⟩, rfl, rfl⟩
    · rw [decoded] at found
      cases found
  | some args =>
    obtain ⟨handed, runs⟩ := callHandler_hands geth keyStore s decoded
    constructor
    · rintro (⟨-, none, -⟩ | ⟨other, message, same, asked, executed, -⟩)
      · rw [handed] at none
        cases none
      · obtain rfl := Option.some.inj (decoded.symm.trans same)
        obtain ⟨fits, data, read, rfl⟩ := SendTxArgs.asked_some asked
        intro again found
        obtain rfl := Option.some.inj (decoded.symm.trans found)
        rw [handed] at executed
        exact ⟨by rw [SendTxArgs.HexData, read, Option.isSome_some], fits,
          (congrArg Message.nonce (List.cons.inj executed).1).symm⟩
    · intro understood
      obtain ⟨valid, fits, first⟩ := understood args decoded
      obtain ⟨data, read⟩ := Option.isSome_iff_exists.mp valid
      have message : prepareCallMessage web args =
          Ask.form (.call body) (args.message (s.getNonce geth args.sender) data) := by
        rw [prepareCallMessage_eq (s.getNonce geth args.sender), hex.denoted _ _ read, ← first]
        rfl
      rw [message] at handed runs
      exact Or.inr ⟨args, _, decoded, SendTxArgs.asked_of fits read, handed, runs⟩

/-! ### Both requests -/

/-- **A request is denied or gets what it asks for exactly when it is read as it is meant.** -/
theorem intent_kept_iff (codec : geth.CodecLaws) (signing : SigningLaws geth web keyStore)
    (hex : web.FromHexLaws) (s : State World) (ask : Ask) :
    KeepsIntent geth web keyStore s ask ↔ Understood geth web keyStore s ask := by
  cases ask with
  | tx body => exact tx_kept_iff codec signing hex
  | call body => exact call_kept_iff hex

end Transactions

/-! ### Requests of the small chain -/

namespace Sample

/-- A transfer from alice to bob with data that is no hexadecimal text. -/
def garbledBody : Bytes :=
  bodyOf "\x7b\"from\":\"0x0000000000000000000000000000000000000001\"," ++
    bodyOf "\"to\":\"0x0000000000000000000000000000000000000002\"," ++
    bodyOf "\"gas\":21000,\"value\":5,\"data\":\"0xzz\"\x7d"

/-- A call from alice to bob with two bytes of data. -/
def inputBody : Bytes :=
  bodyOf "\x7b\"from\":\"0x0000000000000000000000000000000000000001\"," ++
    bodyOf "\"to\":\"0x0000000000000000000000000000000000000002\"," ++
    bodyOf "\"data\":\"0x33A0\"\x7d"

theorem fromHexLaws : web.FromHexLaws where
  denoted text data read := by
    show (Hex.bytes (if (Hex.unprefixed text.toList).length % 2 = 0 then Hex.unprefixed text.toList
      else '0' :: Hex.unprefixed text.toList)).getD [] = data
    rw [if_pos (Hex.bytes_length read), show Hex.bytes (Hex.unprefixed text.toList) = some data from read,
      Option.getD_some]

/-- The data is taken for no data at all: the transfer is submitted, and the call is run. -/
theorem garbled_not_kept :
    ¬ KeepsIntent Sample.geth web keyStore started (.tx (some garbledBody)) ∧
      ¬ KeepsIntent Sample.geth web keyStore started (.call (some garbledBody)) := by
  have decoded : (some garbledBody).bind web.decodeArgs =
      some ⟨alice, some bob, some 21000, none, some 5, "0xzz", none⟩ := by decide +kernel
  have unasked : (⟨alice, some bob, some 21000, none, some 5, "0xzz", none⟩ : SendTxArgs).asked
      (started.getNonce Sample.geth alice) = none := SendTxArgs.asked_garbled (by decide +kernel)
  constructor
  · intro kept
    have submitted : (transactionHandler Sample.geth web keyStore started
        (some garbledBody)).submitted ≠ [] := by
      unfold transactionHandler
      rw [decoded]
      decide +kernel
    exact submitted (unasked_denied kept decoded unasked).1.1
  · intro kept
    have handed := (callHandler_hands Sample.geth keyStore started decoded).1
    exact nomatch handed.symm.trans (unasked_denied kept decoded unasked).2.1

theorem transfer_and_input_kept :
    KeepsIntent Sample.geth web keyStore started (.tx (some transferBody)) ∧
      KeepsIntent Sample.geth web keyStore started (.call (some inputBody)) := by
  have input : (some inputBody).bind web.decodeArgs =
      some ⟨alice, some bob, none, none, none, "0x33A0", none⟩ := by decide +kernel
  refine ⟨(intent_kept_iff codecLaws signingLaws fromHexLaws started _).mpr fun args found => ?_,
    (intent_kept_iff codecLaws signingLaws fromHexLaws started _).mpr fun args found => ?_⟩
  · obtain rfl := Option.some.inj (transfer_decoded.symm.trans found)
    exact Or.inl (by decide +kernel)
  · obtain rfl := Option.some.inj (input.symm.trans found)
    exact ⟨by decide +kernel, by decide, by decide +kernel⟩

end Sample

end EvmBabble
