/-
What the answers to POST /tx and POST /rawtx say about what was submitted.

* `transactionHandler_tells` — POST /tx always answers with the hash of the one transaction it
  submitted, or submits nothing and answers with an error.
* `rawTransactionHandler_tells_iff`, `answer_tells_iff` — POST /rawtx does so exactly when its body
  cannot be read, is no hexadecimal text, or shows a transaction that decodes and has a sender; the
  bytes are submitted before anything is decoded.
-/

import EvmBabble.Service.Sample
import EvmBabble.State.Steps

namespace EvmBabble

open Library

variable {World : Type}

section Answers

variable (geth : Geth World) (web : Web) (keyStore : KeyStore)

/-! ### What an answer may say -/

/-- One byte string was submitted, every node can read a message from it, and the answer has its
hash. -/
def Submitted (handled : Handled World) : Prop :=
  ∃ data t message, handled.submitted = [data] ∧ geth.readMessage data = .ok (t, message) ∧
    handled.reply = .response (.json (.txRes (geth.txHash t)))

/-- Nothing was submitted, and the answer is an error. -/
def TurnedAway (handled : Handled World) : Prop :=
  handled.submitted = [] ∧ ∃ error, handled.reply = .response (.httpError error)

/-- The property of an answer: one of the two, and not both. -/
def AnswerTells (handled : Handled World) : Prop :=
  (Submitted geth handled ∨ TurnedAway handled) ∧ ¬ (Submitted geth handled ∧ TurnedAway handled)

variable {geth}

theorem answerTells_iff {handled : Handled World} :
    AnswerTells geth handled ↔ Submitted geth handled ∨ TurnedAway handled := by
  refine ⟨And.left, fun either => ⟨either, ?_⟩⟩
  rintro ⟨⟨data, _, _, one, -, -⟩, none, -⟩
  rw [none] at one
  cases one

/-- The hash in the answer is the one a node files the receipt under. -/
theorem submitted_filed {handled : Handled World} (submitted : Submitted geth handled) :
    ∃ data hash, handled.submitted = [data] ∧ handled.reply = .response (.json (.txRes hash)) ∧
      ∀ was txIndex blockHash next,
        applyTransaction geth was data txIndex blockHash = (next, .ok ()) →
          ∃ receipt, next.receipts = was.receipts ++ [receipt] ∧ receipt.txHash = hash := by
  obtain ⟨data, t, message, one, read, answer⟩ := submitted
  refine ⟨data, geth.txHash t, one, answer, fun was txIndex blockHash next applied => ?_⟩
  rw [applyTransaction_read read] at applied
  unfold WriteAheadState.afterMessage at applied
  split at applied
  · cases applied
  · cases applied
  · cases applied
    exact ⟨_, rfl, rfl⟩

/-! ### POST /tx -/

/-- A prepared transaction: the sender is the one asked for and is in the key store, and the signer
changed nothing but the signature. -/
theorem prepareTransaction_ok (signing : SigningLaws geth web keyStore) {s : State World}
    {args : SendTxArgs} {tx : Transaction}
    (prepared : prepareTransaction geth web keyStore s args = .ok tx) :
    geth.sender tx = some args.sender ∧ (∃ account, keyStore.find args.sender = some account) ∧
      { tx with v := 0, r := 0, s := 0 } = unsignedTransaction geth web s args := by
  obtain ⟨account, signature, found, signed, sealed⟩ := prepareTransaction_iff.mp prepared
  obtain rfl := signing.found _ _ found
  exact ⟨signing.sender _ _ _ _ signed sealed, ⟨_, found⟩, signing.unsigned _ _ _ sealed⟩

/-- Every node reads from the encoding of a transaction with a sender what was encoded. -/
theorem readMessage_encoded (codec : geth.CodecLaws) {t : Transaction} {data : Bytes}
    {sender : Address} (encoded : geth.rlpEncode t = some data)
    (recovered : geth.sender t = some sender) :
    ∃ message, geth.readMessage data = .ok (t, message) ∧ message.sender = sender := by
  cases converted : geth.asMessage t with
  | none =>
    rw [Geth.asMessage, recovered] at converted
    cases converted
  | some message =>
    obtain ⟨same, -⟩ := asMessage_some converted
    refine ⟨message, ?_, Option.some.inj (same.symm.trans recovered)⟩
    rw [Geth.readMessage, codec.encoded t data encoded]
    dsimp only
    rw [converted]

theorem transactionHandler_tells (codec : geth.CodecLaws) (signing : SigningLaws geth web keyStore)
    (s : State World) (body : Option Bytes) :
    Submitted geth (transactionHandler geth web keyStore s body) ∨
      TurnedAway (transactionHandler geth web keyStore s body) := by
  rcases transactionHandler_cases geth web keyStore s body with
    ⟨error, denied⟩ | ⟨args, tx, data, -, prepared, encoded, sent⟩
  · rw [denied]
    exact Or.inr ⟨rfl, _, rfl⟩
  · obtain ⟨sender, -⟩ := prepareTransaction_ok web keyStore signing prepared
    obtain ⟨message, read, -⟩ := readMessage_encoded codec encoded sender
    rw [sent]
    exact Or.inl ⟨data, tx, message, rfl, read, rfl⟩

/-! ### POST /rawtx -/

variable (geth)

/-- A body of POST /rawtx that shows a transaction with a sender, or no bytes at all. -/
def RawBody (body : Option Bytes) : Prop :=
  match body.bind web.hexutilDecode with
  | none => True
  | some rawTxBytes => ∃ read, geth.readMessage rawTxBytes = .ok read

variable {geth}

theorem rawTransactionHandler_unread {body : Option Bytes} (s : State World)
    (unread : body.bind web.hexutilDecode = none) :
    TurnedAway (rawTransactionHandler geth web s body) := by
  unfold rawTransactionHandler
  cases body with
  | none => exact ⟨rfl, _, rfl⟩
  | some text =>
    rw [Option.bind_some] at unread
    dsimp only
    rw [unread]
    exact ⟨rfl, _, rfl⟩

/-- Bytes that were shown are submitted, whatever they are; the answer comes of decoding them. -/
theorem rawTransactionHandler_read {body : Option Bytes} {rawTxBytes : Bytes} (s : State World)
    (shown : body.bind web.hexutilDecode = some rawTxBytes) :
    rawTransactionHandler geth web s body = ⟨s, [rawTxBytes], [], .response
      (match geth.rlpDecode rawTxBytes with
        | none => .empty
        | some t => .json (.txRes (geth.txHash t)))⟩ := by
  obtain ⟨text, rfl, decoded⟩ := Option.bind_eq_some_iff.mp shown
  unfold rawTransactionHandler
  dsimp only
  rw [decoded]
  dsimp only
  cases geth.rlpDecode rawTxBytes with
  | none => rfl
  | some t => rfl

theorem rawTransactionHandler_tells_iff (s : State World) (body : Option Bytes) :
    Submitted geth (rawTransactionHandler geth web s body) ∨
      TurnedAway (rawTransactionHandler geth web s body) ↔ RawBody geth web body := by
  unfold RawBody
  cases shown : body.bind web.hexutilDecode with
  | none => exact ⟨fun _ => trivial, fun _ => Or.inr (rawTransactionHandler_unread web s shown)⟩
  | some rawTxBytes =>
    rw [rawTransactionHandler_read web s shown]
    constructor
    · -- the bytes are submitted, so the answer has to be about them
      rintro (⟨data, t, message, one, read, -⟩ | ⟨none, -⟩)
      · cases one
        exact ⟨(t, message), read⟩
      · cases none
    · rintro ⟨⟨t, message⟩, read⟩
      refine Or.inl ⟨rawTxBytes, t, message, rfl, read, ?_⟩
      rw [(readMessage_ok read).1]

/-! ### Both requests -/

/-- The requests that submit a transaction. -/
inductive Submission
  | tx (body : Option Bytes)
  | rawtx (body : Option Bytes)

def Submission.request : Submission → ApiRequest
  | .tx body => .tx body
  | .rawtx body => .rawtx body

variable (geth) in
/-- A request whose answer tells what was submitted: every POST /tx, and a POST /rawtx whose bytes
every node can read. -/
def Submission.Readable : Submission → Prop
  | .tx _ => True
  | .rawtx body => RawBody geth web body

/-- **The answer tells what was submitted exactly when the bytes of a POST /rawtx can be read.** -/
theorem answer_tells_iff (codec : geth.CodecLaws) (signing : SigningLaws geth web keyStore)
    (s : State World) (submission : Submission) :
    AnswerTells geth (handle geth web keyStore s submission.request) ↔
      submission.Readable geth web := by
  rw [answerTells_iff]
  cases submission with
  | tx body =>
    exact ⟨fun _ => trivial, fun _ => transactionHandler_tells web keyStore codec signing s body⟩
  | rawtx body => exact rawTransactionHandler_tells_iff web s body

end Answers

/-! ### Answers of the small chain -/

namespace Sample

/-- A transfer and a raw payment, each answered with its hash. -/
theorem transfer_and_payment_told :
    AnswerTells Sample.geth (handle Sample.geth web keyStore started
        (Submission.tx (some transferBody)).request) ∧
      AnswerTells Sample.geth (handle Sample.geth web keyStore started
        (Submission.rawtx (some (hexBody (encoded (signed 0 21000 bob 5))))).request) := by
  refine ⟨(answer_tells_iff web keyStore codecLaws signingLaws started _).mpr trivial,
    (answer_tells_iff web keyStore codecLaws signingLaws started _).mpr ?_⟩
  have shown : (some (hexBody (encoded (signed 0 21000 bob 5)))).bind web.hexutilDecode =
      some (encoded (signed 0 21000 bob 5)) := by decide +kernel
  rw [Submission.Readable, RawBody, shown]
  exact ⟨(signed 0 21000 bob 5, ⟨alice, some bob, 0, 5, 21000, 0, [], true⟩), by decide +kernel⟩

/-- The body `0x00` shows one byte that no transaction begins with: it is submitted, and the answer
is a success without a hash. -/
theorem zero_byte_not_told : ¬ AnswerTells Sample.geth (handle Sample.geth web keyStore started
    (Submission.rawtx (some (bodyOf "0x00"))).request) := by
  rintro ⟨⟨data, t, message, one, read, -⟩ | ⟨none, -⟩, -⟩
  · have submitted : (handle Sample.geth web keyStore started
        (Submission.rawtx (some (bodyOf "0x00"))).request).submitted = [[0]] := by decide +kernel
    rw [submitted] at one
    cases one
    have unread : Sample.geth.readMessage [0] = .error .decodingTransaction := by decide +kernel
    rw [unread] at read
    cases read
  · revert none
    decide +kernel

end Sample

end EvmBabble
