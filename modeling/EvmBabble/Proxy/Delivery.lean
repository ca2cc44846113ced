/-
From a client's request to the receipt that any client reads (`http_handlers.go`, `proxy.go`).

POST /tx and POST /rawtx answer with a transaction hash before babble has decided anything; the receipt
is read later, with GET /tx, from a node that need not be the one that was asked.

* `shown_iff` — a node that has accepted some operations shows a receipt exactly for the hashes of the
  transactions in them, with the sender and the recipient of the transaction.
* `receipts_shown_iff` — in a network, a node whose own work is smooth shows a receipt exactly for the
  transactions in the blocks that it has processed, and every one of them was submitted by the handler of
  a request.
* `receipt_everywhere` — so the hash that a client is answered leads, on every such node that has processed the
  bytes, to a receipt of the sender and the recipient that the client named.
-/

import EvmBabble.Proxy.Network
import EvmBabble.Service.Submission
import EvmBabble.State.Archive

namespace EvmBabble

open Library

variable {World : Type}

/-! ### What a node shows -/

section Shown

variable {geth : Geth World} {s reached : State World} {operations : List Operation}

/-- A transaction of an accepted block has a sender. -/
theorem brought_signed (pool : geth.PoolLaws) (codec : geth.CodecLaws) (trie : geth.TrieLaws)
    (fresh : s.was = .fresh s.statedb) {operation : Operation} (accepted : Accepts geth s operation)
    {t : Transaction} (brings : operation.Brings geth t) :
    ∃ sender, geth.sender t = some sender := by
  cases operation with
  | createAccounts accounts => exact brings.elim
  | processBlock block =>
    obtain ⟨steps, folded⟩ :=
      (processBlock_accepted_iff pool codec trie fresh).mp (Outcome.isOk_iff.mp accepted)
    obtain ⟨txBytes, member, decoded⟩ := brings
    have listed := List.mem_map_of_mem (f := geth.readMessage) member
    rw [txSteps_reads folded] at listed
    obtain ⟨step, -, read⟩ := List.mem_map.mp listed
    obtain ⟨found, converted⟩ := readMessage_ok read.symm
    obtain rfl := Option.some.inj (found.symm.trans decoded)
    exact ⟨_, (asMessage_some converted).1⟩

theorem delivered_signed (pool : geth.PoolLaws) (codec : geth.CodecLaws) (trie : geth.TrieLaws)
    (fresh : s.was = .fresh s.statedb)
    (archives : Along (State.operate geth) (Archives geth) s operations) {t : Transaction}
    (delivered : Delivered geth operations t) : ∃ sender, geth.sender t = some sender := by
  obtain ⟨operation, member, brings⟩ := delivered
  induction operations generalizing s with
  | nil => cases member
  | cons first rest ih =>
    obtain ⟨here, later⟩ := archives
    rcases List.mem_cons.mp member with rfl | inside
    · exact brought_signed pool codec trie fresh here.1 brings
    · exact ih (operate_fresh here.1) later inside

/-- The receipt that GET /tx shows of a transaction that is stored with one. -/
theorem transactionReceiptHandler_stored {param : String} {t : Transaction} {receipt : Receipt}
    {sender : Address} (stored : getTransaction geth reached.db (geth.hexToHash param) = .ok t)
    (posted : getReceipt geth reached.db (geth.hexToHash param) = .ok receipt)
    (signed : geth.sender t = some sender) :
    ∃ shown, (transactionReceiptHandler geth reached param).reply = .response (.json (.receipt shown)) ∧
      shown.transactionHash = geth.hexToHash param ∧ shown.sender = sender ∧
      shown.recipient = t.recipient := by
  unfold transactionReceiptHandler
  dsimp only
  rw [stored]
  dsimp only
  rw [posted]
  dsimp only
  rw [signed]
  exact ⟨_, rfl, rfl, rfl, rfl⟩

/-- GET /tx shows no receipt of a hash that none is stored under. -/
theorem transactionReceiptHandler_posted {param : String} {shown : JsonReceipt}
    (answered : (transactionReceiptHandler geth reached param).reply =
      .response (.json (.receipt shown))) :
    ∃ receipt, getReceipt geth reached.db (geth.hexToHash param) = .ok receipt := by
  unfold transactionReceiptHandler at answered
  dsimp only at answered
  cases found : getTransaction geth reached.db (geth.hexToHash param) with
  | error failure =>
    rw [found] at answered
    cases answered
  | ok t =>
    rw [found] at answered
    cases posted : getReceipt geth reached.db (geth.hexToHash param) with
    | error failure =>
      rw [posted] at answered
      cases answered
    | ok receipt => exact ⟨receipt, rfl⟩

section Run

variable (pool : geth.PoolLaws) (codec : geth.CodecLaws) (trie : geth.TrieLaws)
  (opened : newState geth Store.empty = .ok s)
  (archives : Along (State.operate geth) (Archives geth) s operations)
  (db : reached.db = (run (State.operate geth) s operations).1.db)
include pool codec trie opened archives db

/-- The receipt of a transaction that was applied is shown, with its sender and its recipient. -/
theorem delivered_shown {t : Transaction} (delivered : Delivered geth operations t) {param : String}
    (named : geth.hexToHash param = geth.txHash t) :
    ∃ shown, (transactionReceiptHandler geth reached param).reply = .response (.json (.receipt shown)) ∧
      shown.transactionHash = geth.txHash t ∧ geth.sender t = some shown.sender ∧
      shown.recipient = t.recipient := by
  have held := store_holds_committed pool codec trie opened archives
  obtain ⟨sender, signed⟩ :=
    delivered_signed pool codec trie (newState_fresh opened).2 archives delivered
  obtain ⟨receipt, posted⟩ := (held.posts (geth.txHash t)).mpr ⟨t, delivered, rfl⟩
  have stored := held.applied t delivered
  rw [← db, ← named] at stored posted
  obtain ⟨shown, answered, hash, same, recipient⟩ :=
    transactionReceiptHandler_stored stored posted signed
  exact ⟨shown, answered, hash.trans named, by rw [same]; exact signed, recipient⟩

/-- **A receipt is shown exactly for the transactions that were applied.** -/
theorem shown_iff (param : String) :
    (∃ shown, (transactionReceiptHandler geth reached param).reply =
        .response (.json (.receipt shown))) ↔
      ∃ t, Delivered geth operations t ∧ geth.txHash t = geth.hexToHash param := by
  constructor
  · rintro ⟨shown, answered⟩
    obtain ⟨receipt, posted⟩ := transactionReceiptHandler_posted answered
    rw [db] at posted
    exact ((store_holds_committed pool codec trie opened archives).posts _).mp ⟨receipt, posted⟩
  · rintro ⟨t, delivered, named⟩
    obtain ⟨shown, answered, -⟩ :=
      delivered_shown pool codec trie opened archives db delivered named.symm
    exact ⟨shown, answered⟩

end Run

end Shown

/-! ### What a client is answered -/

section Answers

variable {geth : Geth World} {web : Web} {keyStore : KeyStore}

variable (geth web) in
/-- The sender and the recipient that a submission names: in its arguments, or in its bytes. -/
def Submission.Names (sender : Address) (recipient : Option Address) : Submission → Prop
  | .tx body => ∃ args, body.bind web.decodeArgs = some args ∧ args.sender = sender ∧
      args.recipient = recipient
  | .rawtx body => ∃ rawTxBytes t, body.bind web.hexutilDecode = some rawTxBytes ∧
      geth.rlpDecode rawTxBytes = some t ∧ geth.sender t = some sender ∧ t.recipient = recipient

/-- **A submission that is answered with a hash** has sent the transaction of that hash, from the sender
and to the recipient that it names. -/
theorem answered_sent (codec : geth.CodecLaws) (signing : SigningLaws geth web keyStore)
    {s : State World} {submission : Submission} {hash : Hash}
    (answered : (handle geth web keyStore s submission.request).reply =
      .response (.json (.txRes hash))) :
    ∃ data t, (handle geth web keyStore s submission.request).submitted = [data] ∧
      geth.rlpDecode data = some t ∧ geth.txHash t = hash ∧
      ∀ sender, geth.sender t = some sender → submission.Names geth web sender t.recipient := by
  cases submission with
  | tx body =>
    change (transactionHandler geth web keyStore s body).reply = _ at answered
    show ∃ data t, (transactionHandler geth web keyStore s body).submitted = [data] ∧ _
    rcases transactionHandler_cases geth web keyStore s body with
      ⟨error, denied⟩ | ⟨args, tx, data, decoded, prepared, encoded, sent⟩
    · rw [denied] at answered
      cases answered
    · rw [sent] at answered ⊢
      cases answered
      obtain ⟨signed, -, unsigned⟩ := prepareTransaction_ok web keyStore signing prepared
      refine ⟨data, tx, rfl, codec.encoded tx data encoded, rfl, fun sender recovered => ?_⟩
      exact ⟨args, decoded, Option.some.inj (signed.symm.trans recovered),
        (congrArg Transaction.recipient unsigned).symm⟩
  | rawtx body =>
    change (rawTransactionHandler geth web s body).reply = _ at answered
    show ∃ data t, (rawTransactionHandler geth web s body).submitted = [data] ∧ _
    cases shown : body.bind web.hexutilDecode with
    | none =>
      obtain ⟨-, error, denied⟩ := rawTransactionHandler_unread web s shown
      rw [denied] at answered
      cases answered
    | some rawTxBytes =>
      rw [rawTransactionHandler_read web s shown] at answered ⊢
      dsimp only at answered
      cases decoded : geth.rlpDecode rawTxBytes with
      | none =>
        rw [decoded] at answered
        cases answered
      | some t =>
        rw [decoded] at answered
        cases answered
        exact ⟨rawTxBytes, t, rfl, decoded, rfl, fun sender recovered =>
          ⟨rawTxBytes, t, shown, decoded, recovered, rfl⟩⟩

end Answers

/-! ### Receipts in the network -/

section Networks

variable {ι : Type} [DecidableEq ι] (geth : Geth World) (web : Web) (keyStores : ι → KeyStore)

/-- What a node has done to its state: its genesis accounts, and the blocks that it has processed. -/
def Pipeline.operations (setup : Setup) (p : Pipeline World) : List Operation :=
  lockedLabels setup.serviceRun ++ p.processed.map fun response => .processBlock response.block

variable {geth web keyStores} {s : State World} {setup : Setup} {fill : BlockField → Int}
  {moves : List (NetworkMove ι)}

/-- The plain node is one that accepts those operations. -/
theorem ledger_operations {p : Pipeline World}
    (accepted : Along (State.operate geth) (Accepts geth) s (p.operations setup)) :
    p.ledger geth ((setup.first geth s).getD s) =
      (run (State.operate geth) s (p.operations setup)).1 := by
  have blocks : ∀ (first : State World) (responses : List (BlockResponse World)),
      (replay geth first (responses.map BlockResponse.block)).1 =
        (run (State.operate geth) first
          (responses.map fun response => .processBlock response.block)).1 := by
    intro first responses
    induction responses generalizing first with
    | nil => rfl
    | cons response rest ih => exact ih _
  rw [Pipeline.operations, run_append]
  show _ = (run (State.operate geth) _ _).1
  rw [← blocks]
  refine congrArg (fun first => (replay geth first _).1) ?_
  rcases serviceRun_labels setup with none | ⟨accounts, made, unlocked, genesis, one⟩
  · rw [none, Pipeline.first_same s none]
    rfl
  · rw [Pipeline.operations, one] at accepted
    have created : (s.createAccounts geth accounts).2.isOk = true := accepted.1
    rw [one, first_created geth s made unlocked genesis, if_pos created]
    rfl

/-- The transactions of those operations are the ones in the processed blocks. -/
theorem delivered_processed {p : Pipeline World} {t : Transaction} :
    Delivered geth (p.operations setup) t ↔
      ∃ response ∈ p.processed, ∃ tx ∈ response.block.transactions, geth.rlpDecode tx = some t := by
  constructor
  · rintro ⟨operation, member, brings⟩
    rcases List.mem_append.mp member with early | late
    · rcases serviceRun_labels setup with none | ⟨accounts, -, -, -, one⟩
      · rw [none] at early
        cases early
      · rw [one] at early
        rw [List.mem_singleton.mp early] at brings
        exact brings.elim
    · obtain ⟨response, inside, rfl⟩ := List.mem_map.mp late
      exact ⟨response, inside, brings⟩
  · rintro ⟨response, inside, brings⟩
    exact ⟨_, List.mem_append_right _ (List.mem_map_of_mem inside), brings⟩

section Runs

variable (pool : geth.PoolLaws) (codec : geth.CodecLaws) (trie : geth.TrieLaws)
  (opened : newState geth Store.empty = .ok s) {net : Network ι World} {node : ι}
  (proper : Along (Network.move geth web keyStores)
    (fun net => net.Proper geth web keyStores (· = node) fill ((setup.first geth s).getD s))
    (.start geth s setup) moves)
  (reached : Network.after geth web keyStores s setup moves = net)
  (archives : Along (State.operate geth) (Archives geth) s ((net.nodes node).operations setup))
  (created : (net.nodes node).service.created = true)
  (idle : (net.nodes node).serve.processes = false)
include pool codec proper reached archives created idle

/-- The database of a node at rest. -/
theorem rests_db : (net.nodes node).state.db =
    (run (State.operate geth) s ((net.nodes node).operations setup)).1.db := by
  have sound := Network.sound_after pool codec proper
  rw [reached] at sound
  rw [← ledger_operations (along_weaken _ (fun _ _ archived => archived.1) archives)]
  exact ((sound.loyal node rfl).rests created idle).db

include trie opened

/-- **A node shows a receipt exactly for the transactions in the blocks it has processed**, and each of
them was submitted by the handler of a request. -/
theorem receipts_shown_iff (param : String) :
    (∃ shown, (handle geth web (keyStores node) (net.nodes node).state (.getTx param)).reply =
        .response (.json (.receipt shown))) ↔
      ∃ response ∈ (net.nodes node).processed, ∃ tx ∈ response.block.transactions, ∃ t,
        geth.rlpDecode tx = some t ∧ geth.txHash t = geth.hexToHash param ∧
          ∃ asked client handler earlier, (net.nodes asked).handlers client = some handler ∧
            tx ∈ (handle geth web (keyStores asked) earlier handler.request).submitted := by
  have shown := shown_iff pool codec trie opened archives
    (rests_db pool codec proper reached archives created idle) param
  apply shown.trans
  have sound := Network.sound_after pool codec proper
  rw [reached] at sound
  constructor
  · rintro ⟨t, delivered, named⟩
    obtain ⟨response, member, tx, listed, decoded⟩ := delivered_processed.mp delivered
    have decided := (sound.linked node).listed.subset
      (List.mem_map_of_mem (f := BlockResponse.block) member)
    exact ⟨response, member, tx, listed, t, decoded, named,
      sound.agrees.sources _ decided tx listed⟩
  · rintro ⟨response, member, tx, listed, t, decoded, named, -⟩
    exact ⟨t, delivered_processed.mpr ⟨response, member, tx, listed, decoded⟩, named⟩

/-- **The hash that a client was answered leads to a receipt on every node that has processed the
bytes**, of the sender and the recipient that the client named. -/
theorem receipt_everywhere {asked : ι} (signing : SigningLaws geth web (keyStores asked))
    {client : Nat} {handler : Handler} {submission : Submission} {hash : Hash}
    (found : (net.nodes asked).handlers client = some handler)
    (request : handler.request = submission.request)
    (answered : handler.stage = .finished (.json (.txRes hash)))
    (processed : ∃ response ∈ (net.nodes node).processed,
      ∃ data ∈ handler.sent, data ∈ response.block.transactions)
    {param : String} (named : geth.hexToHash param = hash) :
    ∃ shown, (handle geth web (keyStores node) (net.nodes node).state (.getTx param)).reply =
        .response (.json (.receipt shown)) ∧
      shown.transactionHash = hash ∧ submission.Names geth web shown.sender shown.recipient := by
  have sound := Network.sound_after pool codec proper
  rw [reached] at sound
  have honest := (sound.linked asked).ordered.honest client handler found
  rw [Handler.Honest, answered, request] at honest
  obtain ⟨earlier, sent, reply⟩ := honest
  obtain ⟨data, t, one, decoded, rfl, names⟩ := answered_sent codec signing reply.symm
  obtain ⟨response, member, other, inside, listed⟩ := processed
  rw [sent, one, List.mem_singleton] at inside
  subst inside
  have delivered : Delivered geth ((net.nodes node).operations setup) t :=
    delivered_processed.mpr ⟨response, member, other, listed, decoded⟩
  obtain ⟨shown, shows, same, signed, recipient⟩ := delivered_shown pool codec trie opened archives
    (rests_db pool codec proper reached archives created idle) delivered named
  exact ⟨shown, shows, same, by rw [recipient]; exact names _ signed⟩

end Runs

end Networks

/-! ### A receipt in the network of the small chain -/

deriving instance DecidableEq for ApiRequest

deriving instance DecidableEq for Handler

namespace Sample

/-- The two nodes after the transfer. -/
def served : Network Bool Ledger :=
  Network.after Sample.geth web (fun _ => keyStore) blank plainSetup twoNodes

theorem served_after :
    Network.after Sample.geth web (fun _ : Bool => keyStore) blank plainSetup twoNodes = served := rfl

theorem served_proper (node : Bool) : Along (Network.move Sample.geth web (fun _ : Bool => keyStore))
    (fun net => net.Proper Sample.geth web (fun _ => keyStore) (· = node) (fun _ => 0)
      ((plainSetup.first Sample.geth blank).getD blank))
    (.start Sample.geth blank plainSetup) twoNodes := by
  revert node
  decide +kernel

/-- The text of the hash that the transfer was answered with. -/
def transferHash : String := "0x0119c1b006a98071634320dc321a83a2d69cefbe080bb1480e1403321aaf1a68"

/-- The handler of the transfer. -/
def transferHandler : Handler where
  request := .tx (some transferBody)
  stage := .finished (.json (.txRes (Sample.geth.hexToHash transferHash)))
  sent := transferBlock.transactions

/-- Both nodes are at rest and have accepted their operations. -/
theorem served_rests (node : Bool) :
    Along (State.operate Sample.geth) (Archives Sample.geth) blank
        ((served.nodes node).operations plainSetup) ∧
      (served.nodes node).service.created = true ∧ (served.nodes node).serve.processes = false := by
  revert node
  decide +kernel

/-- One of them was asked for the transfer, and the other has processed its bytes. -/
theorem transfer_posted : (served.nodes false).handlers 0 = some transferHandler ∧
    ∃ response ∈ (served.nodes true).processed,
      ∃ data ∈ transferHandler.sent, data ∈ response.block.transactions := by decide +kernel

/-- The node that was not asked shows the receipt of the transfer. -/
theorem transfer_shown : ∃ shown, (handle Sample.geth web keyStore (served.nodes true).state
      (.getTx transferHash)).reply = .response (.json (.receipt shown)) ∧
    shown.transactionHash = Sample.geth.hexToHash transferHash ∧
    (Submission.tx (some transferBody)).Names Sample.geth web shown.sender shown.recipient := by
  obtain ⟨archives, created, idle⟩ := served_rests true
  obtain ⟨found, processed⟩ := transfer_posted
  have request : transferHandler.request = (Submission.tx (some transferBody)).request := rfl
  have answered : transferHandler.stage =
      .finished (.json (.txRes (Sample.geth.hexToHash transferHash))) := rfl
  exact receipt_everywhere poolLaws codecLaws trieLaws newState_empty (served_proper _) served_after
    archives created idle signingLaws found request answered processed rfl

/-- The node that was asked shows a receipt when the bytes of its transaction came in a block. -/
theorem transfer_listed : (∃ shown, (handle Sample.geth web keyStore (served.nodes false).state
      (.getTx transferHash)).reply = .response (.json (.receipt shown))) ↔
    ∃ response ∈ (served.nodes false).processed, ∃ tx ∈ response.block.transactions, ∃ t,
      Sample.geth.rlpDecode tx = some t ∧
        Sample.geth.txHash t = Sample.geth.hexToHash transferHash ∧
          ∃ asked client handler earlier, (served.nodes asked).handlers client = some handler ∧
            tx ∈ (handle Sample.geth web keyStore earlier handler.request).submitted := by
  obtain ⟨archives, created, idle⟩ := served_rests false
  exact receipts_shown_iff poolLaws codecLaws trieLaws newState_empty (served_proper _) served_after
    archives created idle transferHash

end Sample

end EvmBabble
