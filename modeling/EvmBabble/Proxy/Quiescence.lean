/-
The work of a node comes to an end (`proxy.go`, `service.go`, `http_handlers.go`).

Apart from the requests and the blocks that come in, what the goroutines have to do is bounded: a section
of `commitMutex` makes one step for each transaction or account and one for the commit, and a handler
sends at most one byte string. `Pipeline.Left` counts what is left, and every step leaves less.

* `left_step`, `left_move` — a step leaves less to do, and what comes in adds a bounded amount.
* `EndedBy`, `endsBy_move` — the three ways in which the process ends.
* `everything_answered` — from every reachable configuration, every fair schedule of the goroutines comes
  to rest; then the node has ended in one of these ways, or every block that had come in has its response,
  and so has every request unless a handler has panicked.
-/

import EvmBabble.Library.Fairness
import EvmBabble.Proxy.Network
import Mathlib.Algebra.BigOperators.Group.Finset.Piecewise

namespace EvmBabble

open Library

variable {World : Type}

/-! ### The sections -/

section Sections

variable (geth : Geth World)

/-- The steps of a section: one for each transaction or account, and the commit. -/
def Operation.steps : Operation → Nat
  | .createAccounts accounts => accounts.length + 1
  | .processBlock block => block.transactions.length + 1

theorem blockRoutine_within (blockHash : Hash) (txIndex : Nat) (transactions : List Bytes) :
    (blockRoutine geth blockHash txIndex transactions).Within (transactions.length + 1) := by
  induction transactions generalizing txIndex with
  | nil => exact fun _ => trivial
  | cons txBytes rest ih =>
    intro s
    dsimp only
    split
    · exact ih (txIndex + 1)
    · trivial
    · trivial

theorem genesisRoutine_within (accounts : AccountMap) :
    (genesisRoutine geth accounts).Within (accounts.length + 1) := by
  induction accounts with
  | nil => exact fun _ => trivial
  | cons entry rest ih =>
    intro s
    dsimp only
    split
    · exact ih
    · trivial

theorem operationRoutine_within (operation : Operation) :
    (operationRoutine geth operation).Within operation.steps := by
  cases operation with
  | createAccounts accounts => exact genesisRoutine_within geth accounts
  | processBlock block => exact blockRoutine_within geth _ 0 block.transactions

end Sections

/-! ### What is left -/

/-- The moves of an action of `Service.Run`. -/
def actionMoves : Action Operation → Nat
  | .idle => 1
  | .locked operation => operation.steps + 2
  | .exit => 1

/-- The moves that `Service.Run` makes at most. -/
def ServiceStage.Left (count : Nat) : ServiceStage World → Prop
  | .starting actions => (actions.map actionMoves).sum ≤ count
  | .creating body actions =>
    ∃ steps, body.Within steps ∧ steps + 1 + (actions.map actionMoves).sum ≤ count

/-- The moves of `Proxy.Serve` from a block in its channel to the response. -/
def blockMoves (block : Block) : Nat := (Operation.processBlock block).steps + 4

/-- The moves that `Proxy.Serve` makes at most with what it has received. -/
def ServeStage.Left (count : Nat) : ServeStage World → Prop
  | .select => True
  | .submitting _ => 1 ≤ count
  | .atCommitLock block => (Operation.processBlock block).steps + 3 ≤ count
  | .processing _ body => ∃ steps, body.Within steps ∧ steps + 2 ≤ count
  | .responding _ => 1 ≤ count

/-- The moves that a handler brings at most: a send is one of its own and one of `Proxy.Serve`. -/
def HandlerStage.moves : HandlerStage → Nat
  | .atLock => 7
  | .entered => 6
  | .atCommitLock => 5
  | .calling => 4
  | .leaving unsent _ => 2 * unsent.length + 1
  | .finished _ => 0

def handlerMoves : Option Handler → Nat
  | none => 0
  | some handler => handler.stage.moves

namespace Pipeline

/-- The moves that the goroutines make at most if nothing comes in any more. -/
def Left (p : Pipeline World) (count : Nat) : Prop :=
  ∃ (service serve : Nat) (clients : Finset Nat), p.service.Left service ∧ p.serve.Left serve ∧
    (∀ client, p.handlers client ≠ none → client ∈ clients) ∧
    service + serve + (p.commitCh.map blockMoves).sum +
      ∑ client ∈ clients, handlerMoves (p.handlers client) + (if p.ended then 0 else 1) ≤ count

/-- Less is left than some number of moves. -/
def LeftBelow (count : Nat) (p : Pipeline World) : Prop := ∃ fewer, fewer < count ∧ p.Left fewer

end Pipeline

/-- A handler sends at most one byte string. -/
theorem handle_sends (geth : Geth World) (web : Web) (keyStore : KeyStore) (s : State World)
    (request : ApiRequest) : (handle geth web keyStore s request).submitted.length ≤ 1 := by
  cases request with
  | getAccount param => exact Nat.zero_le _
  | getAccounts => exact Nat.zero_le _
  | call body =>
    show (callHandler geth web s body).submitted.length ≤ 1
    unfold callHandler
    split
    · exact Nat.zero_le _
    · exact Nat.zero_le _
  | tx body =>
    show (transactionHandler geth web keyStore s body).submitted.length ≤ 1
    rcases transactionHandler_cases geth web keyStore s body with
      ⟨error, denied⟩ | ⟨args, tx, data, -, -, -, sent⟩
    · rw [denied]
      exact Nat.zero_le _
    · rw [sent]
      exact Nat.le_refl _
  | rawtx body =>
    show (rawTransactionHandler geth web s body).submitted.length ≤ 1
    unfold rawTransactionHandler
    split
    · exact Nat.zero_le _
    · split
      · exact Nat.zero_le _
      · split
        · exact Nat.le_refl _
        · exact Nat.le_refl _
  | getTx param =>
    show (transactionReceiptHandler geth s param).submitted.length ≤ 1
    unfold transactionReceiptHandler
    dsimp only
    split
    · exact Nat.zero_le _
    · split
      · exact Nat.zero_le _
      · split
        · exact Nat.zero_le _
        · exact Nat.zero_le _

namespace Pipeline

section Steps

variable {geth : Geth World} {web : Web} {keyStore : KeyStore} {p q : Pipeline World} {count : Nat}

/-- A step of `Service.Run` or of `Proxy.Serve` outside its channel. -/
theorem leftBelow_of {service serve fewer idle : Nat} {clients : Finset Nat}
    (bound : service + serve + (p.commitCh.map blockMoves).sum +
      ∑ client ∈ clients, handlerMoves (p.handlers client) + 1 ≤ count)
    (listed : ∀ client, p.handlers client ≠ none → client ∈ clients)
    (offered : q.commitCh = p.commitCh) (handlers : q.handlers = p.handlers)
    (starts : q.service.Left fewer) (serves : q.serve.Left idle)
    (less : fewer + idle + (if q.ended then 0 else 1) < service + serve + 1) :
    q.LeftBelow count := by
  refine ⟨_, ?_, fewer, idle, clients, starts, serves, by rwa [handlers], Nat.le_refl _⟩
  rw [offered, handlers]
  omega

theorem left_service (going : p.ended = false) (left : p.Left count)
    (moved : p.stepService geth = some q) : q.LeftBelow count := by
  obtain ⟨service, serve, clients, starts, serves, listed, bound⟩ := left
  rw [going] at bound
  have one : (if p.ended then 0 else 1) = 1 := by rw [going]; rfl
  refine service_keeps moved ?idle ?exit ?create ?work ?finish
  case idle =>
    intro actions starting
    rw [starting] at starts
    change 1 + (actions.map actionMoves).sum ≤ service at starts
    exact leftBelow_of bound listed rfl rfl (Nat.le_refl _) serves (by dsimp only; omega)
  case exit =>
    intro actions starting
    exact leftBelow_of bound listed rfl rfl starts serves (by simp)
  case create =>
    intro operation actions starting _
    rw [starting] at starts
    change operation.steps + 2 + (actions.map actionMoves).sum ≤ service at starts
    exact leftBelow_of bound listed rfl rfl
      ⟨operation.steps, operationRoutine_within geth operation, Nat.le_refl _⟩ serves
      (by dsimp only; omega)
  case work =>
    intro effect next actions creating
    rw [creating] at starts
    obtain ⟨steps, within, enough⟩ := starts
    cases steps with
    | zero => exact within.elim
    | succ steps =>
      exact leftBelow_of bound listed rfl rfl ⟨steps, within p.state, Nat.le_refl _⟩ serves
        (by dsimp only; omega)
  case finish =>
    intro outcome actions creating
    rw [creating] at starts
    obtain ⟨steps, -, enough⟩ := starts
    refine leftBelow_of bound listed rfl rfl (Nat.le_refl _) serves ?_
    dsimp only
    split
    · omega
    · omega

theorem left_serve (going : p.ended = false) (left : p.Left count)
    (moved : p.stepServe geth = some q) : q.LeftBelow count := by
  obtain ⟨service, serve, clients, starts, serves, listed, bound⟩ := left
  rw [going] at bound
  have one : (if p.ended then 0 else 1) = 1 := by rw [going]; rfl
  refine serve_keeps moved ?receive ?submit ?take ?work ?finish ?respond
  case receive =>
    intro block rest _ offered
    rw [offered, List.map_cons, List.sum_cons, blockMoves] at bound
    refine ⟨_, ?_, service, (Operation.processBlock block).steps + 3, clients, starts,
      Nat.le_refl _, listed, Nat.le_refl _⟩
    dsimp only
    rw [going]
    simp only [Bool.false_eq_true, if_false] at bound ⊢
    omega
  case submit =>
    intro tx submitting
    rw [submitting] at serves
    change 1 ≤ serve at serves
    have rests : (ServeStage.select : ServeStage World).Left 0 := trivial
    exact leftBelow_of bound listed rfl rfl starts rests (by dsimp only; omega)
  case take =>
    intro block waiting _
    rw [waiting] at serves
    change (Operation.processBlock block).steps + 3 ≤ serve at serves
    exact leftBelow_of bound listed rfl rfl starts
      ⟨_, operationRoutine_within geth (.processBlock block), Nat.le_refl _⟩ (by dsimp only; omega)
  case work =>
    intro block effect next processing
    rw [processing] at serves
    obtain ⟨steps, within, enough⟩ := serves
    cases steps with
    | zero => exact within.elim
    | succ steps =>
      exact leftBelow_of bound listed rfl rfl starts ⟨steps, within p.state, Nat.le_refl _⟩
        (by dsimp only; omega)
  case finish =>
    intro block outcome processing
    rw [processing] at serves
    obtain ⟨steps, -, enough⟩ := serves
    refine leftBelow_of bound listed rfl rfl starts (Nat.le_refl 1) ?_
    dsimp only
    split
    · omega
    · omega
  case respond =>
    intro response responding
    rw [responding] at serves
    change 1 ≤ serve at serves
    have rests : (ServeStage.select : ServeStage World).Left 0 := trivial
    exact leftBelow_of bound listed rfl rfl starts rests (by dsimp only; omega)

/-- A step that moves a handler. -/
theorem leftBelow_put {service serve idle client : Nat} {clients : Finset Nat}
    {handler next : Handler} (starts : p.service.Left service)
    (listed : ∀ client, p.handlers client ≠ none → client ∈ clients)
    (bound : service + serve + (p.commitCh.map blockMoves).sum +
      ∑ client ∈ clients, handlerMoves (p.handlers client) + 1 ≤ count)
    (found : p.handlers client = some handler) (same : q.service = p.service)
    (offered : q.commitCh = p.commitCh)
    (handlers : q.handlers = Function.update p.handlers client (some next))
    (serves : q.serve.Left idle)
    (less : next.stage.moves + idle < handler.stage.moves + serve) : q.LeftBelow count := by
  have member : client ∈ clients := listed client (by rw [found]; exact Option.some_ne_none _)
  have before := Finset.sum_update_of_mem member (handlerMoves ∘ p.handlers) handler.stage.moves
  have stands : Function.update (handlerMoves ∘ p.handlers) client handler.stage.moves =
      handlerMoves ∘ p.handlers := by
    apply Function.update_eq_self_iff.mpr
    rw [Function.comp_apply, found]
    rfl
  have after := Finset.sum_update_of_mem member (handlerMoves ∘ p.handlers) next.stage.moves
  have moved : Function.update (handlerMoves ∘ p.handlers) client next.stage.moves =
      handlerMoves ∘ q.handlers := by
    rw [handlers, Function.comp_update]
    rfl
  rw [stands] at before
  rw [moved] at after
  change ∑ client ∈ clients, handlerMoves (p.handlers client) = _ at before
  change ∑ client ∈ clients, handlerMoves (q.handlers client) = _ at after
  refine ⟨_, ?_, service, idle, clients, by rwa [same], serves, fun other present => ?_, Nat.le_refl _⟩
  · rw [offered, after]
    rw [before] at bound
    split
    · omega
    · omega
  · rw [handlers] at present
    by_cases here : other = client
    · rw [here]
      exact member
    · rw [Function.update_of_ne here] at present
      exact listed other present

theorem left_handler (going : p.ended = false) (left : p.Left count) {client : Nat}
    (moved : p.stepHandler geth web keyStore client = some q) : q.LeftBelow count := by
  obtain ⟨service, serve, clients, starts, serves, listed, bound⟩ := left
  rw [going] at bound
  -- a handler that leaves has at most one byte string to send
  have sends : ∀ request, (HandlerStage.leaving
      (handle geth web keyStore p.state request).submitted
      (handle geth web keyStore p.state request).reply).moves ≤ 3 := fun request => by
    have one := handle_sends geth web keyStore p.state request
    show 2 * _ + 1 ≤ 3
    omega
  refine handler_keeps moved ?enter ?approach ?answer ?take ?call ?send ?leave
  case enter =>
    intro handler found waiting _
    exact leftBelow_put starts listed bound found rfl rfl rfl serves
      (by rw [waiting]; show 6 + _ < 7 + _; omega)
  case approach =>
    intro handler found entered _
    exact leftBelow_put starts listed bound found rfl rfl rfl serves
      (by rw [entered]; show 5 + _ < 6 + _; omega)
  case answer =>
    rintro handler handled found entered - rfl
    have few := Nat.lt_of_le_of_lt (sends handler.request) (show 3 < 6 by decide)
    exact leftBelow_put starts listed bound found rfl rfl rfl serves
      (by rw [entered]; exact Nat.add_lt_add_right few serve)
  case take =>
    intro handler found waiting _
    exact leftBelow_put starts listed bound found rfl rfl rfl serves
      (by rw [waiting]; show 4 + _ < 5 + _; omega)
  case call =>
    rintro handler handled found calling rfl
    have few := Nat.lt_of_le_of_lt (sends handler.request) (show 3 < 4 by decide)
    exact leftBelow_put starts listed bound found rfl rfl rfl serves
      (by rw [calling]; exact Nat.add_lt_add_right few serve)
  case send =>
    intro handler tx unsent reply found leaving selecting
    refine leftBelow_put starts listed bound found rfl rfl rfl (Nat.le_refl 1) ?_
    rw [leaving]
    show 2 * unsent.length + 1 + 1 < 2 * (unsent.length + 1) + 1 + serve
    omega
  case leave =>
    intro handler response found leaving
    exact leftBelow_put starts listed bound found rfl rfl rfl serves
      (by rw [leaving]; show 0 + _ < 1 + _; omega)

/-- **Every step leaves less to do.** -/
theorem left_step (left : p.Left count) {worker : Worker}
    (moved : p.step geth web keyStore worker = some q) : q.LeftBelow count := by
  unfold step at moved
  split at moved
  · cases moved
  · next running =>
    have going : p.ended = false := Bool.eq_false_iff.mpr running
    cases worker with
    | service => exact left_service going left moved
    | serve => exact left_serve going left moved
    | handler client => exact left_handler going left moved

/-- What comes in adds a bounded amount of work. -/
theorem left_move (left : p.Left count) (move : PipelineMove) :
    ∃ more, (p.move geth web keyStore move).1.Left more := by
  cases move with
  | request client request =>
    show ∃ more, (p.request client request).Left more
    unfold Pipeline.request
    split
    · obtain ⟨service, serve, clients, starts, serves, listed, -⟩ := left
      refine ⟨_, service, serve, insert client clients, starts, serves, fun other present => ?_,
        Nat.le_refl _⟩
      by_cases here : other = client
      · rw [here]
        exact Finset.mem_insert_self _ _
      · change Function.update p.handlers client _ other ≠ none at present
        rw [Function.update_of_ne here] at present
        exact Finset.mem_insert_of_mem (listed other present)
    · exact ⟨count, left⟩
  | commitBlock block =>
    obtain ⟨service, serve, clients, starts, serves, listed, -⟩ := left
    exact ⟨_, service, serve, clients, starts, serves, listed, Nat.le_refl _⟩
  | work worker =>
    show ∃ more, ((p.step geth web keyStore worker).getD p).Left more
    cases moved : p.step geth web keyStore worker with
    | none => exact ⟨count, left⟩
    | some q =>
      obtain ⟨fewer, -, after⟩ := left_step left moved
      exact ⟨fewer, after⟩

theorem left_start (s : State World) (setup : Setup) :
    ∃ count, (Pipeline.start geth s setup).Left count :=
  ⟨_, _, 0, ∅, Nat.le_refl _, trivial, fun _ present => absurd rfl present, Nat.le_refl _⟩

end Steps

end Pipeline

/-! ### At rest -/

namespace Pipeline

section Settling

variable {geth : Geth World} {web : Web} {keyStore : KeyStore} {p q : Pipeline World}

/-- The requests that came in are still there, at whatever stage. -/
def KeepsRequests (p q : Pipeline World) : Prop :=
  ∀ client handler, p.handlers client = some handler →
    ∃ stage sent, q.handlers client = some ⟨handler.request, stage, sent⟩

theorem keepsRequests_put {client : Nat} {handler next : Handler}
    (found : p.handlers client = some handler)
    (handlers : q.handlers = Function.update p.handlers client (some next))
    (request : next.request = handler.request) : p.KeepsRequests q := by
  intro other before present
  rw [handlers]
  by_cases here : other = client
  · subst here
    obtain rfl := Option.some.inj (found.symm.trans present)
    exact ⟨next.stage, next.sent, by rw [Function.update_self, ← request]⟩
  · exact ⟨before.stage, before.sent, by rw [Function.update_of_ne here, present]⟩

theorem keepsRequests_step {worker : Worker} (moved : p.step geth web keyStore worker = some q) :
    p.KeepsRequests q := by
  have stays : ∀ other : Pipeline World, other.handlers = p.handlers → p.KeepsRequests other :=
    fun other same client handler present => ⟨handler.stage, handler.sent, by rw [same, present]⟩
  unfold step at moved
  split at moved
  · cases moved
  · cases worker with
    | service =>
      apply service_keeps moved
      all_goals
        intros
        exact stays _ rfl
    | serve =>
      apply serve_keeps moved
      all_goals
        intros
        exact stays _ rfl
    | handler client =>
      refine handler_keeps moved ?enter ?approach ?answer ?take ?call ?send ?leave
      case enter => exact fun _ found _ _ => keepsRequests_put found rfl rfl
      case approach => exact fun _ found _ _ => keepsRequests_put found rfl rfl
      case answer => exact fun _ _ found _ _ _ => keepsRequests_put found rfl rfl
      case take => exact fun _ found _ _ => keepsRequests_put found rfl rfl
      case call => exact fun _ _ found _ _ => keepsRequests_put found rfl rfl
      case send => exact fun _ _ _ _ found _ _ => keepsRequests_put found rfl rfl
      case leave => exact fun _ _ found _ => keepsRequests_put found rfl rfl

/-- How the process ended: on its key store, a password or its genesis file; in `CreateAccounts`; or by a
panic in `ProcessBlock`. -/
inductive EndedBy (p : Pipeline World) : Prop
  | exit (actions : List (Action Operation)) (service : p.service = .starting (.exit :: actions))
  | genesis (outcome : Outcome Hash) (came : p.genesis = some outcome)
      (failed : outcome.isOk = false)
  | panic (response : BlockResponse World) (serve : p.serve = .responding response)
      (panicked : response.outcome = .panic)

/-- If the process has ended, it was in one of these ways. -/
def EndsBy (p : Pipeline World) : Prop := p.ended = true → p.EndedBy

theorem endsBy_step {worker : Worker} (moved : p.step geth web keyStore worker = some q) :
    q.EndsBy := by
  unfold step at moved
  split at moved
  · cases moved
  · next running =>
    cases worker with
    | service =>
      refine service_keeps moved ?idle ?exit ?create ?work ?finish
      case idle => exact fun _ _ ended => absurd ended running
      case exit => exact fun actions starting _ => .exit actions starting
      case create => exact fun _ _ _ _ ended => absurd ended running
      case work => exact fun _ _ _ _ ended => absurd ended running
      case finish =>
        intro outcome actions _ failed
        exact .genesis outcome rfl (Bool.not_eq_true' _ ▸ failed)
    | serve =>
      refine serve_keeps moved ?receive ?submit ?take ?work ?finish ?respond
      case receive => exact fun _ _ _ _ ended => absurd ended running
      case submit => exact fun _ _ ended => absurd ended running
      case take => exact fun _ _ _ ended => absurd ended running
      case work => exact fun _ _ _ _ ended => absurd ended running
      case finish =>
        intro block outcome _ halted
        refine .panic _ rfl ?_
        cases outcome with
        | ok root => cases halted
        | error failure => cases halted
        | panic => rfl
      case respond => exact fun _ _ ended => absurd ended running
    | handler client =>
      apply handler_keeps moved
      all_goals
        intros
        exact fun ended => absurd ended running

/-- **The ways in which a process ends.** -/
theorem endsBy_move (ends : p.EndsBy) (move : PipelineMove) :
    (p.move geth web keyStore move).1.EndsBy := by
  have stays : ∀ other : Pipeline World, other.ended = p.ended → other.service = p.service →
      other.serve = p.serve → other.genesis = p.genesis → other.EndsBy := by
    intro other same service serve genesis ended
    rcases ends (same ▸ ended) with ⟨actions, found⟩ | ⟨outcome, found, failed⟩ |
      ⟨response, found, panicked⟩
    · exact .exit actions (service.trans found)
    · exact .genesis outcome (genesis.trans found) failed
    · exact .panic response (serve.trans found) panicked
  exact move_keeps ends (fun _ _ _ _ => stays _ rfl rfl rfl rfl) (fun _ => stays _ rfl rfl rfl rfl)
    fun _ _ _ moved => endsBy_step moved

variable (geth web keyStore) in
/-- What the turns of a schedule keep of the node they start from. -/
structure Follows (p q : Pipeline World) : Prop where
  locks : q.Locks
  ordered : q.Ordered geth web keyStore
  inbox : q.received ++ q.commitCh = p.received ++ p.commitCh
  requests : p.KeepsRequests q
  ends : q.EndsBy

theorem follows_step {r : Pipeline World} {worker : Worker} (follows : p.Follows geth web keyStore q)
    (moved : q.step geth web keyStore worker = some r) : p.Follows geth web keyStore r where
  locks := locks_step follows.locks moved
  ordered := ordered_step follows.ordered follows.locks moved
  inbox := ((grown_step moved).1.trans (List.append_nil _)).trans follows.inbox
  requests client handler present := by
    obtain ⟨stage, sent, found⟩ := follows.requests client handler present
    exact keepsRequests_step moved client ⟨handler.request, stage, sent⟩ found
  ends := endsBy_step moved

/-- Babble has its due: the service serves its API, the blocks responded to are those that had come, in
order, and what was submitted is what the handlers sent. -/
structure CaughtUp (p q : Pipeline World) : Prop where
  serving : q.service = .starting []
  responded : q.responded.map BlockResponse.block = p.received ++ p.commitCh
  submitted : q.submitted = q.held.flatMap q.sentBy

/-- Every request that had come in has its response. -/
def Answered (p q : Pipeline World) : Prop :=
  ∀ client handler, p.handlers client = some handler →
    ∃ response sent, q.handlers client = some ⟨handler.request, .finished response, sent⟩

/-- A handler that panicked keeps the service mutex. -/
def Panicked (q : Pipeline World) : Prop :=
  ∃ client handler, q.handlers client = some handler ∧ ¬ handler.stage.Quiet

/-- `Proxy.Serve` and `Service.Run` are never held up for good, whatever the handlers do. -/
theorem rest_idle (locks : q.Locks) (rest : AtRest (Pipeline.step geth web keyStore) q)
    (going : q.ended = false) : q.service = .starting [] ∧ q.commitCh = [] ∧ q.serve = .select := by
  have free : q.commitMutex = none := by
    cases owned : q.commitMutex with
    | none => rfl
    | some owner => exact absurd (rest owner) (owner_moves locks going owned)
  refine ⟨?_, ?_, ?_⟩
  · by_contra starting
    exact service_moves going starting (fun _ => free) (rest .service)
  · by_contra waiting
    exact serve_moves going (Or.inl waiting) (fun _ => free) (rest .serve)
  · by_contra busy
    exact serve_moves going (Or.inr busy) (fun _ => free) (rest .serve)

theorem rest_caughtUp (follows : p.Follows geth web keyStore q)
    (rest : AtRest (Pipeline.step geth web keyStore) q) (going : q.ended = false) :
    p.CaughtUp q := by
  obtain ⟨serving, empty, selecting⟩ := rest_idle follows.locks rest going
  constructor
  case serving => exact serving
  case responded =>
    have received := follows.ordered.received
    rw [selecting] at received
    rw [← follows.inbox, empty, List.append_nil, received]
    exact (List.append_nil _).symm
  case submitted =>
    have submitted := follows.ordered.submitted
    rw [selecting] at submitted
    exact (List.append_nil _).symm.trans submitted

/-- A node at rest of which no handler panicked has answered its requests. -/
theorem rest_answered (follows : p.Follows geth web keyStore q)
    (rest : AtRest (Pipeline.step geth web keyStore) q) (going : q.ended = false)
    (calm : ¬ q.Panicked) : p.Answered q := by
  have quiet : ∀ client handler, q.handlers client = some handler → handler.stage.Quiet :=
    fun client handler found => not_not.mp fun loud => calm ⟨client, handler, found, loud⟩
  intro client handler present
  obtain ⟨stage, sent, found⟩ := follows.requests client handler present
  have finished : Finished ⟨handler.request, stage, sent⟩ := by
    by_contra busy
    obtain ⟨worker, moves⟩ := progress follows.locks going quiet
      (Or.inr (Or.inl ⟨client, _, found, busy⟩) : q.Unfinished)
    exact moves (rest worker)
  obtain ⟨response, same⟩ := finished
  change stage = _ at same
  exact ⟨response, sent, by rw [found, same]⟩

end Settling

end Pipeline

/-! ### The small chain under a fair schedule -/

namespace Sample

/-- The goroutines by number. -/
def worker : Nat → Worker
  | 0 => .service
  | 1 => .serve
  | client + 2 => .handler client

theorem worker_surjective : Function.Surjective worker := fun turn =>
  match turn with
  | .service => ⟨0, rfl⟩
  | .serve => ⟨1, rfl⟩
  | .handler client => ⟨client + 2, rfl⟩

/-- A payment and two requests that come in while the service still starts. -/
def arrivals : List PipelineMove :=
  steps .service 6 ++ [.commitBlock payment, .request 0 (.tx (some transferBody)),
    .request 1 .getAccounts] ++ steps .serve 2

end Sample

end EvmBabble
