/-
The pipeline between the API, the proxy and babble (`proxy.go`, `service.go`).

A handler takes the service mutex, then either calls under `commitMutex` or sends on `submitCh`, and
gives the mutex back; `submitCh` has no buffer, so a send waits until `Proxy.Serve` selects it.
`Service.Run` creates the genesis accounts under `commitMutex` before it serves the API, and
`Proxy.Serve` takes it for every block. Any of them may move whenever it does not have to wait.

* `locks_move`, `ordered_move`, `ordered_after` — in every run, who holds a mutex is in its section,
  what was submitted is what the handlers sent, in the order in which they held the service mutex, and
  every block that was received is responded to once or is the one in progress.
* `progress` — a node that has not ended and has work left can move, if no handler panicked.
* `steady_move`, `pipeline_kept` — and each response is computed from the state left by the previous
  block, as long as no block comes before the genesis accounts, the pools serve the blocks, and no
  transaction reads what its context leaves out.
-/

import EvmBabble.Proxy.Startup
import EvmBabble.Service.Node
import EvmBabble.State.ReadOnly

namespace EvmBabble

open Library

variable {World : Type}

/-! ### The goroutines -/

/-- The goroutines of a node: each request has one of its own. -/
inductive Worker
  | service
  | serve
  | handler (client : Nat)
deriving DecidableEq

/-- Where a handler stands: before a mutex, inside, in `Call`, with its sends and its reply left, or
with the service mutex given back. -/
inductive HandlerStage
  | atLock
  | entered
  | atCommitLock
  | calling
  | leaving (unsent : List Bytes) (reply : Reply)
  | finished (response : Response)
deriving DecidableEq

structure Handler where
  request : ApiRequest
  stage : HandlerStage
  sent : List Bytes

/-- `Service.Run`: what it has to do before it serves the API, and `CreateAccounts` in progress. -/
inductive ServiceStage (World : Type)
  | starting (actions : List (Action Operation))
  | creating (body : Routine (State World) (Outcome Hash)) (actions : List (Action Operation))

/-- The response to a block, with the state that the block before it left. -/
structure BlockResponse (World : Type) where
  previous : State World
  block : Block
  outcome : Outcome Hash

/-- `Proxy.Serve`. -/
inductive ServeStage (World : Type)
  | select
  | submitting (tx : Bytes)
  | atCommitLock (block : Block)
  | processing (block : Block) (body : Routine (State World) (Outcome Hash))
  | responding (response : BlockResponse World)

/-- A node with its goroutines, its mutexes and channels, and what it has done: the handlers in the
order in which they took the service mutex, what was passed to `SubmitTx`, what `CreateAccounts` came to,
and the blocks received and responded to. `left` is the state the last block left, or the one the first block should find. -/
structure Pipeline (World : Type) where
  state : State World
  ended : Bool
  serviceMutex : Option Nat
  commitMutex : Option Worker
  service : ServiceStage World
  serve : ServeStage World
  handlers : Nat → Option Handler
  commitCh : List Block
  held : List Nat
  submitted : List Bytes
  genesis : Option (Outcome Hash)
  received : List Block
  responded : List (BlockResponse World)
  left : State World

inductive PipelineMove
  | request (client : Nat) (request : ApiRequest)
  | commitBlock (block : Block)
  | work (worker : Worker)

section Moves

variable (geth : Geth World) (web : Web) (keyStore : KeyStore)

/-- A node that starts. -/
def Pipeline.start (s : State World) (setup : Setup) : Pipeline World where
  state := s
  ended := false
  serviceMutex := none
  commitMutex := none
  service := .starting setup.serviceRun
  serve := .select
  handlers _ := none
  commitCh := []
  held := []
  submitted := []
  genesis := none
  received := []
  responded := []
  left := (setup.first geth s).getD s

/-- The request runs a message: its handler takes `commitMutex`. -/
def ApiRequest.calls : ApiRequest → Bool
  | .call body => (body.bind web.decodeArgs).isSome
  | .getAccount _ => false
  | .getAccounts => false
  | .tx _ => false
  | .rawtx _ => false
  | .getTx _ => false

namespace Pipeline

variable (p : Pipeline World)

def put (client : Nat) (handler : Handler) : Pipeline World :=
  { p with handlers := Function.update p.handlers client (some handler) }

/-- A step of `Service.Run`. -/
def stepService : Option (Pipeline World) :=
  match p.service with
  | .starting [] => none
  | .starting (.idle :: actions) => some { p with service := .starting actions }
  | .starting (.exit :: _) => some { p with ended := true }
  | .starting (.locked operation :: actions) =>
    match p.commitMutex with
    | some _ => none
    | none =>
      some { p with
        commitMutex := some .service, service := .creating (operationRoutine geth operation) actions }
  | .creating (.step effect next) actions =>
    some { p with state := effect p.state, service := .creating (next p.state) actions }
  | .creating (.done outcome) actions =>
    some { p with
      commitMutex := none
      service := .starting actions
      genesis := some outcome
      ended := !outcome.isOk }

/-- A step of `Proxy.Serve`; it receives a submission in the step of the handler that sends it. -/
def stepServe : Option (Pipeline World) :=
  match p.serve with
  | .select =>
    match p.commitCh with
    | [] => none
    | block :: rest =>
      some { p with commitCh := rest, received := p.received ++ [block], serve := .atCommitLock block }
  | .submitting tx => some { p with submitted := p.submitted ++ [tx], serve := .select }
  | .atCommitLock block =>
    match p.commitMutex with
    | some _ => none
    | none =>
      some { p with
        commitMutex := some .serve
        serve := .processing block (operationRoutine geth (.processBlock block)) }
  | .processing block (.step effect next) =>
    some { p with state := effect p.state, serve := .processing block (next p.state) }
  | .processing block (.done outcome) =>
    some { p with
      commitMutex := none
      serve := .responding ⟨p.left, block, outcome⟩
      left := p.state
      ended := halts .serve outcome }
  | .responding response => some { p with responded := p.responded ++ [response], serve := .select }

/-- A step of a handler: a send needs `Proxy.Serve` at its `select`. -/
def stepHandler (client : Nat) : Option (Pipeline World) :=
  match p.handlers client with
  | none => none
  | some handler =>
    let handled := handle geth web keyStore p.state handler.request
    match handler.stage with
    | .atLock =>
      match p.serviceMutex with
      | some _ => none
      | none =>
        some (put { p with serviceMutex := some client, held := p.held ++ [client] } client
          { handler with stage := .entered })
    | .entered =>
      if handler.request.calls web then some (p.put client { handler with stage := .atCommitLock })
      else
        some (put { p with state := handled.state } client
          { handler with stage := .leaving handled.submitted handled.reply })
    | .atCommitLock =>
      match p.commitMutex with
      | some _ => none
      | none =>
        some (put { p with commitMutex := some (.handler client) } client
          { handler with stage := .calling })
    | .calling =>
      some (put { p with state := handled.state, commitMutex := none } client
        { handler with stage := .leaving handled.submitted handled.reply })
    | .leaving (tx :: unsent) reply =>
      match p.serve with
      | .select =>
        some (put { p with serve := .submitting tx } client
          { handler with stage := .leaving unsent reply, sent := handler.sent ++ [tx] })
      | _ => none
    | .leaving [] (.response response) =>
      some (put { p with serviceMutex := none } client { handler with stage := .finished response })
    -- a panic goes past `Unlock`
    | .leaving [] .panic => none
    | .finished _ => none

/-- A step of a goroutine; there is none if it has to wait or has nothing to do. -/
def step (worker : Worker) : Option (Pipeline World) :=
  if p.ended then none
  else match worker with
    | .service => p.stepService geth
    | .serve => p.stepServe geth
    | .handler client => p.stepHandler geth web keyStore client

/-- A request that comes in: the API is served after the rest of `Service.Run`. -/
def request (client : Nat) (request : ApiRequest) : Pipeline World :=
  match p.service, p.handlers client with
  | .starting [], none => p.put client ⟨request, .atLock, []⟩
  | _, _ => p

/-- A move; one that has to wait changes nothing. -/
def move : PipelineMove → Pipeline World × Unit
  | .request client request => (p.request client request, ())
  | .commitBlock block => ({ p with commitCh := p.commitCh ++ [block] }, ())
  | .work worker => ((p.step geth web keyStore worker).getD p, ())

end Pipeline

end Moves

/-! ### What a step can do -/

namespace Pipeline

section Steps

variable {geth : Geth World} {web : Web} {keyStore : KeyStore} {p q : Pipeline World}
  {kept : Pipeline World → Prop}

/-- What a step of `Service.Run` does: it goes on, ends the node, or is in `CreateAccounts`. -/
theorem service_keeps (moved : p.stepService geth = some q)
    (idle : ∀ actions, p.service = .starting (.idle :: actions) →
      kept { p with service := .starting actions })
    (exit : ∀ actions, p.service = .starting (.exit :: actions) → kept { p with ended := true })
    (create : ∀ operation actions, p.service = .starting (.locked operation :: actions) →
      p.commitMutex = none → kept { p with
        commitMutex := some .service, service := .creating (operationRoutine geth operation) actions })
    (work : ∀ effect next actions, p.service = .creating (.step effect next) actions →
      kept { p with state := effect p.state, service := .creating (next p.state) actions })
    (finish : ∀ outcome actions, p.service = .creating (.done outcome) actions →
      kept { p with
        commitMutex := none
        service := .starting actions
        genesis := some outcome
        ended := !outcome.isOk }) : kept q := by
  unfold stepService at moved
  split at moved
  · cases moved
  · next actions starting =>
    cases moved
    exact idle actions starting
  · next actions starting =>
    cases moved
    exact exit actions starting
  · next operation actions starting =>
    split at moved
    · cases moved
    · next free =>
      cases moved
      exact create operation actions starting free
  · next effect next actions creating =>
    cases moved
    exact work effect next actions creating
  · next outcome actions creating =>
    cases moved
    exact finish outcome actions creating

/-- What a step of `Proxy.Serve` does: it receives a block or passes on a submission, is in
`ProcessBlock`, or responds. -/
theorem serve_keeps (moved : p.stepServe geth = some q)
    (receive : ∀ block rest, p.serve = .select → p.commitCh = block :: rest →
      kept { p with
        commitCh := rest, received := p.received ++ [block], serve := .atCommitLock block })
    (submit : ∀ tx, p.serve = .submitting tx →
      kept { p with submitted := p.submitted ++ [tx], serve := .select })
    (take : ∀ block, p.serve = .atCommitLock block → p.commitMutex = none → kept { p with
      commitMutex := some .serve
      serve := .processing block (operationRoutine geth (.processBlock block)) })
    (work : ∀ block effect next, p.serve = .processing block (.step effect next) →
      kept { p with state := effect p.state, serve := .processing block (next p.state) })
    (finish : ∀ block outcome, p.serve = .processing block (.done outcome) → kept { p with
      commitMutex := none
      serve := .responding ⟨p.left, block, outcome⟩
      left := p.state
      ended := halts .serve outcome })
    (respond : ∀ response, p.serve = .responding response →
      kept { p with responded := p.responded ++ [response], serve := .select }) : kept q := by
  unfold stepServe at moved
  split at moved
  · next selecting =>
    split at moved
    · cases moved
    · next block rest offered =>
      cases moved
      exact receive block rest selecting offered
  · next tx submitting =>
    cases moved
    exact submit tx submitting
  · next block waiting =>
    split at moved
    · cases moved
    · next free =>
      cases moved
      exact take block waiting free
  · next block effect next processing =>
    cases moved
    exact work block effect next processing
  · next block outcome processing =>
    cases moved
    exact finish block outcome processing
  · next response responding =>
    cases moved
    exact respond response responding

/-- What a step of a handler does: it takes the service mutex, goes to `commitMutex` or handles its
request, takes `commitMutex`, calls, sends, or gives the service mutex back. -/
theorem handler_keeps {client : Nat} (moved : p.stepHandler geth web keyStore client = some q)
    (enter : ∀ handler, p.handlers client = some handler → handler.stage = .atLock →
      p.serviceMutex = none →
        kept (put { p with serviceMutex := some client, held := p.held ++ [client] } client
          { handler with stage := .entered }))
    (approach : ∀ handler, p.handlers client = some handler → handler.stage = .entered →
      handler.request.calls web = true → kept (p.put client { handler with stage := .atCommitLock }))
    (answer : ∀ handler handled, p.handlers client = some handler → handler.stage = .entered →
      handler.request.calls web = false → handled = handle geth web keyStore p.state handler.request →
        kept (put { p with state := handled.state } client
          { handler with stage := .leaving handled.submitted handled.reply }))
    (take : ∀ handler, p.handlers client = some handler → handler.stage = .atCommitLock →
      p.commitMutex = none → kept (put { p with commitMutex := some (.handler client) } client
        { handler with stage := .calling }))
    (call : ∀ handler handled, p.handlers client = some handler → handler.stage = .calling →
      handled = handle geth web keyStore p.state handler.request →
        kept (put { p with state := handled.state, commitMutex := none } client
          { handler with stage := .leaving handled.submitted handled.reply }))
    (send : ∀ handler tx unsent reply, p.handlers client = some handler →
      handler.stage = .leaving (tx :: unsent) reply → p.serve = .select →
        kept (put { p with serve := .submitting tx } client
          { handler with stage := .leaving unsent reply, sent := handler.sent ++ [tx] }))
    (leave : ∀ handler response, p.handlers client = some handler →
      handler.stage = .leaving [] (.response response) →
        kept (put { p with serviceMutex := none } client
          { handler with stage := .finished response })) : kept q := by
  unfold stepHandler at moved
  cases found : p.handlers client with
  | none =>
    rw [found] at moved
    cases moved
  | some handler =>
    rw [found] at moved
    dsimp only at moved
    split at moved
    · next waiting =>
      split at moved
      · cases moved
      · next free =>
        cases moved
        exact enter handler found waiting free
    · next entered =>
      split at moved
      · next calls =>
        cases moved
        exact approach handler found entered calls
      · next idle =>
        cases moved
        exact answer handler _ found entered (Bool.eq_false_iff.mpr idle) rfl
    · next waiting =>
      split at moved
      · cases moved
      · next free =>
        cases moved
        exact take handler found waiting free
    · next calling =>
      cases moved
      exact call handler _ found calling rfl
    · next tx unsent reply leaving =>
      split at moved
      · next selecting =>
        cases moved
        exact send handler tx unsent reply found leaving selecting
      · cases moved
    · next response leaving =>
      cases moved
      exact leave handler response found leaving
    · cases moved
    · cases moved

/-- What a move does: a request comes in, a block does, a goroutine moves, or nothing happens. -/
theorem move_keeps {move : PipelineMove} (here : kept p)
    (requested : ∀ client request, p.service = .starting [] → p.handlers client = none →
      kept (p.put client ⟨request, .atLock, []⟩))
    (committed : ∀ block, kept { p with commitCh := p.commitCh ++ [block] })
    (stepped : ∀ worker q, move = .work worker → p.step geth web keyStore worker = some q → kept q) :
    kept (p.move geth web keyStore move).1 := by
  cases move with
  | request client request =>
    show kept (p.request client request)
    unfold Pipeline.request
    split
    · next serving absent => exact requested client request serving absent
    · exact here
  | commitBlock block => exact committed block
  | work worker =>
    show kept ((p.step geth web keyStore worker).getD p)
    cases moved : p.step geth web keyStore worker with
    | none => exact here
    | some q => exact stepped worker q rfl moved

end Steps

end Pipeline

/-! ### The mutexes -/

def HandlerStage.inside : HandlerStage → Bool
  | .atLock => false
  | .entered => true
  | .atCommitLock => true
  | .calling => true
  | .leaving _ _ => true
  | .finished _ => false

def HandlerStage.calls : HandlerStage → Bool
  | .atLock => false
  | .entered => false
  | .atCommitLock => false
  | .calling => true
  | .leaving _ _ => false
  | .finished _ => false

def ServiceStage.creates : ServiceStage World → Bool
  | .starting _ => false
  | .creating _ _ => true

def ServeStage.processes : ServeStage World → Bool
  | .select => false
  | .submitting _ => false
  | .atCommitLock _ => false
  | .processing _ _ => true
  | .responding _ => false

namespace Pipeline

section Mutexes

variable (p : Pipeline World)

/-- The handler is between the two ends of `makeHandler`. -/
def inside (client : Nat) : Bool := (p.handlers client).any fun handler => handler.stage.inside

/-- The goroutine is in a section of `commitMutex`. -/
def inSection : Worker → Bool
  | .service => p.service.creates
  | .serve => p.serve.processes
  | .handler client => (p.handlers client).any fun handler => handler.stage.calls

/-- Each mutex is held by the one that is inside. -/
structure Locks : Prop where
  service : Guards p.serviceMutex p.inside
  commit : Guards p.commitMutex p.inSection

variable {p} {q : Pipeline World}

theorem inside_put {client : Nat} {handler : Handler}
    (handlers : q.handlers = Function.update p.handlers client (some handler)) :
    q.inside = Function.update p.inside client handler.stage.inside := by
  funext other
  by_cases same : other = client
  · subst same
    simp [inside, handlers]
  · simp [inside, handlers, Function.update_of_ne same]

theorem inSection_put {client : Nat} {handler : Handler} (service : q.service = p.service)
    (serve : q.serve.processes = p.serve.processes)
    (handlers : q.handlers = Function.update p.handlers client (some handler)) :
    q.inSection = Function.update p.inSection (.handler client) handler.stage.calls := by
  funext worker
  cases worker with
  | service => simp [inSection, service]
  | serve => simp [inSection, serve]
  | handler other =>
    by_cases same : other = client
    · subst same
      simp [inSection, handlers]
    · have apart : Worker.handler other ≠ .handler client := fun found =>
        same (Worker.handler.inj found)
      simp [inSection, handlers, Function.update_of_ne same, Function.update_of_ne apart]

variable (p) in
/-- A step that moves a handler. -/
theorem Locks.of_handler {client : Nat} {handler : Handler} (service : q.service = p.service)
    (serve : q.serve.processes = p.serve.processes)
    (handlers : q.handlers = Function.update p.handlers client (some handler))
    (outer : Guards q.serviceMutex (Function.update p.inside client handler.stage.inside))
    (inner : Guards q.commitMutex
      (Function.update p.inSection (.handler client) handler.stage.calls)) : q.Locks :=
  ⟨by rwa [inside_put handlers], by rwa [inSection_put service serve handlers]⟩

/-- A step that moves `Service.Run`. -/
theorem Locks.of_service (locks : p.Locks) (mutex : q.serviceMutex = p.serviceMutex)
    (serve : q.serve = p.serve) (handlers : q.handlers = p.handlers)
    (inner : Guards q.commitMutex (Function.update p.inSection .service q.service.creates)) :
    q.Locks := by
  have outer : q.inside = p.inside := by
    funext client
    rw [inside, inside, handlers]
  have within : q.inSection = Function.update p.inSection .service q.service.creates := by
    funext worker
    cases worker <;> simp [inSection, serve, handlers]
  exact ⟨by rw [mutex, outer]; exact locks.service, by rwa [within]⟩

/-- A step that moves `Proxy.Serve`. -/
theorem Locks.of_serve (locks : p.Locks) (mutex : q.serviceMutex = p.serviceMutex)
    (service : q.service = p.service) (handlers : q.handlers = p.handlers)
    (inner : Guards q.commitMutex (Function.update p.inSection .serve q.serve.processes)) :
    q.Locks := by
  have outer : q.inside = p.inside := by
    funext client
    rw [inside, inside, handlers]
  have within : q.inSection = Function.update p.inSection .serve q.serve.processes := by
    funext worker
    cases worker <;> simp [inSection, service, handlers]
  exact ⟨by rw [mutex, outer]; exact locks.service, by rwa [within]⟩

theorem inside_handler {client : Nat} {handler : Handler}
    (found : p.handlers client = some handler) : p.inside client = handler.stage.inside := by
  simp [inside, found]

theorem inSection_handler {client : Nat} {handler : Handler}
    (found : p.handlers client = some handler) :
    p.inSection (.handler client) = handler.stage.calls := by
  simp [inSection, found]

end Mutexes

section LockSteps

variable {geth : Geth World} {web : Web} {keyStore : KeyStore} {p q : Pipeline World}

theorem locks_service (locks : p.Locks) (moved : p.stepService geth = some q) : q.Locks := by
  have here : p.inSection .service = p.service.creates := rfl
  refine service_keeps moved ?idle ?exit ?create ?work ?finish
  case idle =>
    intro actions starting
    rw [starting] at here
    exact locks.of_service rfl rfl rfl (guards_stay locks.commit here)
  case exit => exact fun _ _ => ⟨locks.service, locks.commit⟩
  case create =>
    intro operation actions starting free
    have unowned := locks.commit
    rw [free] at unowned
    exact locks.of_service rfl rfl rfl (guards_acquire unowned)
  case work =>
    intro effect next actions creating
    rw [creating] at here
    exact locks.of_service rfl rfl rfl (guards_stay locks.commit here)
  case finish =>
    intro outcome actions creating
    rw [creating] at here
    exact locks.of_service rfl rfl rfl (guards_release locks.commit here)

theorem locks_serve (locks : p.Locks) (moved : p.stepServe geth = some q) : q.Locks := by
  have here : p.inSection .serve = p.serve.processes := rfl
  refine serve_keeps moved ?receive ?submit ?take ?work ?finish ?respond
  case receive =>
    intro block rest selecting _
    rw [selecting] at here
    exact locks.of_serve rfl rfl rfl (guards_stay locks.commit here)
  case submit =>
    intro tx submitting
    rw [submitting] at here
    exact locks.of_serve rfl rfl rfl (guards_stay locks.commit here)
  case take =>
    intro block waiting free
    have unowned := locks.commit
    rw [free] at unowned
    exact locks.of_serve rfl rfl rfl (guards_acquire unowned)
  case work =>
    intro block effect next processing
    rw [processing] at here
    exact locks.of_serve rfl rfl rfl (guards_stay locks.commit here)
  case finish =>
    intro block outcome processing
    rw [processing] at here
    exact locks.of_serve rfl rfl rfl (guards_release locks.commit here)
  case respond =>
    intro response responding
    rw [responding] at here
    exact locks.of_serve rfl rfl rfl (guards_stay locks.commit here)

theorem locks_handler (locks : p.Locks) {client : Nat}
    (moved : p.stepHandler geth web keyStore client = some q) : q.Locks := by
  refine handler_keeps moved ?enter ?approach ?answer ?take ?call ?send ?leave
  case enter =>
    intro handler found waiting free
    have inner := inSection_handler found
    have unowned := locks.service
    rw [free] at unowned
    rw [waiting] at inner
    exact .of_handler p rfl rfl rfl (guards_acquire unowned) (guards_stay locks.commit inner)
  case approach =>
    intro handler found entered _
    have outer := inside_handler found
    have inner := inSection_handler found
    rw [entered] at outer inner
    exact .of_handler p rfl rfl rfl (guards_stay locks.service outer) (guards_stay locks.commit inner)
  case answer =>
    intro handler handled found entered _ _
    have outer := inside_handler found
    have inner := inSection_handler found
    rw [entered] at outer inner
    exact .of_handler p rfl rfl rfl (guards_stay locks.service outer) (guards_stay locks.commit inner)
  case take =>
    intro handler found waiting free
    have outer := inside_handler found
    have unowned := locks.commit
    rw [free] at unowned
    rw [waiting] at outer
    exact .of_handler p rfl rfl rfl (guards_stay locks.service outer) (guards_acquire unowned)
  case call =>
    intro handler handled found calling _
    have outer := inside_handler found
    have inner := inSection_handler found
    rw [calling] at outer inner
    exact .of_handler p rfl rfl rfl (guards_stay locks.service outer)
      (guards_release locks.commit inner)
  case send =>
    intro handler tx unsent reply found leaving selecting
    have outer := inside_handler found
    have inner := inSection_handler found
    rw [leaving] at outer inner
    have serve : p.serve.processes = false := by rw [selecting]; rfl
    exact .of_handler p rfl serve.symm rfl (guards_stay locks.service outer)
      (guards_stay locks.commit inner)
  case leave =>
    intro handler response found leaving
    have outer := inside_handler found
    have inner := inSection_handler found
    rw [leaving] at outer inner
    exact .of_handler p rfl rfl rfl (guards_release locks.service outer)
      (guards_stay locks.commit inner)

theorem locks_step (locks : p.Locks) {worker : Worker}
    (moved : p.step geth web keyStore worker = some q) : q.Locks := by
  unfold step at moved
  split at moved
  · cases moved
  · cases worker with
    | service => exact locks_service locks moved
    | serve => exact locks_serve locks moved
    | handler client => exact locks_handler locks moved

/-- **Every move keeps who holds a mutex inside it.** -/
theorem locks_move (locks : p.Locks) (move : PipelineMove) :
    (p.move geth web keyStore move).1.Locks := by
  refine move_keeps locks (fun client request _ absent => ?_)
    (fun block => ⟨locks.service, locks.commit⟩) (fun worker q _ moved => locks_step locks moved)
  have outer : p.inside client = false := by simp [inside, absent]
  have inner : p.inSection (.handler client) = false := by simp [inSection, absent]
  exact .of_handler p rfl rfl rfl (guards_stay locks.service outer) (guards_stay locks.commit inner)

end LockSteps

/-! ### What was submitted and responded to -/

end Pipeline

/-- What `Proxy.Serve` has received and not yet passed to `SubmitTx`. -/
def ServeStage.transit : ServeStage World → List Bytes
  | .select => []
  | .submitting tx => [tx]
  | .atCommitLock _ => []
  | .processing _ _ => []
  | .responding _ => []

/-- The block `Proxy.Serve` has received and not yet responded to. -/
def ServeStage.current : ServeStage World → List Block
  | .select => []
  | .submitting _ => []
  | .atCommitLock block => [block]
  | .processing block _ => [block]
  | .responding response => [response.block]

section Honesty

variable (geth : Geth World) (web : Web) (keyStore : KeyStore)

/-- What a handler has sent and has still to send is what its function submits, in the state in which
it was run; before, nothing is sent. -/
def Handler.Honest (handler : Handler) : Prop :=
  match handler.stage with
  | .atLock => handler.sent = []
  | .entered => handler.sent = []
  | .atCommitLock => handler.sent = []
  | .calling => handler.sent = []
  | .leaving unsent reply => ∃ s, handler.sent ++ unsent =
      (handle geth web keyStore s handler.request).submitted ∧
        reply = (handle geth web keyStore s handler.request).reply
  | .finished response => ∃ s, handler.sent =
      (handle geth web keyStore s handler.request).submitted ∧
        .response response = (handle geth web keyStore s handler.request).reply

end Honesty

def HandlerStage.waits : HandlerStage → Bool
  | .atLock => true
  | .entered => false
  | .atCommitLock => false
  | .calling => false
  | .leaving _ _ => false
  | .finished _ => false

namespace Pipeline

section Order

variable (geth : Geth World) (web : Web) (keyStore : KeyStore) (p : Pipeline World)

def sentBy (client : Nat) : List Bytes :=
  match p.handlers client with
  | none => []
  | some handler => handler.sent

/-- What was submitted is what the handlers sent, in the order in which they held the service mutex,
and the blocks received are those responded to and the one in progress. -/
structure Ordered : Prop where
  submitted : p.submitted ++ p.serve.transit = p.held.flatMap p.sentBy
  received : p.received = p.responded.map BlockResponse.block ++ p.serve.current
  once : p.held.Nodup
  entered : ∀ client, client ∈ p.held ↔
    ∃ handler, p.handlers client = some handler ∧ handler.stage.waits = false
  last : ∀ client, p.serviceMutex = some client → ∃ front, p.held = front ++ [client]
  honest : ∀ client handler, p.handlers client = some handler → handler.Honest geth web keyStore

variable {p}

theorem sentBy_found {client : Nat} {handler : Handler} (found : p.handlers client = some handler) :
    p.sentBy client = handler.sent := by
  rw [sentBy, found]

theorem sentBy_put {q : Pipeline World} {client : Nat} {handler : Handler}
    (handlers : q.handlers = Function.update p.handlers client (some handler)) :
    q.sentBy = Function.update p.sentBy client handler.sent := by
  funext other
  by_cases same : other = client
  · subst same
    simp [sentBy, handlers]
  · simp [sentBy, handlers, Function.update_of_ne same]

/-- Every handler, after one of them has moved. -/
theorem forall_put {shown : Nat → Handler → Prop} {client : Nat} {handler : Handler}
    (rest : ∀ other found, p.handlers other = some found → shown other found)
    (here : shown client handler) :
    ∀ other found, Function.update p.handlers client (some handler) other = some found →
      shown other found := by
  intro other found placed
  by_cases same : other = client
  · subst same
    rw [Function.update_self] at placed
    cases placed
    exact here
  · rw [Function.update_of_ne same] at placed
    exact rest other found placed

end Order

section OrderSteps

variable {geth : Geth World} {web : Web} {keyStore : KeyStore} {p q : Pipeline World}

theorem ordered_service (ordered : p.Ordered geth web keyStore)
    (moved : p.stepService geth = some q) : q.Ordered geth web keyStore := by
  obtain ⟨submitted, received, once, entered, last, honest⟩ := ordered
  refine service_keeps moved ?idle ?exit ?create ?work ?finish
  all_goals
    intros
    exact ⟨submitted, received, once, entered, last, honest⟩

theorem ordered_serve (ordered : p.Ordered geth web keyStore) (moved : p.stepServe geth = some q) :
    q.Ordered geth web keyStore := by
  obtain ⟨submitted, received, once, entered, last, honest⟩ := ordered
  refine serve_keeps moved ?receive ?submit ?take ?work ?finish ?respond
  case receive =>
    intro block rest selecting _
    rw [selecting] at submitted received
    refine ⟨submitted, ?_, once, entered, last, honest⟩
    rw [received]
    exact congrArg (· ++ _) (List.append_nil _)
  case submit =>
    intro tx submitting
    rw [submitting] at submitted received
    exact ⟨(List.append_nil _).trans submitted, received, once, entered, last, honest⟩
  case take =>
    intro block waiting _
    rw [waiting] at submitted received
    exact ⟨submitted, received, once, entered, last, honest⟩
  case work =>
    intro block effect next processing
    rw [processing] at submitted received
    exact ⟨submitted, received, once, entered, last, honest⟩
  case finish =>
    intro block outcome processing
    rw [processing] at submitted received
    exact ⟨submitted, received, once, entered, last, honest⟩
  case respond =>
    intro response responding
    rw [responding] at submitted received
    refine ⟨submitted, ?_, once, entered, last, honest⟩
    rw [List.map_append, received]
    exact (List.append_nil _).symm

/-- A handler that has entered and neither takes the service mutex nor sends. -/
theorem ordered_stay (ordered : p.Ordered geth web keyStore) {client : Nat}
    {handler next : Handler} {state : State World} {commitMutex : Option Worker}
    {serviceMutex : Option Nat} (found : p.handlers client = some handler)
    (inside : handler.stage.waits = false) (moves : next.stage.waits = false)
    (sent : next.sent = handler.sent) (honest : next.Honest geth web keyStore)
    (mutex : serviceMutex = p.serviceMutex ∨ serviceMutex = none) :
    (put { p with state, commitMutex, serviceMutex } client next).Ordered geth web keyStore where
  submitted := by
    have same : (put { p with state, commitMutex, serviceMutex } client next).sentBy = p.sentBy := by
      rw [sentBy_put (p := p) rfl, sent, ← sentBy_found found, Function.update_eq_self]
    rw [same]
    exact ordered.submitted
  received := ordered.received
  once := ordered.once
  entered other := by
    show other ∈ p.held ↔ _
    rw [ordered.entered]
    by_cases same : other = client
    · subst same
      simp [put, found, inside, moves]
    · simp [put, Function.update_of_ne same]
  last other owner := by
    rcases mutex with same | free
    · rw [same] at owner
      exact ordered.last other owner
    · rw [free] at owner
      cases owner
  honest := forall_put ordered.honest honest

/-- A handler that takes the service mutex is the last one that did, and has sent nothing. -/
theorem ordered_enter (ordered : p.Ordered geth web keyStore) {client : Nat} {handler : Handler}
    (found : p.handlers client = some handler) (waits : handler.stage = .atLock) :
    (put { p with serviceMutex := some client, held := p.held ++ [client] } client
      { handler with stage := .entered }).Ordered geth web keyStore := by
  have silent := ordered.honest client handler found
  rw [Handler.Honest, waits] at silent
  have outside : client ∉ p.held := by
    rw [ordered.entered]
    rintro ⟨other, same, entered⟩
    rw [found] at same
    cases same
    rw [waits] at entered
    cases entered
  constructor
  case submitted =>
    have same : (put { p with serviceMutex := some client, held := p.held ++ [client] } client
        { handler with stage := .entered }).sentBy = p.sentBy := by
      rw [sentBy_put (p := p) rfl, ← sentBy_found found, Function.update_eq_self]
    rw [same]
    show p.submitted ++ p.serve.transit = (p.held ++ [client]).flatMap p.sentBy
    rw [List.flatMap_append, ordered.submitted, List.flatMap_singleton, sentBy_found found, silent,
      List.append_nil]
  case received => exact ordered.received
  case once => exact List.nodup_append_comm.mp (List.nodup_cons.mpr ⟨outside, ordered.once⟩)
  case entered =>
    intro other
    show other ∈ p.held ++ [client] ↔ _
    rw [List.mem_append, ordered.entered]
    by_cases same : other = client
    · subst same
      simp [put, HandlerStage.waits]
    · simp [put, same]
  case last =>
    intro other owner
    cases owner
    exact ⟨p.held, rfl⟩
  case honest => exact forall_put ordered.honest silent

/-- What a handler sends comes after everything that was sent before. -/
theorem ordered_send (ordered : p.Ordered geth web keyStore) (locks : p.Locks) {client : Nat}
    {handler : Handler} {tx : Bytes} {unsent : List Bytes} {reply : Reply}
    (found : p.handlers client = some handler) (leaving : handler.stage = .leaving (tx :: unsent) reply)
    (selecting : p.serve = .select) :
    (put { p with serve := .submitting tx } client
      { handler with stage := .leaving unsent reply, sent := handler.sent ++ [tx] }).Ordered
        geth web keyStore := by
  have inside : p.inside client = true := by rw [inside_handler found, leaving]; rfl
  obtain ⟨front, held⟩ := ordered.last client ((locks.service client).mpr inside)
  have once := ordered.once
  rw [held, List.nodup_append_comm] at once
  have earlier : client ∉ front := (List.nodup_cons.mp once).1
  have sent := ordered.submitted
  rw [selecting, held, List.flatMap_append, List.flatMap_singleton, sentBy_found found] at sent
  constructor
  case submitted =>
    rw [sentBy_put (p := p) rfl]
    show p.submitted ++ [tx] = p.held.flatMap (Function.update p.sentBy client (handler.sent ++ [tx]))
    have before : front.flatMap (Function.update p.sentBy client (handler.sent ++ [tx])) =
        front.flatMap p.sentBy := List.flatMap_congr fun other member => by
      have apart : other ≠ client := fun same => earlier (by rwa [same] at member)
      rw [Function.update_of_ne apart]
    rw [held, List.flatMap_append, List.flatMap_singleton, before, Function.update_self,
      ← List.append_assoc, ← sent]
    exact congrArg (· ++ [tx]) (List.append_nil _).symm
  case received =>
    have received := ordered.received
    rw [selecting] at received
    exact received
  case once => exact ordered.once
  case entered =>
    intro other
    show other ∈ p.held ↔ _
    rw [ordered.entered]
    by_cases same : other = client
    · subst same
      simp [put, found, leaving, HandlerStage.waits]
    · simp [put, Function.update_of_ne same]
  case last => exact ordered.last
  case honest =>
    refine forall_put ordered.honest ?_
    have honest := ordered.honest client handler found
    rw [Handler.Honest, leaving] at honest
    obtain ⟨s, submitted, replied⟩ := honest
    exact ⟨s, by rw [List.append_assoc]; exact submitted, replied⟩

theorem ordered_handler (ordered : p.Ordered geth web keyStore) (locks : p.Locks) {client : Nat}
    (moved : p.stepHandler geth web keyStore client = some q) : q.Ordered geth web keyStore := by
  refine handler_keeps moved ?enter ?approach ?answer ?take ?call ?send ?leave
  case enter => exact fun handler found waiting _ => ordered_enter ordered found waiting
  case approach =>
    intro handler found entered _
    have honest := ordered.honest client handler found
    rw [Handler.Honest, entered] at honest
    exact ordered_stay ordered found (by rw [entered]; rfl) rfl rfl honest (Or.inl rfl)
  case answer =>
    rintro handler handled found entered - rfl
    have honest := ordered.honest client handler found
    rw [Handler.Honest, entered] at honest
    exact ordered_stay ordered found (by rw [entered]; rfl) rfl rfl
      ⟨p.state, by rw [honest]; rfl, rfl⟩ (Or.inl rfl)
  case take =>
    intro handler found waiting _
    have honest := ordered.honest client handler found
    rw [Handler.Honest, waiting] at honest
    exact ordered_stay ordered found (by rw [waiting]; rfl) rfl rfl honest (Or.inl rfl)
  case call =>
    rintro handler handled found calling rfl
    have honest := ordered.honest client handler found
    rw [Handler.Honest, calling] at honest
    exact ordered_stay ordered found (by rw [calling]; rfl) rfl rfl
      ⟨p.state, by rw [honest]; rfl, rfl⟩ (Or.inl rfl)
  case send =>
    intro handler tx unsent reply found leaving selecting
    exact ordered_send ordered locks found leaving selecting
  case leave =>
    intro handler response found leaving
    have honest := ordered.honest client handler found
    rw [Handler.Honest, leaving] at honest
    obtain ⟨s, submitted, replied⟩ := honest
    exact ordered_stay ordered found (by rw [leaving]; rfl) rfl rfl
      ⟨s, (List.append_nil _).symm.trans submitted, replied⟩ (Or.inr rfl)

theorem ordered_step (ordered : p.Ordered geth web keyStore) (locks : p.Locks) {worker : Worker}
    (moved : p.step geth web keyStore worker = some q) : q.Ordered geth web keyStore := by
  unfold step at moved
  split at moved
  · cases moved
  · cases worker with
    | service => exact ordered_service ordered moved
    | serve => exact ordered_serve ordered moved
    | handler client => exact ordered_handler ordered locks moved

/-- **Every move keeps the order.** -/
theorem ordered_move (ordered : p.Ordered geth web keyStore) (locks : p.Locks)
    (move : PipelineMove) : (p.move geth web keyStore move).1.Ordered geth web keyStore := by
  refine move_keeps ordered (fun client request serving absent => ?_) (fun block => ?_)
    (fun worker q _ moved => ordered_step ordered locks moved)
  · obtain ⟨submitted, received, once, entered, last, honest⟩ := ordered
    have same : (p.put client ⟨request, .atLock, []⟩).sentBy = p.sentBy := by
      have silent : p.sentBy client = [] := by rw [sentBy, absent]
      rw [sentBy_put (p := p) rfl, ← silent, Function.update_eq_self]
    refine ⟨by rw [same]; exact submitted, received, once, fun other => ?_, last,
      forall_put honest rfl⟩
    show other ∈ p.held ↔ _
    rw [entered]
    by_cases here : other = client
    · subst here
      simp [put, absent, HandlerStage.waits]
    · simp [put, Function.update_of_ne here]
  · obtain ⟨submitted, received, once, entered, last, honest⟩ := ordered
    exact ⟨submitted, received, once, entered, last, honest⟩

end OrderSteps

end Pipeline

/-! ### The state a block is computed from -/

section Requests

variable (geth : Geth World) (web : Web) (keyStore : KeyStore) (s : State World)

/-- A request that does not call is answered, and leaves the state alone. -/
theorem handle_answered {request : ApiRequest} (idle : request.calls web = false) :
    (handle geth web keyStore s request).Answered s := by
  cases request with
  | getAccount param => exact ⟨[], _, rfl⟩
  | getAccounts => exact ⟨[], _, rfl⟩
  | call body =>
    show (callHandler geth web s body).Answered s
    unfold callHandler
    rw [Option.not_isSome_iff_eq_none.mp (Bool.eq_false_iff.mp idle)]
    exact ⟨[], _, rfl⟩
  | tx body => exact transactionHandler_answered geth web keyStore s body
  | rawtx body => exact rawTransactionHandler_answered geth web s body
  | getTx param => exact transactionReceiptHandler_answered geth s param

theorem handle_idle {request : ApiRequest} (idle : request.calls web = false) :
    (handle geth web keyStore s request).state = s := (handle_answered geth web keyStore s idle).state

/-- One that does changes only the gas pool. -/
theorem handle_poolApart (request : ApiRequest) :
    PoolApart (handle geth web keyStore s request).state s := by
  cases calls : request.calls web with
  | false =>
    rw [handle_idle geth web keyStore s calls]
    rfl
  | true =>
    cases request with
    | call body =>
      show PoolApart (callHandler geth web s body).state s
      unfold callHandler
      cases body.bind web.decodeArgs with
      | none => rfl
      | some args => rfl
    | getAccount param => cases calls
    | getAccounts => cases calls
    | tx body => cases calls
    | rawtx body => cases calls
    | getTx param => cases calls

/-- And only one that calls can panic. -/
theorem handle_returns {request : ApiRequest} (idle : request.calls web = false) :
    (handle geth web keyStore s request).reply ≠ .panic := by
  obtain ⟨submitted, response, answered⟩ := handle_answered geth web keyStore s idle
  rw [answered]
  exact nofun

theorem PoolApart.trans {first second third : State World} (one : PoolApart first second)
    (two : PoolApart second third) : PoolApart first third := by
  unfold PoolApart at one two ⊢
  rw [one, two]
  rfl

end Requests

def HandlerStage.Quiet : HandlerStage → Prop
  | .atLock => True
  | .entered => True
  | .atCommitLock => True
  | .calling => True
  | .leaving _ reply => reply ≠ .panic
  | .finished _ => True

/-- `CreateAccounts` has returned, or there is no genesis file. -/
def ServiceStage.created : ServiceStage World → Bool
  | .starting actions => (lockedLabels actions).isEmpty
  | .creating _ _ => false

def ServeStage.answering : ServeStage World → List (BlockResponse World)
  | .select => []
  | .submitting _ => []
  | .atCommitLock _ => []
  | .processing _ _ => []
  | .responding response => [response]

section Stages

variable (geth : Geth World)

/-- The response is computed from the state that the previous block left. -/
def BlockResponse.Computed (response : BlockResponse World) : Prop :=
  response.outcome = (response.previous.processBlock geth response.block).2

/-- The state is the one the last block left, but for its gas pool, or comes to what the block in
progress makes of that one. -/
def ServeStage.Follows (s left : State World) : ServeStage World → Prop
  | .select => PoolApart s left
  | .submitting _ => PoolApart s left
  | .atCommitLock _ => PoolApart s left
  | .processing block body => (body.run s).2 = (left.processBlock geth block).2 ∧ (body.run s).2 ≠ .panic
  | .responding _ => PoolApart s left

/-- Before the genesis accounts are created, the state comes to the one that the first block should
find. -/
def ServiceStage.Leads (s left : State World) (serve : ServeStage World) : ServiceStage World → Prop
  | .starting actions =>
    match lockedLabels actions with
    | [] => serve.Follows geth s left
    | operation :: later => later = [] ∧ serve.processes = false ∧
        ((s.operate geth operation).2.isOk = true → (s.operate geth operation).1 = left)
  | .creating body actions => lockedLabels actions = [] ∧ serve.processes = false ∧
      (body.run s).2.isOk = true ∧ (body.run s).1 = left

variable {geth} {s left : State World} {serve : ServeStage World} {service : ServiceStage World}

theorem follows_iff (idle : serve.processes = false) :
    serve.Follows geth s left ↔ PoolApart s left := by
  cases serve with
  | processing block body => cases idle
  | select => exact Iff.rfl
  | submitting tx => exact Iff.rfl
  | atCommitLock block => exact Iff.rfl
  | responding response => exact Iff.rfl

theorem leads_created (created : service.created = true) :
    service.Leads geth s left serve ↔ serve.Follows geth s left := by
  cases service with
  | creating body actions => cases created
  | starting actions =>
    unfold ServiceStage.Leads
    dsimp only
    rw [List.isEmpty_iff.mp created]

/-- A block is in progress only after the genesis accounts are there. -/
theorem created_of_processes (leads : service.Leads geth s left serve)
    (processes : serve.processes = true) : service.created = true := by
  unfold ServiceStage.Leads at leads
  cases service with
  | creating body actions =>
    rw [processes] at leads
    cases leads.2.1
  | starting actions =>
    dsimp only at leads
    split at leads
    · next none => rw [ServiceStage.created, none]; rfl
    · rw [processes] at leads
      cases leads.2.1

/-- `Proxy.Serve` moves outside `ProcessBlock`. -/
theorem leads_idle {next : ServeStage World} (leads : service.Leads geth s left serve)
    (idle : serve.processes = false) (later : next.processes = false) :
    service.Leads geth s left next := by
  unfold ServiceStage.Leads at leads ⊢
  cases service with
  | creating body actions => exact ⟨leads.1, later, leads.2.2⟩
  | starting actions =>
    dsimp only at leads ⊢
    split at leads
    · exact (follows_iff later).mpr ((follows_iff idle).mp leads)
    · exact ⟨leads.1, later, leads.2.2⟩

end Stages

section Condition

variable (geth : Geth World) (web : Web) (keyStore : KeyStore) (fill : BlockField → Int)

/-- `Service.Run` does not end the node: its key store and its file can be read, and the genesis
accounts can be created. -/
def ServiceStage.Goes (s : State World) (commitMutex : Option Worker) : ServiceStage World → Prop
  | .starting [] => True
  | .starting (.idle :: _) => True
  | .starting (.exit :: _) => False
  | .starting (.locked operation :: _) =>
    commitMutex = none → (s.operate geth operation).2.isOk = true
  | .creating _ _ => True

/-- A block is taken up after the genesis accounts are created, with a pool that serves it as the one
the previous block left would, and with transactions that do not ask for what their context leaves
out. -/
def ServeStage.Goes (s left : State World) (created : Bool) (commitMutex : Option Worker) :
    ServeStage World → Prop
  | .select => True
  | .submitting _ => True
  | .atCommitLock block => commitMutex = none → created = true ∧
      PoolsServe geth s left (.block block) ∧
      ∀ execution ∈ blockExecutions geth (.ofBytes 32 block.hash) s.was 0 block.transactions,
        execution.Avoids geth fill
  | .processing _ _ => True
  | .responding _ => True

/-- A call does not panic. -/
def HandlerGoes (s : State World) : Option Handler → Prop
  | none => True
  | some handler => handler.stage = .calling →
      (handle geth web keyStore s handler.request).reply ≠ .panic

namespace Pipeline

/-- The move does not end the node, and takes up a block only if it finds what the previous one
left. -/
def Smooth (p : Pipeline World) : PipelineMove → Prop
  | .request _ _ => True
  | .commitBlock _ => True
  | .work .service => p.service.Goes geth p.state p.commitMutex
  | .work .serve => p.serve.Goes geth fill p.state p.left p.service.created p.commitMutex
  | .work (.handler client) => HandlerGoes geth web keyStore p.state (p.handlers client)

/-- What every smooth move keeps. -/
structure Steady (p : Pipeline World) : Prop where
  going : p.ended = false
  quiet : ∀ client handler, p.handlers client = some handler → handler.stage.Quiet
  serving : ∀ client handler, p.handlers client = some handler → p.service = .starting []
  leads : p.service.Leads geth p.state p.left p.serve
  computed : ∀ response ∈ p.responded ++ p.serve.answering, response.Computed geth

end Pipeline

end Condition

namespace Pipeline

section SteadySteps

variable {geth : Geth World} {web : Web} {keyStore : KeyStore} {fill : BlockField → Int}
  {p q : Pipeline World}

theorem steady_service (steady : p.Steady geth)
    (smooth : p.Smooth geth web keyStore fill (.work .service))
    (moved : p.stepService geth = some q) : q.Steady geth := by
  obtain ⟨going, quiet, serving, leads, computed⟩ := steady
  -- there is no handler yet
  have absent : p.service ≠ .starting [] → ∀ (service : ServiceStage World) client handler,
      p.handlers client = some handler → service = .starting [] := fun apart _ client handler found =>
    absurd (serving client handler found) apart
  change p.service.Goes geth p.state p.commitMutex at smooth
  refine service_keeps moved ?idle ?exit ?create ?work ?finish
  case idle =>
    intro actions starting
    rw [starting] at leads absent
    exact ⟨going, quiet, absent (fun same => by cases same) _, leads, computed⟩
  case exit =>
    intro actions starting
    rw [starting] at smooth
    exact smooth.elim
  case create =>
    intro operation actions starting free
    rw [starting] at smooth leads absent
    have ok := smooth free
    obtain ⟨alone, idle, first⟩ := leads
    rw [← operationRoutine_run] at ok first
    exact ⟨going, quiet, absent (fun same => by cases same) _, ⟨alone, idle, ok, first ok⟩, computed⟩
  case work =>
    intro effect next actions creating
    rw [creating] at leads absent
    exact ⟨going, quiet, absent (fun same => by cases same) _, leads, computed⟩
  case finish =>
    intro outcome actions creating
    rw [creating] at leads absent
    obtain ⟨alone, idle, ok, first⟩ := leads
    change outcome.isOk = true at ok
    change p.state = p.left at first
    refine ⟨by rw [ok]; rfl, quiet, absent (fun same => by cases same) _, ?_, computed⟩
    refine (leads_created ?_).mpr ((follows_iff idle).mpr ?_)
    · rw [ServiceStage.created, alone]
      rfl
    · rw [first]
      rfl

theorem steady_serve (laws : geth.PoolLaws) (codec : geth.CodecLaws) (steady : p.Steady geth)
    (smooth : p.Smooth geth web keyStore fill (.work .serve)) (moved : p.stepServe geth = some q) :
    q.Steady geth := by
  obtain ⟨going, quiet, serving, leads, computed⟩ := steady
  change p.serve.Goes geth fill p.state p.left p.service.created p.commitMutex at smooth
  refine serve_keeps moved ?receive ?submit ?take ?work ?finish ?respond
  case receive =>
    intro block rest selecting _
    rw [selecting] at leads computed
    exact ⟨going, quiet, serving, leads_idle leads rfl rfl, computed⟩
  case submit =>
    intro tx submitting
    rw [submitting] at leads computed
    exact ⟨going, quiet, serving, leads_idle leads rfl rfl, computed⟩
  case take =>
    intro block waiting free
    rw [waiting] at smooth leads computed
    obtain ⟨created, pools, avoids⟩ := smooth free
    have apart : PoolApart p.state p.left := (leads_created created).mp leads
    have same := (processBlock_poolApart laws codec apart pools).2
    have returns : (p.state.processBlock geth block).2 ≠ .panic :=
      mt (processBlock_panic_iff p.state block).mp (not_not.mpr fun execution member =>
        (readsSet_iff_avoids geth fill execution).mpr (avoids execution member))
    have ran := operationRoutine_run geth (.processBlock block) p.state
    exact ⟨going, quiet, serving,
      (leads_created created).mpr ⟨by rw [ran]; exact same, by rw [ran]; exact returns⟩, computed⟩
  case work =>
    intro block effect next processing
    rw [processing] at leads computed
    have created := created_of_processes leads rfl
    have follows := (leads_created created).mp leads
    exact ⟨going, quiet, serving, (leads_created created).mpr follows, computed⟩
  case finish =>
    intro block outcome processing
    rw [processing] at leads computed
    have created := created_of_processes leads rfl
    obtain ⟨same, returns⟩ := (leads_created created).mp leads
    change outcome = _ at same
    change outcome ≠ .panic at returns
    refine ⟨?_, quiet, serving, (leads_created created).mpr rfl, ?_⟩
    · cases outcome with
      | ok root => rfl
      | error failure => rfl
      | panic => exact absurd rfl returns
    · show ∀ response ∈ p.responded ++ [⟨p.left, block, outcome⟩], _
      rw [List.forall_mem_append, List.forall_mem_singleton]
      exact ⟨fun response member => computed response (List.mem_append_left _ member), same⟩
  case respond =>
    intro response responding
    rw [responding] at leads computed
    refine ⟨going, quiet, serving, leads_idle leads rfl rfl, ?_⟩
    show ∀ other ∈ (p.responded ++ [response]) ++ [], _
    rw [List.append_nil]
    exact computed

/-- A handler that moves without touching the state. -/
theorem steady_stay (steady : p.Steady geth) {client : Nat} {handler next : Handler}
    {serviceMutex : Option Nat} {commitMutex : Option Worker} {held : List Nat}
    (found : p.handlers client = some handler) (quiet : next.stage.Quiet) :
    (put { p with serviceMutex, commitMutex, held } client next).Steady geth where
  going := steady.going
  quiet := forall_put steady.quiet quiet
  serving := forall_put steady.serving (steady.serving client handler found)
  leads := steady.leads
  computed := steady.computed

theorem steady_handler (steady : p.Steady geth) (locks : p.Locks) {client : Nat}
    (smooth : p.Smooth geth web keyStore fill (.work (.handler client)))
    (moved : p.stepHandler geth web keyStore client = some q) : q.Steady geth := by
  change HandlerGoes geth web keyStore p.state (p.handlers client) at smooth
  refine handler_keeps moved ?enter ?approach ?answer ?take ?call ?send ?leave
  case enter => exact fun handler found _ _ => steady_stay steady found trivial
  case approach => exact fun handler found _ _ => steady_stay steady found trivial
  case answer =>
    rintro handler handled found - calm rfl
    rw [handle_idle geth web keyStore p.state calm]
    exact steady_stay steady found (handle_returns geth web keyStore p.state calm)
  case take => exact fun handler found _ _ => steady_stay steady found trivial
  case call =>
    rintro handler handled found calling rfl
    rw [found] at smooth
    -- the handler holds the mutex, so no block is in progress
    have within : p.inSection (.handler client) = true := by
      rw [inSection_handler found, calling]
      rfl
    have apart : Worker.serve ≠ .handler client := fun same => by cases same
    have idle : p.inSection .serve = false := guards_apart locks.commit within apart
    have serving := steady.serving client handler found
    have leads := steady.leads
    rw [serving] at leads
    have apart : PoolApart p.state p.left := (follows_iff idle).mp leads
    refine ⟨steady.going, forall_put steady.quiet (smooth calling),
      forall_put steady.serving serving, ?_, steady.computed⟩
    show p.service.Leads geth _ p.left p.serve
    rw [serving]
    exact (follows_iff idle).mpr ((handle_poolApart geth web keyStore p.state _).trans apart)
  case send =>
    intro handler tx unsent reply found leaving selecting
    have quiet := steady.quiet client handler found
    rw [leaving] at quiet
    have leads := steady.leads
    have computed := steady.computed
    rw [selecting] at leads computed
    exact ⟨steady.going, forall_put steady.quiet quiet,
      forall_put steady.serving (steady.serving client handler found),
      leads_idle leads rfl rfl, computed⟩
  case leave => exact fun handler response found _ => steady_stay steady found trivial

/-- **Every smooth move keeps a node steady.** -/
theorem steady_move (laws : geth.PoolLaws) (codec : geth.CodecLaws) (steady : p.Steady geth)
    (locks : p.Locks) {move : PipelineMove} (smooth : p.Smooth geth web keyStore fill move) :
    (p.move geth web keyStore move).1.Steady geth := by
  refine move_keeps steady (fun client request serving absent => ?_) (fun block => ?_)
    (fun worker q same moved => ?_)
  · obtain ⟨going, quiet, api, leads, computed⟩ := steady
    exact ⟨going, forall_put quiet trivial, forall_put api serving, leads, computed⟩
  · obtain ⟨going, quiet, api, leads, computed⟩ := steady
    exact ⟨going, quiet, api, leads, computed⟩
  · subst same
    unfold step at moved
    split at moved
    · cases moved
    · cases worker with
      | service => exact steady_service steady smooth moved
      | serve => exact steady_serve laws codec steady smooth moved
      | handler client => exact steady_handler steady locks smooth moved

end SteadySteps

/-! ### Progress -/

section Progress

variable (geth : Geth World) (web : Web) (keyStore : KeyStore) (p : Pipeline World)

def Finished (handler : Handler) : Prop := ∃ response, handler.stage = .finished response

/-- `Service.Run` has not come to its API, a request has no reply, or a block no response. -/
def Unfinished : Prop :=
  p.service ≠ .starting [] ∨
    (∃ client handler, p.handlers client = some handler ∧ ¬ Finished handler) ∨
      p.commitCh ≠ [] ∨ p.serve ≠ .select

def CanMove : Prop := ∃ worker, p.step geth web keyStore worker ≠ none

variable {geth web keyStore p}

/-- `Service.Run` moves unless it has to wait for `commitMutex`. -/
theorem service_moves (going : p.ended = false) (busy : p.service ≠ .starting [])
    (free : p.service.creates = false → p.commitMutex = none) :
    p.step geth web keyStore .service ≠ none := by
  unfold step
  rw [going]
  simp only [Bool.false_eq_true, if_false]
  unfold stepService
  cases stage : p.service with
  | creating body actions => cases body <;> exact Option.some_ne_none _
  | starting actions =>
    rw [stage] at busy free
    cases actions with
    | nil => exact absurd rfl busy
    | cons action actions =>
      cases action with
      | idle => exact Option.some_ne_none _
      | exit => exact Option.some_ne_none _
      | locked operation =>
        rw [free rfl]
        exact Option.some_ne_none _

/-- So does `Proxy.Serve`, if a block has come or it is not at its `select`. -/
theorem serve_moves (going : p.ended = false) (busy : p.commitCh ≠ [] ∨ p.serve ≠ .select)
    (free : p.serve.processes = false → p.commitMutex = none) :
    p.step geth web keyStore .serve ≠ none := by
  unfold step
  rw [going]
  simp only [Bool.false_eq_true, if_false]
  unfold stepServe
  cases stage : p.serve with
  | select =>
    rw [stage] at busy
    cases waiting : p.commitCh with
    | nil => exact absurd rfl (busy.resolve_left (not_not.mpr waiting))
    | cons block rest => exact Option.some_ne_none _
  | submitting tx => exact Option.some_ne_none _
  | atCommitLock block =>
    rw [stage] at free
    rw [free rfl]
    exact Option.some_ne_none _
  | processing block body => cases body <;> exact Option.some_ne_none _
  | responding response => exact Option.some_ne_none _

/-- And a handler, unless it has to wait for a mutex or for `Proxy.Serve`. -/
theorem handler_moves (going : p.ended = false) {client : Nat} {handler : Handler}
    (found : p.handlers client = some handler) (quiet : handler.stage.Quiet)
    (unfinished : ¬ Finished handler) (unowned : handler.stage = .atLock → p.serviceMutex = none)
    (free : handler.stage.calls = false → p.commitMutex = none ∧ p.serve = .select) :
    p.step geth web keyStore (.handler client) ≠ none := by
  unfold step
  rw [going]
  simp only [Bool.false_eq_true, if_false]
  unfold stepHandler
  rw [found]
  dsimp only
  cases stage : handler.stage with
  | atLock =>
    rw [unowned stage]
    exact Option.some_ne_none _
  | entered =>
    dsimp only
    split
    · exact Option.some_ne_none _
    · exact Option.some_ne_none _
  | atCommitLock =>
    rw [stage] at free
    rw [(free rfl).1]
    exact Option.some_ne_none _
  | calling => exact Option.some_ne_none _
  | leaving unsent reply =>
    cases unsent with
    | cons tx unsent =>
      rw [stage] at free
      rw [(free rfl).2]
      exact Option.some_ne_none _
    | nil =>
      cases reply with
      | response response => exact Option.some_ne_none _
      | panic =>
        rw [stage] at quiet
        exact absurd rfl quiet
  | finished response => exact absurd ⟨response, stage⟩ unfinished

/-- The owner of `commitMutex` can move. -/
theorem owner_moves (locks : p.Locks) (going : p.ended = false) {owner : Worker}
    (owned : p.commitMutex = some owner) : p.step geth web keyStore owner ≠ none := by
  have within := (locks.commit owner).mp owned
  cases owner with
  | service =>
    have creates : p.service.creates = true := within
    refine service_moves going (fun same => ?_) (fun idle => ?_)
    · rw [same] at creates
      cases creates
    · rw [creates] at idle
      cases idle
  | serve =>
    have processes : p.serve.processes = true := within
    refine serve_moves going (Or.inr fun same => ?_) (fun idle => ?_)
    · rw [same] at processes
      cases processes
    · rw [processes] at idle
      cases idle
  | handler client =>
    obtain ⟨handler, found, calls⟩ := (Option.any_eq_true _ _).mp within
    have calling : handler.stage = .calling := by
      cases stage : handler.stage with
      | calling => rfl
      | atLock => rw [stage] at calls; cases calls
      | entered => rw [stage] at calls; cases calls
      | atCommitLock => rw [stage] at calls; cases calls
      | leaving unsent reply => rw [stage] at calls; cases calls
      | finished response => rw [stage] at calls; cases calls
    refine handler_moves going found ?_ ?_ (fun waits => ?_) (fun idle => ?_)
    · rw [calling]
      trivial
    · rintro ⟨response, finished⟩
      rw [finished] at calls
      cases calls
    · rw [waits] at calls
      cases calls
    · rw [calls] at idle
      cases idle

/-- **Progress**: a node that has not ended and has work left can move, if no handler panicked. -/
theorem progress (locks : p.Locks) (going : p.ended = false)
    (quiet : ∀ client handler, p.handlers client = some handler → handler.stage.Quiet)
    (unfinished : p.Unfinished) : p.CanMove geth web keyStore := by
  cases owned : p.commitMutex with
  | some owner => exact ⟨owner, owner_moves locks going owned⟩
  | none =>
    by_cases starting : p.service = .starting []
    · by_cases waiting : p.commitCh ≠ [] ∨ p.serve ≠ .select
      · exact ⟨.serve, serve_moves going waiting fun _ => owned⟩
      · obtain ⟨-, selecting⟩ := not_or.mp waiting
        have handlers := (unfinished.resolve_left (not_not.mpr starting)).resolve_right waiting
        obtain ⟨client, handler, found, pending⟩ := handlers
        cases mutex : p.serviceMutex with
        | none =>
          exact ⟨.handler client, handler_moves going found (quiet client handler found) pending
            (fun _ => mutex) (fun _ => ⟨owned, not_not.mp selecting⟩)⟩
        | some owner =>
          -- the owner of the service mutex can move
          obtain ⟨holder, held, inside⟩ := (Option.any_eq_true _ _).mp ((locks.service owner).mp mutex)
          refine ⟨.handler owner, handler_moves going held (quiet owner holder held) ?_
            (fun waits => ?_) (fun _ => ⟨owned, not_not.mp selecting⟩)⟩
          · rintro ⟨response, finished⟩
            rw [finished] at inside
            cases inside
          · rw [waits] at inside
            cases inside
    · exact ⟨.service, service_moves going starting fun _ => owned⟩

end Progress

/-! ### Runs -/

section Runs

variable (geth : Geth World) (web : Web) (keyStore : KeyStore)

/-- The node after some moves. -/
def after (s : State World) (setup : Setup) (moves : List PipelineMove) : Pipeline World :=
  (run (Pipeline.move geth web keyStore) (.start geth s setup) moves).1

/-- The property of a node that runs: it can move while there is work left; what was passed to
`SubmitTx`, with what is on its way there, is what the handlers sent, each handler once and in the order
in which they held the service mutex; and the blocks received are those responded to, each with what
`ProcessBlock` makes of it in the state that the previous block left, and the one in progress. -/
structure Kept (p : Pipeline World) : Prop where
  moves : p.Unfinished → p.CanMove geth web keyStore
  submitted : p.submitted ++ p.serve.transit = p.held.flatMap p.sentBy
  once : p.held.Nodup
  senders : ∀ client, p.sentBy client ≠ [] → client ∈ p.held
  sent : ∀ client handler response, p.handlers client = some handler →
    handler.stage = .finished response → ∃ s,
      handler.sent = (handle geth web keyStore s handler.request).submitted ∧
        .response response = (handle geth web keyStore s handler.request).reply
  received : p.received = p.responded.map BlockResponse.block ++ p.serve.current
  computed : ∀ response ∈ p.responded, response.Computed geth

variable {geth web keyStore}

theorem locks_start (s : State World) (setup : Setup) : (Pipeline.start geth s setup).Locks := by
  refine ⟨fun client => ?_, fun worker => ?_⟩
  · simp [Pipeline.start, inside]
  · cases worker <;> simp [Pipeline.start, inSection, ServiceStage.creates, ServeStage.processes]

theorem ordered_start (s : State World) (setup : Setup) :
    (Pipeline.start geth s setup).Ordered geth web keyStore where
  submitted := rfl
  received := rfl
  once := List.nodup_nil
  entered client := by simp [Pipeline.start]
  last client owner := by cases owner
  honest client handler found := by cases found

/-- Without genesis accounts to come, the first block finds the state as it is. -/
theorem first_same (s : State World) {setup : Setup} (none : lockedLabels setup.serviceRun = []) :
    (setup.first geth s).getD s = s := by
  obtain ⟨keyStore, unlocked, genesis⟩ := setup
  cases keyStore with
  | false => rfl
  | true =>
    cases unlocked with
    | false => rfl
    | true =>
      match genesis with
      | .error () => rfl
      | .ok .none => rfl
      | .ok (.some accounts) => cases none

theorem steady_start (s : State World) (setup : Setup) : (Pipeline.start geth s setup).Steady geth where
  going := rfl
  quiet client handler found := by cases found
  serving client handler found := by cases found
  leads := by
    show (ServiceStage.starting setup.serviceRun).Leads geth s ((setup.first geth s).getD s) .select
    unfold ServiceStage.Leads
    dsimp only
    rcases serviceRun_labels setup with none | ⟨accounts, made, unlocked, genesis, one⟩
    · rw [none]
      show PoolApart s ((setup.first geth s).getD s)
      rw [first_same s none]
      rfl
    · rw [one]
      refine ⟨rfl, rfl, fun ok => ?_⟩
      change (s.createAccounts geth accounts).2.isOk = true at ok
      rw [first_created geth s made unlocked genesis, if_pos ok]
      rfl
  computed response member := by cases member

variable (geth web keyStore) in
/-- **In every run**, whatever the blocks find, the work keeps its order and the mutexes their owners. -/
theorem ordered_after (s : State World) (setup : Setup) (moves : List PipelineMove) :
    (after geth web keyStore s setup moves).Locks ∧
      (after geth web keyStore s setup moves).Ordered geth web keyStore :=
  run_preserves (Pipeline.move geth web keyStore)
    (fun p : Pipeline World => p.Locks ∧ p.Ordered geth web keyStore)
    (fun _ move held => ⟨locks_move held.1 move, ordered_move held.2 held.1 move⟩)
    ⟨locks_start s setup, ordered_start s setup⟩ moves

/-- A handler that has not taken the service mutex has sent nothing. -/
theorem Ordered.senders {p : Pipeline World} (ordered : p.Ordered geth web keyStore) (client : Nat)
    (sends : p.sentBy client ≠ []) : client ∈ p.held := by
  cases found : p.handlers client with
  | none =>
    rw [sentBy, found] at sends
    exact absurd rfl sends
  | some handler =>
    rw [sentBy_found found] at sends
    refine (ordered.entered client).mpr ⟨handler, found, ?_⟩
    have honest := ordered.honest client handler found
    cases stage : handler.stage with
    | atLock =>
      rw [Handler.Honest, stage] at honest
      exact absurd honest sends
    | entered => rfl
    | atCommitLock => rfl
    | calling => rfl
    | leaving unsent reply => rfl
    | finished response => rfl

/-- **The pipeline keeps its work**, in every run of smooth moves. -/
theorem pipeline_kept (laws : geth.PoolLaws) (codec : geth.CodecLaws) (s : State World)
    (setup : Setup) (fill : BlockField → Int) {moves : List PipelineMove}
    (smooth : Along (Pipeline.move geth web keyStore) (Smooth geth web keyStore fill)
      (.start geth s setup) moves) :
    (after geth web keyStore s setup moves).Kept geth web keyStore := by
  obtain ⟨locks, ordered⟩ := ordered_after geth web keyStore s setup moves
  have steady := (run_invariant (Pipeline.move geth web keyStore)
    (fun p : Pipeline World => p.Locks ∧ p.Steady geth)
    (fun _ move held smooth => ⟨locks_move held.1 move, steady_move laws codec held.2 held.1 smooth⟩)
    ⟨locks_start s setup, steady_start s setup⟩ smooth).2
  exact
    { moves := progress locks steady.going steady.quiet
      submitted := ordered.submitted
      once := ordered.once
      senders := ordered.senders
      sent := fun client handler response found finished => by
        have honest := ordered.honest client handler found
        rwa [Handler.Honest, finished] at honest
      received := ordered.received
      computed := fun response member => steady.computed response (List.mem_append_left _ member) }

end Runs

end Pipeline

/-! ### The pipeline of the small chain -/

instance {World : Type} (geth : Geth World) (response : BlockResponse World) :
    Decidable (response.Computed geth) :=
  inferInstanceAs (Decidable (_ = _))

instance {World : Type} (geth : Geth World) (fill : BlockField → Int) (execution : Execution World) :
    Decidable (execution.Avoids geth fill) :=
  inferInstanceAs (Decidable (∀ _ ∈ _, _))

instance {World : Type} (geth : Geth World) (s : State World) (commitMutex : Option Worker)
    (stage : ServiceStage World) : Decidable (stage.Goes geth s commitMutex) :=
  match stage with
  | .starting [] => inferInstanceAs (Decidable True)
  | .starting (.idle :: _) => inferInstanceAs (Decidable True)
  | .starting (.exit :: _) => inferInstanceAs (Decidable False)
  | .starting (.locked _ :: _) => inferInstanceAs (Decidable (_ → _))
  | .creating _ _ => inferInstanceAs (Decidable True)

instance {World : Type} (geth : Geth World) (fill : BlockField → Int) (s left : State World)
    (created : Bool) (commitMutex : Option Worker) (stage : ServeStage World) :
    Decidable (stage.Goes geth fill s left created commitMutex) :=
  match stage with
  | .select => inferInstanceAs (Decidable True)
  | .submitting _ => inferInstanceAs (Decidable True)
  | .atCommitLock block =>
    haveI : Decidable (PoolsServe geth s left (.block block)) :=
      inferInstanceAs (Decidable (_ ∨ (_ ∧ _)))
    inferInstanceAs (Decidable (_ → _))
  | .processing _ _ => inferInstanceAs (Decidable True)
  | .responding _ => inferInstanceAs (Decidable True)

instance {World : Type} (geth : Geth World) (web : Web) (keyStore : KeyStore) (s : State World)
    (handler : Option Handler) : Decidable (HandlerGoes geth web keyStore s handler) :=
  match handler with
  | none => inferInstanceAs (Decidable True)
  | some _ => inferInstanceAs (Decidable (_ → _))

instance {World : Type} (geth : Geth World) (web : Web) (keyStore : KeyStore)
    (fill : BlockField → Int) (p : Pipeline World) (move : PipelineMove) :
    Decidable (p.Smooth geth web keyStore fill move) :=
  match move with
  | .request _ _ => inferInstanceAs (Decidable True)
  | .commitBlock _ => inferInstanceAs (Decidable True)
  | .work .service => inferInstanceAs (Decidable (ServiceStage.Goes _ _ _ _))
  | .work .serve => inferInstanceAs (Decidable (ServeStage.Goes _ _ _ _ _ _ _))
  | .work (.handler _) => inferInstanceAs (Decidable (HandlerGoes _ _ _ _ _))

namespace Sample

/-- A call from alice with all of the pool's gas that cannot pay what it sends. -/
def greedyBody : Bytes :=
  bodyOf "\x7b\"from\":\"0x0000000000000000000000000000000000000001\"," ++
    bodyOf "\"to\":\"0x0000000000000000000000000000000000000002\"," ++
    bodyOf "\"gas\":1000000000000000000,\"value\":2000000\x7d"

/-- The second payment from alice to bob. -/
def secondPayment : Block := ⟨[6], [encoded (signed 1 21000 bob 5)]⟩

/-- A goroutine that makes some steps. -/
def steps (worker : Worker) (count : Nat) : List PipelineMove :=
  List.replicate count (.work worker)

/-- The greedy call between two payments. -/
def callBetween : List PipelineMove :=
  steps .service 6 ++ [.commitBlock payment] ++ steps .serve 6 ++
    [.request 0 (.call (some greedyBody))] ++ steps (.handler 0) 5 ++
    [.commitBlock secondPayment] ++ steps .serve 6

/-- The second payment is answered from a state that the first one did not leave. -/
theorem call_between_not_kept : newState Sample.geth Store.empty = .ok blank ∧
    ¬ (Pipeline.after Sample.geth web keyStore blank plainSetup callBetween).Kept
      Sample.geth web keyStore := by
  refine ⟨newState_empty, fun kept => absurd kept.computed ?_⟩
  decide +kernel

/-- A transfer that is sent while a payment is processed, and accounts that are read while the
transfer waits. -/
def crossing : List PipelineMove :=
  steps .service 6 ++
    [.commitBlock payment, .request 0 (.tx (some transferBody)), .request 1 .getAccounts] ++
    steps .serve 3 ++ steps (.handler 0) 2 ++ steps (.handler 1) 1 ++ steps (.handler 0) 1 ++
    steps .serve 3 ++ steps (.handler 0) 2 ++ steps .serve 1 ++ steps (.handler 1) 3 ++
    [.commitBlock secondPayment] ++ steps .serve 6

theorem crossing_kept : (Pipeline.after Sample.geth web keyStore blank plainSetup crossing).Kept
    Sample.geth web keyStore :=
  Pipeline.pipeline_kept poolLaws codecLaws blank plainSetup (fun _ => 0) (by decide +kernel)

end Sample

end EvmBabble
