/-
A network of nodes under one consensus (`README.md`, `proxy.go`).

Every participant runs a node of its own next to a babble node. Babble takes in what the nodes submit,
decides blocks of it in one order, and hands the blocks to every node in that order, each at its own
pace; requests come in and goroutines move at any node at any time.

* `replica_move` — a node answers the blocks that it was handed as `ProcessBlock` does from one to the
  next, whatever its clients ask meanwhile.
* `linked_moveNode`, `loyal_moveNode` — what a move keeps at every node, and what it keeps at a node whose
  own moves are smooth, whatever the other nodes do.
* `network_agrees` — so no two nodes whose own moves are smooth ever answer a block differently, those
  that are equally far have the same accounts and the same database, and every transaction of a decided
  block was sent by the handler of a request.
-/

import EvmBabble.Proxy.Pipeline
import Mathlib.Data.Fintype.Defs

namespace EvmBabble

open Library

variable {World : Type}

/-! ### One node -/

theorem PoolApart.symm {first second : State World} (apart : PoolApart first second) :
    PoolApart second first := by
  unfold PoolApart at apart ⊢
  rw [apart]
  rfl

theorem PoolApart.db {first second : State World} (apart : PoolApart first second) :
    first.db = second.db := by
  rw [apart]
  rfl

section Replicas

variable (geth : Geth World)

/-- A plain node that processes blocks one after another. -/
def replay (first : State World) (blocks : List Block) : State World × List (Outcome Hash) :=
  run (State.processBlock geth) first blocks

theorem replay_concat (first : State World) (blocks : List Block) (block : Block) :
    replay geth first (blocks ++ [block]) =
      (((replay geth first blocks).1.processBlock geth block).1,
        (replay geth first blocks).2 ++ [((replay geth first blocks).1.processBlock geth block).2]) :=
  run_append _ _ _ _

/-- A block that is taken up finds a pool that serves it as the other state's would. -/
def ServeStage.MeetsPool (s other : State World) : ServeStage World → Prop
  | .select => True
  | .submitting _ => True
  | .atCommitLock block => PoolsServe geth s other (.block block)
  | .processing _ _ => True
  | .responding _ => True

namespace Pipeline

variable (first : State World) (p : Pipeline World)

/-- The blocks that have been processed, with what they came to. -/
def processed : List (BlockResponse World) := p.responded ++ p.serve.answering

/-- What a plain node holds after the blocks that have been processed. -/
def ledger : State World := (replay geth first (p.processed.map BlockResponse.block)).1

/-- The node has processed its blocks as a plain node does, but for its gas pool, and the block in
progress comes to what the plain node makes of it. -/
structure Replica : Prop where
  left : PoolApart p.left (p.ledger geth first)
  working : ∀ block body, p.serve = .processing block body →
    PoolApart (body.run p.state).1 ((p.ledger geth first).processBlock geth block).1 ∧
      (body.run p.state).2 = ((p.ledger geth first).processBlock geth block).2
  answered : p.processed.map BlockResponse.outcome =
    (replay geth first (p.processed.map BlockResponse.block)).2

/-- A block that is taken up finds a pool that serves it as the plain node's would. -/
def MeetsLedger : Prop := p.serve.MeetsPool geth p.state (p.ledger geth first)

end Pipeline

end Replicas

namespace Pipeline

section ReplicaSteps

variable {geth : Geth World} {web : Web} {keyStore : KeyStore} {fill : BlockField → Int}
  {first : State World} {p q : Pipeline World}

/-- A step outside `ProcessBlock` that leaves the processed blocks and the state they left. -/
theorem Replica.stays (replica : p.Replica geth first) (left : q.left = p.left)
    (processed : q.processed = p.processed)
    (idle : ∀ block body, q.serve = .processing block body → q.serve = p.serve ∧ q.state = p.state) :
    q.Replica geth first := by
  obtain ⟨before, working, answered⟩ := replica
  have same : q.ledger geth first = p.ledger geth first := by rw [ledger, ledger, processed]
  refine ⟨by rw [left, same]; exact before, fun block body processing => ?_,
    by rw [processed]; exact answered⟩
  obtain ⟨serve, state⟩ := idle block body processing
  rw [same, state]
  exact working block body (serve.symm.trans processing)

theorem replica_service (steady : p.Steady geth) (replica : p.Replica geth first)
    (moved : p.stepService geth = some q) : q.Replica geth first := by
  -- while `CreateAccounts` runs, no block is in progress
  have idle : p.service.created = false → p.serve.processes = false := fun pending => by
    by_contra processes
    have created := created_of_processes steady.leads (Bool.not_eq_false _ ▸ processes)
    rw [pending] at created
    cases created
  refine service_keeps moved ?idle ?exit ?create ?work ?finish
  case idle => exact fun _ _ => replica.stays rfl rfl fun _ _ _ => ⟨rfl, rfl⟩
  case exit => exact fun _ _ => replica.stays rfl rfl fun _ _ _ => ⟨rfl, rfl⟩
  case create => exact fun _ _ _ _ => replica.stays rfl rfl fun _ _ _ => ⟨rfl, rfl⟩
  case work =>
    intro effect next actions creating
    refine replica.stays rfl rfl fun block body processing => ?_
    have pending := idle (by rw [creating]; rfl)
    change p.serve = _ at processing
    rw [processing] at pending
    cases pending
  case finish => exact fun _ _ _ => replica.stays rfl rfl fun _ _ _ => ⟨rfl, rfl⟩

theorem replica_serve (laws : geth.PoolLaws) (codec : geth.CodecLaws) (steady : p.Steady geth)
    (smooth : p.Smooth geth web keyStore fill (.work .serve)) (meets : p.MeetsLedger geth first)
    (replica : p.Replica geth first) (moved : p.stepServe geth = some q) : q.Replica geth first := by
  change p.serve.Goes geth fill p.state p.left p.service.created p.commitMutex at smooth
  refine serve_keeps moved ?receive ?submit ?take ?work ?finish ?respond
  case receive =>
    intro block rest selecting _
    refine replica.stays rfl ?_ fun _ _ processing => by cases processing
    rw [processed, processed, selecting]
    rfl
  case submit =>
    intro tx submitting
    refine replica.stays rfl ?_ fun _ _ processing => by cases processing
    rw [processed, processed, submitting]
    rfl
  case take =>
    intro block waiting free
    have leads := steady.leads
    rw [waiting] at smooth leads
    obtain ⟨created, -, -⟩ := smooth free
    have apart : PoolApart p.state p.left := (leads_created created).mp leads
    have same : (Pipeline.ledger geth first { p with
        commitMutex := some .serve
        serve := .processing block (operationRoutine geth (.processBlock block)) }) =
        p.ledger geth first := by
      rw [ledger, ledger, processed, processed, waiting]
      rfl
    rw [MeetsLedger, waiting] at meets
    have started := processBlock_poolApart laws codec (apart.trans replica.left) meets
    refine ⟨by rw [same]; exact replica.left, ?_, ?_⟩
    · rw [same]
      rintro other body processing
      cases processing
      rw [operationRoutine_run]
      exact started
    · have answered := replica.answered
      rw [processed, waiting] at answered
      exact answered
  case work =>
    intro block effect next processing
    obtain ⟨before, working, answered⟩ := replica
    rw [ledger, processed, processing] at before
    rw [processed, processing] at answered
    have runs := working block _ processing
    rw [ledger, processed, processing] at runs
    refine ⟨before, ?_, answered⟩
    rintro other body continuing
    cases continuing
    exact runs
  case finish =>
    intro block outcome processing
    have listed : p.processed = p.responded := by
      rw [processed, processing]
      exact List.append_nil _
    obtain ⟨state, same⟩ := replica.working block _ processing
    have answered := replica.answered
    rw [ledger, listed] at state same
    rw [listed] at answered
    refine ⟨?_, (fun _ _ processing => by cases processing), ?_⟩
    · show PoolApart p.state
        (replay geth first ((p.responded ++ [BlockResponse.mk p.left block outcome]).map
          BlockResponse.block)).1
      rw [List.map_append, List.map_singleton, replay_concat]
      exact state
    · show (p.responded ++ [BlockResponse.mk p.left block outcome]).map BlockResponse.outcome =
        (replay geth first ((p.responded ++ [BlockResponse.mk p.left block outcome]).map
          BlockResponse.block)).2
      rw [List.map_append, List.map_append, List.map_singleton, List.map_singleton, replay_concat,
        answered]
      exact congrArg (_ ++ [·]) same
  case respond =>
    intro response responding
    refine replica.stays rfl ?_ fun _ _ processing => by cases processing
    rw [processed, processed, responding]
    exact List.append_nil _

theorem replica_handler (locks : p.Locks) (replica : p.Replica geth first) {client : Nat}
    (moved : p.stepHandler geth web keyStore client = some q) : q.Replica geth first := by
  refine handler_keeps moved ?enter ?approach ?answer ?take ?call ?send ?leave
  case enter => exact fun _ _ _ _ => replica.stays rfl rfl fun _ _ _ => ⟨rfl, rfl⟩
  case approach => exact fun _ _ _ _ => replica.stays rfl rfl fun _ _ _ => ⟨rfl, rfl⟩
  case answer =>
    rintro handler handled found - calm rfl
    exact replica.stays rfl rfl fun _ _ _ =>
      ⟨rfl, handle_idle geth web keyStore p.state calm⟩
  case take => exact fun _ _ _ _ => replica.stays rfl rfl fun _ _ _ => ⟨rfl, rfl⟩
  case call =>
    intro handler handled found calling _
    -- the handler holds the mutex, so no block is in progress
    have within : p.inSection (.handler client) = true := by
      rw [inSection_handler found, calling]
      rfl
    have idle : p.inSection .serve = false :=
      guards_apart locks.commit within fun same => by cases same
    refine replica.stays rfl rfl fun block body processing => ?_
    change p.serve = _ at processing
    change p.serve.processes = false at idle
    rw [processing] at idle
    cases idle
  case send =>
    intro handler tx unsent reply found leaving selecting
    refine replica.stays rfl ?_ fun _ _ processing => by cases processing
    rw [processed, processed, selecting]
    rfl
  case leave => exact fun _ _ _ _ => replica.stays rfl rfl fun _ _ _ => ⟨rfl, rfl⟩

/-- **Every smooth move keeps a node with the plain one.** -/
theorem replica_move (laws : geth.PoolLaws) (codec : geth.CodecLaws) (steady : p.Steady geth)
    (locks : p.Locks) (replica : p.Replica geth first) {move : PipelineMove}
    (smooth : p.Smooth geth web keyStore fill move)
    (meets : move = .work .serve → p.MeetsLedger geth first) :
    (p.move geth web keyStore move).1.Replica geth first := by
  refine move_keeps replica (fun _ _ _ _ => replica.stays rfl rfl fun _ _ _ => ⟨rfl, rfl⟩)
    (fun _ => replica.stays rfl rfl fun _ _ _ => ⟨rfl, rfl⟩) (fun worker q same moved => ?_)
  subst same
  unfold step at moved
  split at moved
  · cases moved
  · cases worker with
    | service => exact replica_service steady replica moved
    | serve => exact replica_serve laws codec steady smooth (meets rfl) replica moved
    | handler client => exact replica_handler locks replica moved

theorem replica_start (s : State World) (setup : Setup) :
    (Pipeline.start geth s setup).Replica geth ((setup.first geth s).getD s) where
  left := rfl
  working _ _ processing := by cases processing
  answered := rfl

end ReplicaSteps

end Pipeline

/-! ### The network -/

/-- The nodes, the blocks that babble has decided, in order, and how many of them each node was
handed. -/
structure Network (ι World : Type) where
  nodes : ι → Pipeline World
  decided : List Block
  handed : ι → Nat

inductive NetworkMove (ι : Type)
  | request (node : ι) (client : Nat) (request : ApiRequest)
  | work (node : ι) (worker : Worker)
  | decide (block : Block)
  | hand (node : ι)

section Networks

variable {ι : Type} [DecidableEq ι] (geth : Geth World) (web : Web) (keyStores : ι → KeyStore)

namespace Network

/-- Nodes that start on the same database with the same genesis file. -/
def start (s : State World) (setup : Setup) : Network ι World where
  nodes _ := .start geth s setup
  decided := []
  handed _ := 0

variable (net : Network ι World)

/-- A move of one node. -/
def moveNode (node : ι) (move : PipelineMove) : Network ι World :=
  let moved := (net.nodes node).move geth web (keyStores node) move
  { net with nodes := Function.update net.nodes node moved.1 }

def move : NetworkMove ι → Network ι World × Unit
  | .request node client request => (net.moveNode geth web keyStores node (.request client request), ())
  | .work node worker => (net.moveNode geth web keyStores node (.work worker), ())
  | .decide block => ({ net with decided := net.decided ++ [block] }, ())
  | .hand node =>
    match net.decided[net.handed node]? with
    | none => (net, ())
    | some block =>
      ({ net.moveNode geth web keyStores node (.commitBlock block) with
          handed := Function.update net.handed node (net.handed node + 1) }, ())

/-- The network after some moves. -/
def after (s : State World) (setup : Setup) (moves : List (NetworkMove ι)) : Network ι World :=
  (run (Network.move geth web keyStores) (.start geth s setup) moves).1

variable (good : ι → Prop)

/-- Babble decides only what nodes have submitted, and the work of the good nodes is smooth: they take up a
block with a pool that serves it as the plain node's would. The other nodes do what they like. -/
def Proper (fill : BlockField → Int) (first : State World) : NetworkMove ι → Prop
  | .request _ _ _ => True
  | .work node worker => good node →
      (net.nodes node).Smooth geth web (keyStores node) fill (.work worker) ∧
        (worker = .serve → (net.nodes node).MeetsLedger geth first)
  | .decide block => ∀ tx ∈ block.transactions, ∃ node, tx ∈ (net.nodes node).submitted
  | .hand _ => True

/-- What every node of the network keeps. -/
structure Linked (node : ι) : Prop where
  locks : (net.nodes node).Locks
  ordered : (net.nodes node).Ordered geth web (keyStores node)
  inbox : (net.nodes node).received ++ (net.nodes node).commitCh =
    net.decided.take (net.handed node)
  behind : net.handed node ≤ net.decided.length

/-- What a good node keeps. -/
structure Loyal (first : State World) (node : ι) : Prop where
  steady : (net.nodes node).Steady geth
  replica : (net.nodes node).Replica geth first

/-- What the network keeps. -/
structure Sound (first : State World) : Prop where
  linked : ∀ node, net.Linked geth web keyStores node
  loyal : ∀ node, good node → net.Loyal geth first node
  sourced : ∀ block ∈ net.decided, ∀ tx ∈ block.transactions,
    ∃ node, tx ∈ (net.nodes node).submitted

/-- The property of a network that runs: every node has answered the first of the decided blocks, in
order; what a good node has answered, in order, is the first part of what the plain node answers to the
decided blocks; good nodes that have processed equally many blocks are in the same state, but for their
gas pools, when neither is in `CreateAccounts` or `ProcessBlock`; and each transaction of a decided block
was submitted by the handler of a request. -/
structure Agrees (first : State World) : Prop where
  order : ∀ node, (net.nodes node).responded.map BlockResponse.block <+: net.decided
  answers : ∀ node, good node → (net.nodes node).responded.map BlockResponse.outcome <+:
    (replay geth first net.decided).2
  states : ∀ one two, good one → good two →
    (net.nodes one).processed.length = (net.nodes two).processed.length →
    (∀ node ∈ [one, two], (net.nodes node).service.created = true ∧
      (net.nodes node).serve.processes = false) →
    PoolApart (net.nodes one).state (net.nodes two).state
  sources : ∀ block ∈ net.decided, ∀ tx ∈ block.transactions, ∃ node client handler s,
    (net.nodes node).handlers client = some handler ∧
      tx ∈ (handle geth web (keyStores node) s handler.request).submitted

end Network

end Networks

/-! ### What a move of a node leaves to the network -/

/-- What a move offers to `Proxy.Serve`. -/
def PipelineMove.offered : PipelineMove → List Block
  | .request _ _ => []
  | .commitBlock block => [block]
  | .work _ => []

namespace Pipeline

section Grown

variable {geth : Geth World} {web : Web} {keyStore : KeyStore} {p q : Pipeline World}

/-- A node keeps the blocks it was handed and what it has submitted. -/
def Grown (p : Pipeline World) (offered : List Block) (q : Pipeline World) : Prop :=
  q.received ++ q.commitCh = p.received ++ p.commitCh ++ offered ∧ p.submitted <+: q.submitted

theorem grown_stays (received : q.received = p.received) (offered : q.commitCh = p.commitCh)
    (submitted : q.submitted = p.submitted) : p.Grown [] q := by
  rw [Grown, received, offered, submitted, List.append_nil]
  exact ⟨rfl, List.prefix_refl _⟩

theorem grown_step {worker : Worker} (moved : p.step geth web keyStore worker = some q) :
    p.Grown [] q := by
  unfold step at moved
  split at moved
  · cases moved
  · cases worker with
    | service =>
      apply service_keeps moved
      all_goals
        intros
        exact grown_stays rfl rfl rfl
    | serve =>
      refine serve_keeps moved ?receive ?submit ?take ?work ?finish ?respond
      case receive =>
        intro block rest _ offered
        refine ⟨?_, List.prefix_refl _⟩
        show (p.received ++ [block]) ++ rest = _
        rw [offered, List.append_nil, List.append_assoc]
        rfl
      case submit => exact fun tx _ => ⟨(List.append_nil _).symm, List.prefix_append _ _⟩
      case take => exact fun _ _ _ => grown_stays rfl rfl rfl
      case work => exact fun _ _ _ _ => grown_stays rfl rfl rfl
      case finish => exact fun _ _ _ => grown_stays rfl rfl rfl
      case respond => exact fun _ _ => grown_stays rfl rfl rfl
    | handler client =>
      apply handler_keeps moved
      all_goals
        intros
        exact grown_stays rfl rfl rfl

theorem grown_move (move : PipelineMove) :
    p.Grown move.offered (p.move geth web keyStore move).1 := by
  cases move with
  | request client request =>
    show p.Grown [] (p.request client request)
    unfold Pipeline.request
    split
    · exact grown_stays rfl rfl rfl
    · exact grown_stays rfl rfl rfl
  | commitBlock block => exact ⟨(List.append_assoc _ _ _).symm, List.prefix_refl _⟩
  | work worker =>
    show p.Grown [] ((p.step geth web keyStore worker).getD p)
    cases moved : p.step geth web keyStore worker with
    | none => exact grown_stays rfl rfl rfl
    | some q => exact grown_step moved

end Grown

end Pipeline

/-! ### Runs of the network -/

namespace Network

section Runs

variable {ι : Type} {geth : Geth World} {web : Web} {keyStores : ι → KeyStore}
  {good : ι → Prop} {fill : BlockField → Int} {first : State World} {net : Network ι World}

section Nodes

variable [DecidableEq ι]

variable (geth web keyStores net) in
/-- The node that moves, and the others. -/
theorem moveNode_nodes (mover node : ι) (move : PipelineMove) :
    (net.moveNode geth web keyStores mover move).nodes node =
      if node = mover then ((net.nodes mover).move geth web (keyStores mover) move).1
      else net.nodes node := by
  by_cases same : node = mover
  · subst same
    rw [if_pos rfl]
    exact Function.update_self _ _ _
  · rw [if_neg same]
    exact Function.update_of_ne same _ _

/-- A move of one node keeps what every node keeps. -/
theorem linked_moveNode (linked : ∀ node, net.Linked geth web keyStores node) {mover : ι}
    {move : PipelineMove} {handed : ι → Nat}
    (others : ∀ node, node ≠ mover → handed node = net.handed node)
    (inbox : net.decided.take (net.handed mover) ++ move.offered = net.decided.take (handed mover))
    (behind : handed mover ≤ net.decided.length) (node : ι) :
    ({ net.moveNode geth web keyStores mover move with handed } : Network ι World).Linked
      geth web keyStores node := by
  obtain ⟨locks, ordered, received, before⟩ := linked node
  have nodes := moveNode_nodes geth web keyStores net mover node move
  by_cases same : node = mover
  · subst same
    rw [if_pos rfl] at nodes
    constructor
    case locks =>
      rw [nodes]
      exact Pipeline.locks_move locks move
    case ordered =>
      rw [nodes]
      exact Pipeline.ordered_move ordered locks move
    case inbox =>
      rw [nodes]
      exact (Pipeline.grown_move move).1.trans ((congrArg (· ++ _) received).trans inbox)
    case behind => exact behind
  · rw [if_neg same] at nodes
    constructor
    case locks =>
      rw [nodes]
      exact locks
    case ordered =>
      rw [nodes]
      exact ordered
    case inbox =>
      rw [nodes]
      show _ = net.decided.take (handed node)
      rw [others node same]
      exact received
    case behind =>
      show handed node ≤ _
      rw [others node same]
      exact before

/-- A smooth move of a good node, or any move of another one, keeps what a good node keeps. -/
theorem loyal_moveNode (laws : geth.PoolLaws) (codec : geth.CodecLaws) {mover node : ι}
    {move : PipelineMove} {handed : ι → Nat} (locks : (net.nodes node).Locks)
    (loyal : net.Loyal geth first node)
    (smooth : node = mover → (net.nodes mover).Smooth geth web (keyStores mover) fill move ∧
      (move = .work .serve → (net.nodes mover).MeetsLedger geth first)) :
    ({ net.moveNode geth web keyStores mover move with handed } : Network ι World).Loyal
      geth first node := by
  obtain ⟨steady, replica⟩ := loyal
  have nodes := moveNode_nodes geth web keyStores net mover node move
  by_cases same : node = mover
  · subst same
    obtain ⟨goes, meets⟩ := smooth rfl
    rw [if_pos rfl] at nodes
    constructor
    case steady =>
      rw [nodes]
      exact Pipeline.steady_move laws codec steady locks goes
    case replica =>
      rw [nodes]
      exact Pipeline.replica_move laws codec steady locks replica goes meets
  · rw [if_neg same] at nodes
    constructor
    case steady =>
      rw [nodes]
      exact steady
    case replica =>
      rw [nodes]
      exact replica

/-- What was submitted to babble stays submitted. -/
theorem submitted_moveNode {mover : ι} {move : PipelineMove} {tx : Bytes}
    (sourced : ∃ node, tx ∈ (net.nodes node).submitted) :
    ∃ node, tx ∈ ((net.moveNode geth web keyStores mover move).nodes node).submitted := by
  obtain ⟨node, member⟩ := sourced
  refine ⟨node, ?_⟩
  rw [moveNode_nodes]
  split
  · next same =>
    subst same
    exact (Pipeline.grown_move move).2.subset member
  · exact member

/-- **Every proper move keeps the network sound.** -/
theorem sound_move (laws : geth.PoolLaws) (codec : geth.CodecLaws)
    (sound : net.Sound geth web keyStores good first) {move : NetworkMove ι}
    (proper : net.Proper geth web keyStores good fill first move) :
    (net.move geth web keyStores move).1.Sound geth web keyStores good first := by
  obtain ⟨linked, loyal, sourced⟩ := sound
  cases move with
  | request node client request =>
    have smooth : (net.nodes node).Smooth geth web (keyStores node) fill (.request client request) :=
      trivial
    exact ⟨linked_moveNode linked (fun _ _ => rfl) (List.append_nil _) (linked node).behind,
      fun other keeps => loyal_moveNode laws codec (linked other).locks (loyal other keeps)
        fun _ => ⟨smooth, nofun⟩,
      fun block member tx listed => submitted_moveNode (sourced block member tx listed)⟩
  | work node worker =>
    exact ⟨linked_moveNode linked (fun _ _ => rfl) (List.append_nil _) (linked node).behind,
      fun other keeps => loyal_moveNode laws codec (linked other).locks (loyal other keeps)
        fun same => (proper (same ▸ keeps)).imp_right fun meets here =>
          meets (PipelineMove.work.inj here),
      fun block member tx listed => submitted_moveNode (sourced block member tx listed)⟩
  | decide block =>
    refine ⟨fun node => ?_, fun node keeps => ⟨(loyal node keeps).steady, (loyal node keeps).replica⟩,
      fun other member tx listed => ?_⟩
    · obtain ⟨locks, ordered, received, behind⟩ := linked node
      exact ⟨locks, ordered, received.trans (List.take_append_of_le_length behind).symm,
        behind.trans (List.prefix_append _ _).length_le⟩
    · rcases List.mem_append.mp member with old | new
      · exact sourced other old tx listed
      · rw [List.mem_singleton.mp new] at listed
        exact proper tx listed
  | hand node =>
    unfold Network.move
    dsimp only
    cases found : net.decided[net.handed node]? with
    | none => exact ⟨linked, loyal, sourced⟩
    | some block =>
      have smooth : (net.nodes node).Smooth geth web (keyStores node) fill (.commitBlock block) :=
        trivial
      refine ⟨linked_moveNode linked (fun other apart => Function.update_of_ne apart _ _) ?_ ?_,
        fun other keeps => loyal_moveNode laws codec (linked other).locks (loyal other keeps)
          fun _ => ⟨smooth, nofun⟩,
        fun block member tx listed => submitted_moveNode (sourced block member tx listed)⟩
      · rw [Function.update_self, List.take_add_one, found]
        rfl
      · rw [Function.update_self]
        exact (List.getElem?_eq_some_iff.mp found).1

end Nodes

theorem sound_start (s : State World) (setup : Setup) :
    (Network.start geth s setup : Network ι World).Sound geth web keyStores good
      ((setup.first geth s).getD s) where
  linked _ := ⟨Pipeline.locks_start s setup, Pipeline.ordered_start s setup, rfl, Nat.le_refl _⟩
  loyal _ _ := ⟨Pipeline.steady_start s setup, Pipeline.replica_start s setup⟩
  sourced _ member := absurd member List.not_mem_nil

/-- What a handler has sent is what its function submits, in some state. -/
theorem sent_source {web : Web} {keyStore : KeyStore} {handler : Handler} {tx : Bytes}
    (honest : handler.Honest geth web keyStore) (sent : tx ∈ handler.sent) :
    ∃ s, tx ∈ (handle geth web keyStore s handler.request).submitted := by
  unfold Handler.Honest at honest
  split at honest
  · rw [honest] at sent
    cases sent
  · rw [honest] at sent
    cases sent
  · rw [honest] at sent
    cases sent
  · rw [honest] at sent
    cases sent
  · obtain ⟨s, whole, -⟩ := honest
    exact ⟨s, whole ▸ List.mem_append_left _ sent⟩
  · obtain ⟨s, whole, -⟩ := honest
    exact ⟨s, whole ▸ sent⟩

/-- What was submitted has a handler that sent it. -/
theorem submitted_source {keyStore : KeyStore} {p : Pipeline World} {tx : Bytes}
    (ordered : p.Ordered geth web keyStore) (submitted : tx ∈ p.submitted) :
    ∃ client handler s, p.handlers client = some handler ∧
      tx ∈ (handle geth web keyStore s handler.request).submitted := by
  have sent : tx ∈ p.held.flatMap p.sentBy := ordered.submitted ▸ List.mem_append_left _ submitted
  obtain ⟨client, -, member⟩ := List.mem_flatMap.mp sent
  cases found : p.handlers client with
  | none =>
    rw [Pipeline.sentBy, found] at member
    cases member
  | some handler =>
    rw [Pipeline.sentBy_found found] at member
    obtain ⟨s, source⟩ := sent_source (ordered.honest client handler found) member
    exact ⟨client, handler, s, found, source⟩

/-- The blocks that a node has processed are the first of those decided. -/
theorem Linked.listed {node : ι} (linked : net.Linked geth web keyStores node) :
    (net.nodes node).processed.map BlockResponse.block <+: net.decided := by
  have current : (net.nodes node).serve.answering.map BlockResponse.block <+:
      (net.nodes node).serve.current := by
    cases (net.nodes node).serve with
    | select => exact List.prefix_refl _
    | submitting tx => exact List.prefix_refl _
    | atCommitLock block => exact List.nil_prefix
    | processing block body => exact List.nil_prefix
    | responding response => exact List.prefix_refl _
  rw [Pipeline.processed, List.map_append]
  apply ((List.prefix_append_right_inj _).mpr current).trans
  rw [← linked.ordered.received]
  apply (List.prefix_append _ (net.nodes node).commitCh).trans
  rw [linked.inbox]
  exact List.take_prefix _ _

/-- A node at rest holds what the plain node does. -/
theorem Loyal.rests {node : ι} (loyal : net.Loyal geth first node)
    (created : (net.nodes node).service.created = true)
    (idle : (net.nodes node).serve.processes = false) :
    PoolApart (net.nodes node).state ((net.nodes node).ledger geth first) := by
  have follows := (leads_created created).mp loyal.steady.leads
  exact ((follows_iff idle).mp follows).trans loyal.replica.left

/-- What a sound network has answered. -/
theorem Sound.agrees (sound : net.Sound geth web keyStores good first) :
    net.Agrees geth web keyStores good first := by
  have responded : ∀ node, (net.nodes node).responded <+: (net.nodes node).processed := fun node =>
    List.prefix_append _ _
  constructor
  case order => exact fun node => ((responded node).map _).trans (sound.linked node).listed
  case answers =>
    intro node keeps
    apply ((responded node).map _).trans
    rw [(sound.loyal node keeps).replica.answered]
    exact prefix_run _ first (sound.linked node).listed
  case states =>
    intro one two keeps keepsToo far rest
    have same : (net.nodes one).processed.map BlockResponse.block =
        (net.nodes two).processed.map BlockResponse.block := by
      refine List.IsPrefix.eq_of_length ?_ (by rw [List.length_map, List.length_map, far])
      apply List.prefix_of_prefix_length_le (sound.linked one).listed (sound.linked two).listed
      rw [List.length_map, List.length_map, far]
    obtain ⟨created, idle⟩ := rest one List.mem_cons_self
    obtain ⟨createdToo, idleToo⟩ := rest two (List.mem_cons_of_mem _ List.mem_cons_self)
    have here := (sound.loyal one keeps).rests created idle
    have there := (sound.loyal two keepsToo).rests createdToo idleToo
    rw [Pipeline.ledger, same] at here
    exact here.trans there.symm
  case sources =>
    intro block member tx listed
    obtain ⟨node, submitted⟩ := sound.sourced block member tx listed
    exact ⟨node, submitted_source (sound.linked node).ordered submitted⟩

variable [DecidableEq ι]

/-- The network is sound after every run of proper moves. -/
theorem sound_after (laws : geth.PoolLaws) (codec : geth.CodecLaws) {s : State World}
    {setup : Setup} {moves : List (NetworkMove ι)}
    (proper : Along (Network.move geth web keyStores)
      (fun net => net.Proper geth web keyStores good fill ((setup.first geth s).getD s))
      (.start geth s setup) moves) :
    (Network.after geth web keyStores s setup moves).Sound geth web keyStores good
      ((setup.first geth s).getD s) :=
  run_invariant (Network.move geth web keyStores)
    (fun net : Network ι World => net.Sound geth web keyStores good ((setup.first geth s).getD s))
    (fun _ _ sound proper => sound_move laws codec sound proper) (sound_start s setup) proper

/-- **The good nodes of a network agree**, in every run in which babble decides what was submitted and
the work of these nodes is smooth. -/
theorem network_agrees (laws : geth.PoolLaws) (codec : geth.CodecLaws) (s : State World)
    (setup : Setup) (good : ι → Prop) (fill : BlockField → Int) {moves : List (NetworkMove ι)}
    (proper : Along (Network.move geth web keyStores)
      (fun net => net.Proper geth web keyStores good fill ((setup.first geth s).getD s))
      (.start geth s setup) moves) :
    (Network.after geth web keyStores s setup moves).Agrees geth web keyStores good
      ((setup.first geth s).getD s) :=
  (sound_after laws codec proper).agrees

end Runs

end Network

/-! ### Two nodes of the small chain -/

instance {World : Type} (geth : Geth World) (s other : State World) (stage : ServeStage World) :
    Decidable (stage.MeetsPool geth s other) :=
  match stage with
  | .select => inferInstanceAs (Decidable True)
  | .submitting _ => inferInstanceAs (Decidable True)
  | .atCommitLock _ => inferInstanceAs (Decidable (_ ∨ (_ ∧ _)))
  | .processing _ _ => inferInstanceAs (Decidable True)
  | .responding _ => inferInstanceAs (Decidable True)

instance {World ι : Type} [Fintype ι] (geth : Geth World) (web : Web) (keyStores : ι → KeyStore)
    (good : ι → Prop) [DecidablePred good] (fill : BlockField → Int) (first : State World)
    (net : Network ι World) (move : NetworkMove ι) :
    Decidable (net.Proper geth web keyStores good fill first move) :=
  match move with
  | .request _ _ _ => inferInstanceAs (Decidable True)
  | .work node _ =>
    haveI : Decidable ((net.nodes node).MeetsLedger geth first) :=
      inferInstanceAs (Decidable (ServeStage.MeetsPool _ _ _ _))
    inferInstanceAs (Decidable (_ → _ ∧ (_ → _)))
  | .decide _ => inferInstanceAs (Decidable (∀ _ ∈ _, ∃ _, _))
  | .hand _ => inferInstanceAs (Decidable True)

namespace Sample

/-- A goroutine of a node that makes some steps. -/
def stepsAt (node : Bool) (worker : Worker) (count : Nat) : List (NetworkMove Bool) :=
  List.replicate count (.work node worker)

/-- The transfer that POST /tx submits. -/
def transferBlock : Block :=
  ⟨[5], (transactionHandler Sample.geth web keyStore started (some transferBody)).submitted⟩

/-- A transfer that is sent to one node, decided, and processed by the other node first, while a call
runs on the one. -/
def twoNodes : List (NetworkMove Bool) :=
  stepsAt false .service 6 ++ stepsAt true .service 6 ++
    [.request false 0 (.tx (some transferBody))] ++ stepsAt false (.handler 0) 3 ++ stepsAt false .serve 1 ++
    [.decide transferBlock, .hand true] ++ stepsAt true .serve 5 ++
    [.request false 1 (.call (some transferBody))] ++ stepsAt false (.handler 0) 1 ++
    stepsAt false (.handler 1) 5 ++ [.hand false] ++ stepsAt false .serve 6 ++ stepsAt true .serve 1

theorem two_nodes_agree :
    (Network.after Sample.geth web (fun _ : Bool => keyStore) blank plainSetup twoNodes).Agrees
      Sample.geth web (fun _ => keyStore) (fun _ => True)
      ((plainSetup.first Sample.geth blank).getD blank) :=
  Network.network_agrees poolLaws codecLaws blank plainSetup _ (fun _ => 0) (by decide +kernel)

/-- Both nodes have answered. -/
example : ∀ node : Bool, ((Network.after Sample.geth web (fun _ : Bool => keyStore) blank plainSetup
    twoNodes).nodes node).responded.length = 1 := by decide +kernel

end Sample

end EvmBabble
