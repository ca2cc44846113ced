/-
The start of the proxy (`proxy.go`).

`Proxy.Run` starts `Service.Run` in a goroutine and serves blocks in its own. The two share the state
behind its mutex, so a run of them is a schedule of `Library.Mutex`, with `CreateAccounts` and
`ProcessBlock` as its sections; nothing orders the one before the others.

* `blockRoutine_run`, `genesisRoutine_run` — the sections, transaction by transaction and account by
  account, do what the methods do.
* `startup_agrees` — under every schedule, the blocks are answered as if the genesis accounts had been
  created before them, when there is no genesis file or every block that takes the mutex before
  `CreateAccounts` is refused at once with and without the genesis accounts.
-/

import EvmBabble.Library.Mutex
import EvmBabble.State.Recovery
import EvmBabble.State.Rejected

namespace EvmBabble

open Library

variable {World : Type} (geth : Geth World)

/-! ### The sections -/

/-- `commit` as the end of a section. -/
def commitRoutine : Routine (State World) (Outcome Hash) :=
  .step (fun s => (s.commit geth).1) fun s => .done (s.commit geth).2

/-- `ProcessBlock` under the mutex, one transaction after another. -/
def blockRoutine (blockHash : Hash) : Nat → List Bytes → Routine (State World) (Outcome Hash)
  | _, [] => commitRoutine geth
  | txIndex, txBytes :: rest =>
    .step (fun s => { s with was := (applyTransaction geth s.was txBytes txIndex blockHash).1 })
      fun s => match (applyTransaction geth s.was txBytes txIndex blockHash).2 with
        | .ok () => blockRoutine blockHash (txIndex + 1) rest
        | .error failure => .done (.error failure)
        | .panic => .done .panic

/-- `CreateAccounts` under the mutex, one account after another. -/
def genesisRoutine : AccountMap → Routine (State World) (Outcome Hash)
  | [] => commitRoutine geth
  | entry :: rest =>
    .step (fun s => s.withAccounts
        ((createAccount geth s.was.ethState.accounts entry).getD s.was.ethState.accounts))
      fun s => match createAccount geth s.was.ethState.accounts entry with
        | some _ => genesisRoutine rest
        | none => .done .panic

def operationRoutine : Operation → Routine (State World) (Outcome Hash)
  | .createAccounts accounts => genesisRoutine geth accounts
  | .processBlock block => blockRoutine geth (.ofBytes 32 block.hash) 0 block.transactions

theorem blockRoutine_run (blockHash : Hash) (txIndex : Nat) (transactions : List Bytes)
    (s : State World) :
    (blockRoutine geth blockHash txIndex transactions).run s =
      match (applyTransactions geth blockHash s.was txIndex transactions).2 with
      | .ok () => State.commit geth
          { s with was := (applyTransactions geth blockHash s.was txIndex transactions).1 }
      | .error failure =>
          ({ s with was := (applyTransactions geth blockHash s.was txIndex transactions).1 },
            .error failure)
      | .panic =>
          ({ s with was := (applyTransactions geth blockHash s.was txIndex transactions).1 },
            .panic) := by
  induction transactions generalizing s txIndex with
  | nil => rfl
  | cons txBytes rest ih =>
    rw [applyTransactions_cons, continueBlock, blockRoutine, Routine.run]
    rcases applyTransaction geth s.was txBytes txIndex blockHash with ⟨next, _ | _ | _⟩
    · exact ih (txIndex + 1) { s with was := next }
    · rfl
    · rfl

theorem genesisRoutine_run (accounts : AccountMap) (s : State World) :
    (genesisRoutine geth accounts).run s = s.createAccounts geth accounts := by
  induction accounts generalizing s with
  | nil => rfl
  | cons entry rest ih =>
    rw [genesisRoutine, Routine.run]
    unfold State.createAccounts createAccountsLoop
    cases created : createAccount geth s.was.ethState.accounts entry with
    | none => rfl
    | some next => exact ih (s.withAccounts next)

/-- A section does what its method does. -/
theorem operationRoutine_run (operation : Operation) (s : State World) :
    (operationRoutine geth operation).run s = s.operate geth operation := by
  cases operation with
  | createAccounts accounts => exact genesisRoutine_run geth accounts s
  | processBlock block => exact blockRoutine_run geth _ 0 block.transactions s

/-! ### The two goroutines -/

inductive Goroutine
  | service
  | serve
deriving DecidableEq

/-- What `Service.Run` meets: whether the key store is made and unlocked, and what `genesis.json`
holds; the file may be absent or unreadable. -/
structure Setup where
  keyStore : Bool
  unlocked : Bool
  genesis : Except Unit (Option AccountMap)

/-- `Service.Run` up to its API; `checkErr` exits at the first error. -/
def Setup.serviceRun (setup : Setup) : List (Action Operation) :=
  if setup.keyStore then
    .idle :: if setup.unlocked then
      .idle :: match setup.genesis with
        | .error () => [.exit]
        | .ok none => []
        | .ok (some accounts) => [.locked (.createAccounts accounts)]
    else [.exit]
  else [.exit]

/-- `Proxy.Serve`: a block is received, processed and responded to. -/
def serveLoop (blocks : List Block) : List (Action Operation) :=
  blocks.flatMap fun block => [.idle, .locked (.processBlock block), .idle]

/-- An error of `CreateAccounts` exits, and a panic in either goroutine crashes the process. -/
def halts : Goroutine → Outcome Hash → Bool
  | .service, outcome => !outcome.isOk
  | .serve, .ok _ => false
  | .serve, .error _ => false
  | .serve, .panic => true

/-- The process after a schedule of the two goroutines. -/
def proxyRun (s : State World) (setup : Setup) (blocks : List Block) (moves : List Goroutine) :
    Process Goroutine Operation (State World) (Outcome Hash) :=
  (Process.start s fun
    | .service => setup.serviceRun
    | .serve => serveLoop blocks).schedule (operationRoutine geth) halts moves

/-- The state root of an answer: there is none behind an error. -/
def answeredRoot : Outcome Hash → Option Hash
  | .ok root => some root
  | .error _ => none
  | .panic => none

/-- The node once `Service.Run` has created the genesis accounts, if it comes so far. -/
def Setup.first (setup : Setup) (s : State World) : Option (State World) :=
  if setup.keyStore && setup.unlocked then
    match setup.genesis with
    | .error () => none
    | .ok none => some s
    | .ok (some accounts) =>
      if (s.createAccounts geth accounts).2.isOk then some (s.createAccounts geth accounts).1
      else none
  else none

/-- The answers when the genesis accounts are created before the first block. -/
def reference (s : State World) (setup : Setup) (blocks : List Block) : List (Outcome Hash) :=
  match setup.first geth s with
  | none => []
  | some first => (run (fun s block => s.processBlock geth block) first blocks).2

/-- The property of the start: the blocks answered so far have the roots of the reference. -/
def StartupAgrees (s : State World) (setup : Setup) (blocks : List Block)
    (moves : List Goroutine) : Prop :=
  (ofThread .serve (proxyRun geth s setup blocks moves).returned).map answeredRoot <+:
    (reference geth s setup blocks).map answeredRoot

/-- The blocks that took the mutex before `CreateAccounts`. -/
def earlyBlocks : List (Goroutine × Operation) → List Block
  | [] => []
  | (.serve, .processBlock block) :: rest => block :: earlyBlocks rest
  | (.serve, .createAccounts _) :: rest => earlyBlocks rest
  | (.service, _) :: _ => []

/-- There is no genesis file, or each early block is refused at once, before the genesis accounts
are there and after. -/
def EarlyRefused (s : State World) (setup : Setup) (blocks : List Block)
    (moves : List Goroutine) : Prop :=
  (setup.keyStore = true ∧ setup.unlocked = true ∧ setup.genesis = .ok none) ∨
    ∀ block ∈ earlyBlocks (proxyRun geth s setup blocks moves).entered,
      RefusedAtOnce geth s block ∧
        ∃ first, setup.first geth s = some first ∧ RefusedAtOnce geth first block

/-! ### The order of the sections -/

section Orders

/-- Sections of `Proxy.Serve` only. -/
theorem serve_only {list : List (Goroutine × Operation)} (none : ofThread .service list = []) :
    list = (ofThread .serve list).map (Prod.mk .serve) := by
  induction list with
  | nil => rfl
  | cons pair rest ih =>
    obtain ⟨_ | _, operation⟩ := pair
    · simp [ofThread] at none
    · have later : ofThread Goroutine.service rest = [] := by simpa [ofThread] using none
      have split : ofThread Goroutine.serve ((.serve, operation) :: rest) =
          operation :: ofThread Goroutine.serve rest := by simp [ofThread]
      rw [split, List.map_cons, ← ih later]

/-- One section of `Service.Run` among those of `Proxy.Serve`. -/
theorem serve_around {list : List (Goroutine × Operation)} {operation : Operation}
    (one : ofThread .service list = [operation]) :
    ∃ before after, list =
        before.map (Prod.mk .serve) ++ (.service, operation) :: after.map (Prod.mk .serve) ∧
      ofThread .serve list = before ++ after := by
  induction list with
  | nil => cases one
  | cons pair rest ih =>
    obtain ⟨_ | _, found⟩ := pair
    · have split : ofThread Goroutine.service ((.service, found) :: rest) =
          found :: ofThread Goroutine.service rest := by simp [ofThread]
      rw [split] at one
      obtain ⟨rfl, later⟩ := List.cons.inj one
      exact ⟨[], _, congrArg _ (serve_only later), by simp [ofThread]⟩
    · have later : ofThread Goroutine.service rest = [operation] := by simpa [ofThread] using one
      obtain ⟨before, after, shape, served⟩ := ih later
      refine ⟨found :: before, after, by rw [shape]; rfl, ?_⟩
      have split : ofThread Goroutine.serve ((.serve, found) :: rest) =
          found :: ofThread Goroutine.serve rest := by simp [ofThread]
      rw [split, served]
      rfl

theorem ofThread_service {β : Type} (value : β) (list : List (Goroutine × β)) :
    ofThread .serve ((.service, value) :: list) = ofThread .serve list := by
  simp [ofThread]

theorem earlyBlocks_served (blocks : List Block) (rest : List (Goroutine × Operation)) :
    earlyBlocks ((blocks.map Operation.processBlock).map (Prod.mk .serve) ++ rest) =
      blocks ++ earlyBlocks rest := by
  induction blocks with
  | nil => rfl
  | cons block blocks ih => exact congrArg (block :: ·) ih

theorem lockedLabels_serveLoop (blocks : List Block) :
    lockedLabels (serveLoop blocks) = blocks.map Operation.processBlock := by
  induction blocks with
  | nil => rfl
  | cons block blocks ih => exact congrArg (Operation.processBlock block :: ·) ih

end Orders

/-! ### Blocks that are refused at once -/

section Refusals

variable {geth}

theorem refused_congr {first second : State World} (same : first.plain = second.plain)
    {block : Block} (refused : RefusedAtOnce geth first block) : RefusedAtOnce geth second block := by
  have plain : RefusedAtOnce geth first.plain block := refused
  rw [same] at plain
  exact plain

/-- Blocks that are refused at once get no root and leave the state as it was. -/
theorem refused_run (admission : geth.AdmissionLaws) (setters : geth.SetterLaws) (s : State World)
    (blocks : List Block) (refused : ∀ block ∈ blocks, RefusedAtOnce geth s block) :
    (run (fun s block => s.processBlock geth block) s blocks).1.plain = s.plain ∧
      (run (fun s block => s.processBlock geth block) s blocks).2.map answeredRoot =
        blocks.map fun _ => none := by
  induction blocks generalizing s with
  | nil => exact ⟨rfl, rfl⟩
  | cons block blocks ih =>
    obtain ⟨same, failure, failed⟩ :=
      processBlock_refused admission setters (refused block List.mem_cons_self)
    obtain ⟨ends, roots⟩ := ih (s.processBlock geth block).1 fun later member =>
      refused_congr same.symm (refused later (List.mem_cons_of_mem _ member))
    rw [run_cons]
    refine ⟨ends.trans same, ?_⟩
    rw [List.map_cons, List.map_cons, roots, failed]
    rfl

theorem blocks_congr {first second : State World} (same : first.plain = second.plain)
    (blocks : List Block) : (run (fun s block => s.processBlock geth block) first blocks).2 =
      (run (fun s block => s.processBlock geth block) second blocks).2 := by
  induction blocks generalizing first second with
  | nil => rfl
  | cons block blocks ih =>
    obtain ⟨states, outcomes⟩ := processBlock_congr geth same block
    rw [run_cons, run_cons, outcomes, ih states]

/-- Sections of blocks are the blocks. -/
theorem blocks_operations (s : State World) (blocks : List Block) :
    run (fun s operation => (operationRoutine geth operation).run s) s
        (blocks.map Operation.processBlock) =
      run (fun s block => s.processBlock geth block) s blocks := by
  induction blocks generalizing s with
  | nil => rfl
  | cons block blocks ih =>
    rw [List.map_cons, run_cons, run_cons, operationRoutine_run, ih]
    rfl

end Refusals

/-! ### Schedules -/

/-- The sections of `Service.Run`. -/
theorem serviceRun_labels (setup : Setup) : lockedLabels setup.serviceRun = [] ∨
    ∃ accounts, setup.keyStore = true ∧ setup.unlocked = true ∧
      setup.genesis = .ok (some accounts) ∧
      lockedLabels setup.serviceRun = [.createAccounts accounts] := by
  unfold Setup.serviceRun
  split
  · next made =>
    split
    · next unlocked =>
      split
      · exact Or.inl rfl
      · exact Or.inl rfl
      · next accounts found => exact Or.inr ⟨accounts, made, unlocked, found, rfl⟩
    · exact Or.inl rfl
  · exact Or.inl rfl

variable {geth}

/-- A schedule in which `CreateAccounts` has not taken the mutex. -/
theorem agrees_before (admission : geth.AdmissionLaws) (setters : geth.SetterLaws)
    {s : State World} {setup : Setup} {blocks listed : List Block} (within : listed <+: blocks)
    (absent : setup.first geth s = some s ∨ ∀ block ∈ listed,
      RefusedAtOnce geth s block ∧
        ∃ first, setup.first geth s = some first ∧ RefusedAtOnce geth first block) :
    (run (fun s block => s.processBlock geth block) s listed).2.map answeredRoot <+:
      (reference geth s setup blocks).map answeredRoot := by
  unfold reference
  rcases absent with same | early
  · rw [same]
    exact (prefix_run _ s within).map _
  · cases listed with
    | nil => exact List.nil_prefix
    | cons block rest =>
      obtain ⟨-, first, found, -⟩ := early block List.mem_cons_self
      rw [found, (refused_run admission setters s _ fun later member => (early later member).1).2,
        ← (refused_run admission setters first _ fun later member => by
          obtain ⟨-, other, same, refused⟩ := early later member
          rw [found] at same
          cases same
          exact refused).2]
      exact (prefix_run _ first within).map _

/-- The node after the genesis accounts, with a key store, its accounts and a genesis file. -/
theorem first_created (geth : Geth World) (s : State World) {setup : Setup} {accounts : AccountMap}
    (made : setup.keyStore = true) (unlocked : setup.unlocked = true)
    (genesis : setup.genesis = .ok (some accounts)) : setup.first geth s =
      if (s.createAccounts geth accounts).2.isOk then some (s.createAccounts geth accounts).1
      else none := by
  rw [Setup.first, made, unlocked, genesis]
  rfl

/-- The roots of blocks that were refused before the genesis accounts and of the ones after them. -/
theorem agrees_after (admission : geth.AdmissionLaws) (setters : geth.SetterLaws)
    {s first middle : State World} {setup : Setup} {blocks before after : List Block}
    (within : before ++ after <+: blocks) (found : setup.first geth s = some first)
    (early : ∀ block ∈ before, RefusedAtOnce geth s block ∧ RefusedAtOnce geth first block)
    (same : middle.plain = first.plain) :
    ((run (fun s block => s.processBlock geth block) s before).2 ++
        (run (fun s block => s.processBlock geth block) middle after).2).map answeredRoot <+:
      (reference geth s setup blocks).map answeredRoot := by
  obtain ⟨ends, roots⟩ :=
    refused_run admission setters first before fun block member => (early block member).2
  unfold reference
  rw [found]
  refine List.IsPrefix.trans ?_ ((prefix_run _ first within).map _)
  refine ⟨[], ?_⟩
  rw [List.append_nil, run_append, List.map_append, List.map_append, roots,
    (refused_run admission setters s before fun block member => (early block member).1).2,
    blocks_congr (same.trans ends.symm)]

/-- The sections when `CreateAccounts` takes the mutex between two blocks. -/
theorem run_around (s : State World) (accounts : AccountMap) (before after : List Block) :
    (run (serve (operationRoutine geth)) s
        ((before.map Operation.processBlock).map (Prod.mk Goroutine.serve) ++
          (.service, .createAccounts accounts) ::
            (after.map Operation.processBlock).map (Prod.mk Goroutine.serve))).2 =
      let reached := (run (fun s block => s.processBlock geth block) s before).1
      (run (fun s block => s.processBlock geth block) s before).2.map (Prod.mk Goroutine.serve) ++
        (.service, (reached.createAccounts geth accounts).2) ::
          (run (fun s block => s.processBlock geth block)
            (reached.createAccounts geth accounts).1 after).2.map (Prod.mk Goroutine.serve) := by
  rw [run_append, run_serve_thread, blocks_operations, run_cons, run_serve_thread,
    blocks_operations]
  unfold serve
  rw [operationRoutine_run]
  rfl

/-- The process while `CreateAccounts` has not taken the mutex. -/
theorem agrees_unentered (admission : geth.AdmissionLaws) (setters : geth.SetterLaws)
    {s : State World} {setup : Setup} {blocks : List Block}
    {entered : List (Goroutine × Operation)} {returned : List (Goroutine × Outcome Hash)}
    (inOrder : ofThread .serve entered <+: blocks.map Operation.processBlock)
    (values : returned <+: (run (serve (operationRoutine geth)) s entered).2)
    (created : ofThread .service entered = [])
    (early : setup.first geth s = some s ∨ ∀ block ∈ earlyBlocks entered,
      RefusedAtOnce geth s block ∧
        ∃ first, setup.first geth s = some first ∧ RefusedAtOnce geth first block) :
    (ofThread .serve returned).map answeredRoot <+:
      (reference geth s setup blocks).map answeredRoot := by
  obtain ⟨listed, within, served⟩ := List.prefix_map_iff.mp inOrder
  have shape := serve_only created
  rw [served] at shape
  rw [shape, run_serve_thread, blocks_operations] at values
  have answers := (prefix_ofThread Goroutine.serve values).map answeredRoot
  rw [ofThread_map] at answers
  refine answers.trans (agrees_before admission setters within ?_)
  rcases early with same | refused
  · exact Or.inl same
  · rw [shape, ← List.append_nil (List.map _ _), earlyBlocks_served] at refused
    exact Or.inr fun block member => refused block (List.mem_append_left _ member)

/-- The process once `CreateAccounts` has taken the mutex. -/
theorem agrees_entered (admission : geth.AdmissionLaws) (setters : geth.SetterLaws)
    {s : State World} {setup : Setup} {blocks : List Block} {accounts : AccountMap}
    {p : Process Goroutine Operation (State World) (Outcome Hash)}
    (inOrder : ofThread .serve p.entered <+: blocks.map Operation.processBlock)
    (values : p.returned <+: (run (serve (operationRoutine geth)) s p.entered).2)
    (last : EndsLast halts p)
    (first : setup.first geth s =
      if (s.createAccounts geth accounts).2.isOk then some (s.createAccounts geth accounts).1
      else none)
    (created : ofThread .service p.entered = [.createAccounts accounts])
    (early : ∀ block ∈ earlyBlocks p.entered, RefusedAtOnce geth s block ∧
      ∃ first, setup.first geth s = some first ∧ RefusedAtOnce geth first block) :
    (ofThread .serve p.returned).map answeredRoot <+:
      (reference geth s setup blocks).map answeredRoot := by
  obtain ⟨listed, within, served⟩ := List.prefix_map_iff.mp inOrder
  obtain ⟨front, back, shape, split⟩ := serve_around created
  obtain ⟨before, after, rfl, rfl, rfl⟩ := List.map_eq_append_iff.mp (served.symm.trans split)
  rw [shape, run_around] at values
  have refused : ∀ block ∈ before, RefusedAtOnce geth s block ∧
      ∃ first, setup.first geth s = some first ∧ RefusedAtOnce geth first block := by
    rw [shape, earlyBlocks_served] at early
    exact fun block member => early block (List.mem_append_left _ member)
  have kept := (refused_run admission setters s before fun block member =>
    (refused block member).1).1
  obtain ⟨states, outcomes⟩ := createAccounts_congr geth kept accounts
  by_cases ok : (s.createAccounts geth accounts).2.isOk = true
  · rw [if_pos ok] at first
    have answers := (prefix_ofThread Goroutine.serve values).map answeredRoot
    rw [ofThread_append, ofThread_map, ofThread_service, ofThread_map] at answers
    refine answers.trans (agrees_after admission setters within first (fun block member => ?_)
      states)
    obtain ⟨here, other, found, there⟩ := refused block member
    rw [first] at found
    cases found
    exact ⟨here, there⟩
  · -- the process has ended, and no block was answered before
    rw [if_neg ok] at first
    have alone : before = [] := List.eq_nil_iff_forall_not_mem.mpr fun block member => by
      obtain ⟨-, other, found, -⟩ := refused block member
      rw [first] at found
      cases found
    have ends := last.prefix_returned values (by
      show (!Outcome.isOk _) = true
      rw [outcomes]
      simpa using ok)
    have answers := (prefix_ofThread Goroutine.serve ends).map answeredRoot
    rw [ofThread_append, ofThread_map, ofThread_service, alone] at answers
    exact answers.trans List.nil_prefix

/-- **The start does not matter when the early blocks are refused anyway.** -/
theorem startup_agrees (admission : geth.AdmissionLaws) (setters : geth.SetterLaws)
    (s : State World) (setup : Setup) (blocks : List Block) (moves : List Goroutine)
    (early : EarlyRefused geth s setup blocks moves) : StartupAgrees geth s setup blocks moves := by
  unfold StartupAgrees
  unfold EarlyRefused at early
  have serial := serialized (operationRoutine geth) halts s
    (fun | .service => setup.serviceRun | .serve => serveLoop blocks) moves
  have ordered := projection (operationRoutine geth) halts s
    (fun | .service => setup.serviceRun | .serve => serveLoop blocks) moves
  have last := ends_last (operationRoutine geth) halts s
    (fun | .service => setup.serviceRun | .serve => serveLoop blocks) moves
  change Serial _ s (proxyRun geth s setup blocks moves) at serial
  change InOrder _ (proxyRun geth s setup blocks moves) at ordered
  change EndsLast halts (proxyRun geth s setup blocks moves) at last
  generalize proxyRun geth s setup blocks moves = p at early serial ordered last ⊢
  have values := serial.prefix_returned
  -- the blocks take the mutex in their order, and of `Service.Run` at most `CreateAccounts` does
  have inOrder : ofThread .serve p.entered <+: blocks.map Operation.processBlock := by
    have whole := ordered .serve
    rw [lockedLabels_serveLoop] at whole
    exact ⟨_, whole⟩
  have service : ofThread .service p.entered ++ _ = lockedLabels setup.serviceRun := ordered .service
  cases created : ofThread .service p.entered with
  | nil =>
    refine agrees_unentered admission setters inOrder values created ?_
    rcases early with ⟨made, unlocked, absent⟩ | refused
    · refine Or.inl ?_
      rw [Setup.first, made, unlocked, absent]
      rfl
    · exact Or.inr refused
  | cons operation rest =>
    rw [created] at service
    rcases serviceRun_labels setup with none | ⟨accounts, made, unlocked, genesis, one⟩
    · rw [none] at service
      cases service
    rw [one] at service
    obtain ⟨rfl, tail⟩ := List.cons.inj service
    rw [(List.append_eq_nil_iff.mp tail).1] at created
    refine agrees_entered admission setters inOrder values last
      (first_created geth s made unlocked genesis) created ?_
    rcases early with ⟨-, -, absent⟩ | refused
    · rw [genesis] at absent
      cases absent
    · exact refused

/-! ### Starts of the small chain -/

namespace Sample

def plainSetup : Setup := ⟨true, true, .ok (some genesis)⟩

/-- The first block is processed before the service comes to the genesis accounts. -/
def blockFirst : List Goroutine :=
  List.replicate 4 .serve ++ List.replicate 6 .service

/-- Alice's payment fails when it comes before her money. -/
theorem payment_first_disagrees :
    ¬ StartupAgrees Sample.geth blank plainSetup [payment] blockFirst := by
  unfold StartupAgrees
  decide +kernel

/-- A block that holds no transaction at all. -/
def garbled : Block := ⟨[5], [[]]⟩

theorem garbled_first_agrees : StartupAgrees Sample.geth blank plainSetup [garbled, payment]
    (blockFirst ++ List.replicate 8 .serve) := by
  refine startup_agrees admissionLaws setterLaws blank plainSetup _ _ (Or.inr ?_)
  have early : earlyBlocks (proxyRun Sample.geth blank plainSetup [garbled, payment]
      (blockFirst ++ List.replicate 8 .serve)).entered = [garbled] := by decide +kernel
  rw [early]
  intro block member
  rw [List.mem_singleton.mp member]
  exact ⟨by decide +kernel, started,
    (first_created _ _ rfl rfl rfl).trans (if_pos (by decide +kernel)), by decide +kernel⟩

example : ofThread .serve (proxyRun Sample.geth blank plainSetup [garbled, payment]
    (blockFirst ++ List.replicate 8 .serve)).returned =
      [.error .decodingTransaction,
        .ok (root (started.processBlock Sample.geth payment).1.statedb.accounts)] := by
  decide +kernel

end Sample

end EvmBabble
