/-
Restarts.

Every start of the service runs `NewState` on the existing database and then `CreateAccounts` with the
same genesis file, which adds each balance again and writes code and slots over what the chain made of
them. A restart changes nothing only when the genesis file has nothing to add: `Settled`.

* `createAccountsLoop_settled` — settled entries leave the account state as it is, but for empty
  accounts, which the commit removes.
* `Running` — what accepted blocks and such restarts keep: the database leads to the committed root
  whenever it leads anywhere.
* `restarts_neutral` — in a run whose restarts are all settled, every account is after a restart what
  it was before, and every block is answered as by a node that never restarted.
-/

import EvmBabble.State.Recovery

namespace EvmBabble

open Library

variable {World : Type} (geth : Geth World)

/-! ### Settled genesis entries -/

/-- A genesis entry that adds nothing: no balance, the code the account has, the slots it has. -/
def EntrySettled (accounts : World) (entry : String × GenesisAccount) : Prop :=
  geth.parseBig256 entry.2.balance = some 0 ∧
    geth.hex2Bytes entry.2.code = (geth.account accounts (geth.hexToAddress entry.1)).code ∧
    ∀ slot ∈ entry.2.storage, geth.hexToHash slot.2 =
      (geth.account accounts (geth.hexToAddress entry.1)).storage (geth.hexToHash slot.1)

/-- A genesis file with settled entries only. -/
def Settles (accounts : World) (genesis : AccountMap) : Prop :=
  ∀ entry ∈ genesis, EntrySettled geth accounts entry

instance (accounts : World) (entry : String × GenesisAccount) :
    Decidable (EntrySettled geth accounts entry) := inferInstanceAs (Decidable (_ ∧ _ ∧ _))

instance (accounts : World) (genesis : AccountMap) : Decidable (Settles geth accounts genesis) :=
  inferInstanceAs (Decidable (∀ _ ∈ _, _))

/-- Account states that read alike and become one when their empty accounts are removed. -/
def Alike (one two : World) : Prop :=
  geth.account one = geth.account two ∧ geth.finalise one = geth.finalise two

section Settled

variable {geth} {left accounts : World}

/-- Making an account that is not there shows nowhere. -/
theorem Alike.getOrNew (laws : geth.ObjectLaws) (alike : Alike geth left accounts)
    (address : Address) : Alike geth (geth.getOrNewStateObject left address) accounts :=
  ⟨(laws.account_getOrNew left address).trans alike.1,
    (laws.finalise_getOrNew left address).trans alike.2⟩

theorem setStorage_settled (laws : geth.SetterLaws) (address : Address)
    (storage : List (String × String)) (alike : Alike geth left accounts)
    (settled : ∀ slot ∈ storage, geth.hexToHash slot.2 =
      (geth.account accounts address).storage (geth.hexToHash slot.1)) :
    Alike geth (setStorage geth address left storage) accounts := by
  induction storage generalizing left with
  | nil => exact alike
  | cons slot rest ih =>
    show Alike geth (setStorage geth address (geth.setState left address _ _) rest) accounts
    rw [settled slot List.mem_cons_self, ← alike.1, laws.setState_same]
    exact ih (alike.getOrNew laws.toObjectLaws address) fun later member =>
      settled later (List.mem_cons_of_mem _ member)

theorem createAccount_settled (laws : geth.SetterLaws) {entry : String × GenesisAccount}
    (alike : Alike geth left accounts) (settled : EntrySettled geth accounts entry) :
    ∃ next, createAccount geth left entry = some next ∧ Alike geth next accounts := by
  obtain ⟨balance, code, slots⟩ := settled
  have made := alike.getOrNew laws.toObjectLaws (geth.hexToAddress entry.1)
  unfold createAccount
  dsimp only
  rw [balance, Option.map_some, laws.addBalance_zero, code, ← made.1, laws.setCode_same]
  exact ⟨_, rfl, setStorage_settled laws _ _ (made.getOrNew laws.toObjectLaws _) slots⟩

/-- Settled entries leave the account state as it is, but for empty accounts. -/
theorem createAccountsLoop_settled (laws : geth.SetterLaws) {genesis : AccountMap}
    (alike : Alike geth left accounts) (settled : Settles geth accounts genesis) :
    ∃ last, createAccountsLoop geth left genesis = (last, true) ∧ Alike geth last accounts := by
  induction genesis generalizing left with
  | nil => exact ⟨left, rfl, alike⟩
  | cons entry rest ih =>
    obtain ⟨next, created, later⟩ :=
      createAccount_settled laws alike (settled entry List.mem_cons_self)
    rw [createAccountsLoop, created]
    exact ih later fun other member => settled other (List.mem_cons_of_mem _ member)

end Settled

/-! ### Blocks and restarts -/

inductive Event
  | block (block : Block)
  | restart (genesis : AccountMap)

namespace State

variable (s : State World)

/-- A start of the service on the node's own database. -/
def restart (genesis : AccountMap) : State World × Outcome Hash :=
  match newState geth s.db with
  | .error failure => (s, .error failure)
  | .ok opened => opened.createAccounts geth genesis

def meet : Event → State World × Outcome Hash
  | .block block => s.processBlock geth block
  | .restart genesis => s.restart geth genesis

end State

/-- A node after its first start: genesis accounts on an empty database. -/
def Started (s : State World) : Prop :=
  ∃ opened genesis root, newState geth Store.empty = .ok opened ∧
    (opened.createAccounts geth genesis).2 = .ok root ∧ s = (opened.createAccounts geth genesis).1

/-- An accepted block, or a restart at a point where the database opens: its committed root can be
opened, and the genesis file is settled there. -/
def MeetsSettled (s : State World) : Event → Prop
  | .block block => (s.processBlock geth block).2.isOk = true
  | .restart genesis =>
    (newState geth s.db).isOk = true ∧ Reopens geth s ∧ Settles geth s.statedb.accounts genesis

instance [DecidableEq World] (s : State World) (event : Event) :
    Decidable (MeetsSettled geth s event) :=
  match event with
  | .block _ => inferInstanceAs (Decidable (_ = true))
  | .restart _ => inferInstanceAs (Decidable (_ ∧ _ ∧ _))

/-- A restart after which every account is what it was before. -/
def LedgerKept (s : State World) : Event → Prop
  | .block _ => True
  | .restart genesis => ∀ address,
    geth.account (s.restart geth genesis).1.statedb.accounts address =
      geth.account s.statedb.accounts address

def isRestart (_ : State World) : Event → Bool
  | .block _ => false
  | .restart _ => true

/-- The property of restarts: they keep every account, and the blocks are answered as without them. -/
def RestartsNeutral (s : State World) (events : List Event) : Prop :=
  Along (State.meet geth) (LedgerKept geth) s events ∧
    visibleAnswers (State.meet geth) isRestart s events =
      (run (State.meet geth) s (visibleInputs (State.meet geth) isRestart s events)).2

/-- What accepted blocks and settled restarts keep. -/
structure Running (s : State World) : Prop where
  kept : Kept geth s
  finalised : geth.finalise s.statedb.accounts = s.statedb.accounts
  headed : ∀ root, headRoot geth s.db = .ok root → root = geth.root s.statedb.accounts

section Steps

variable {geth} {s : State World}

theorem createAccounts_running (codec : geth.CodecLaws) (trie : geth.TrieLaws)
    (pool : geth.PoolLaws) (apart : geth.SignedApart) (kept : Kept geth s) {genesis : AccountMap}
    {root : Hash} (accepted : (s.createAccounts geth genesis).2 = .ok root) :
    Running geth (s.createAccounts geth genesis).1 := by
  refine ⟨operate_kept pool codec trie s (.createAccounts genesis) kept
    (Outcome.isOk_iff.mpr ⟨root, accepted⟩), ?_, fun other headed => ?_⟩
  · obtain ⟨created, ran⟩ := State.createAccounts_accepted accepted
    rw [kept.fresh] at ran
    rw [createAccounts_eq codec kept.fresh ran]
    exact trie.finalise_finalise created
  · rw [createAccounts_headRoot codec trie apart kept accepted] at headed
    cases headed

theorem started_running (pool : geth.PoolLaws) (codec : geth.CodecLaws) (trie : geth.TrieLaws)
    (apart : geth.SignedApart) (started : Started geth s) : Running geth s := by
  obtain ⟨opened, genesis, root, empty, accepted, rfl⟩ := started
  exact createAccounts_running codec trie pool apart (newState_kept empty) accepted

theorem block_running (pool : geth.PoolLaws) (codec : geth.CodecLaws) (trie : geth.TrieLaws)
    (apart : geth.SignedApart) (running : Running geth s) {block : Block} {root : Hash}
    (accepted : (s.processBlock geth block).2 = .ok root) :
    Running geth (s.processBlock geth block).1 := by
  obtain ⟨steps, folded⟩ :=
    (processBlock_accepted_iff pool codec trie running.kept.fresh).mp ⟨root, accepted⟩
  refine ⟨operate_kept pool codec trie s (.processBlock block) running.kept
    (Outcome.isOk_iff.mpr ⟨root, accepted⟩), ?_, fun other headed => ?_⟩
  · rw [(settled pool codec trie running.kept.fresh folded).accounts]
    exact trie.finalise_finalise _
  · by_cases empty : block.transactions = []
    · rw [emptyBlock_headRoot pool codec trie apart running.kept empty] at headed
      cases headed
    · obtain ⟨found, same⟩ := block_headRoot pool codec trie running.kept.fresh empty accepted
      exact (Except.ok.inj (headed.symm.trans found)).trans same

/-- **A settled restart**: the same account state, on a fresh write-ahead state. -/
theorem restart_settled (pool : geth.PoolLaws) (codec : geth.CodecLaws) (trie : geth.TrieLaws)
    (setters : geth.SetterLaws) (apart : geth.SignedApart) (running : Running geth s)
    {genesis : AccountMap} (meets : MeetsSettled geth s (.restart genesis)) :
    (s.restart geth genesis).1.statedb.accounts = s.statedb.accounts ∧
      Running geth (s.restart geth genesis).1 := by
  obtain ⟨opens, reopens, settled⟩ := meets
  cases found : newState geth s.db with
  | error failure =>
    rw [found] at opens
    cases opens
  | ok opened =>
    obtain ⟨root, accounts, headed, read, rfl⟩ := newState_some found
    have same : accounts = s.statedb.accounts := by
      rw [running.headed root headed] at read
      exact Option.some.inj (read.symm.trans reopens)
    have kept : Kept geth ⟨s.db, .ofAccounts accounts, .fresh (.ofAccounts accounts)⟩ :=
      ⟨rfl, running.kept.receipts⟩
    obtain ⟨last, ran, alike⟩ := createAccountsLoop_settled setters ⟨rfl, rfl⟩ settled
    rw [← same] at ran
    have created := createAccounts_eq codec kept.fresh ran
    unfold State.restart
    rw [found]
    refine ⟨?_, createAccounts_running codec trie pool apart kept (by rw [created])⟩
    dsimp only
    rw [created]
    exact alike.2.trans running.finalised

/-- A block is answered from the account state alone. -/
theorem processBlock_accounts (pool : geth.PoolLaws) (codec : geth.CodecLaws)
    (trie : geth.TrieLaws) {other : State World} (fresh : s.was = .fresh s.statedb)
    (otherFresh : other.was = .fresh other.statedb)
    (same : s.statedb.accounts = other.statedb.accounts) {block : Block} {root : Hash}
    (accepted : (s.processBlock geth block).2 = .ok root) :
    (s.processBlock geth block).1.statedb.accounts =
        (other.processBlock geth block).1.statedb.accounts ∧
      (other.processBlock geth block).2 = .ok root := by
  obtain ⟨steps, folded⟩ := (processBlock_accepted_iff pool codec trie fresh).mp ⟨root, accepted⟩
  have alike : other.blockSteps geth block = .ok steps := by
    rw [← folded, State.blockSteps, State.blockSteps, same]
  rw [processBlock_steps pool codec trie fresh folded] at accepted ⊢
  rw [processBlock_steps pool codec trie otherFresh alike, ← same]
  exact ⟨rfl, accepted⟩

end Steps

/-! ### Runs -/

variable {geth}

/-- What one event of such a run shows and keeps. -/
theorem meet_running (pool : geth.PoolLaws) (codec : geth.CodecLaws) (trie : geth.TrieLaws)
    (setters : geth.SetterLaws) (apart : geth.SignedApart) (s : State World) (event : Event)
    (running : Running geth s) (meets : MeetsSettled geth s event) :
    LedgerKept geth s event ∧ Running geth (s.meet geth event).1 := by
  cases event with
  | block block =>
    obtain ⟨root, accepted⟩ := Outcome.isOk_iff.mp meets
    exact ⟨trivial, block_running pool codec trie apart running accepted⟩
  | restart genesis =>
    obtain ⟨same, later⟩ := restart_settled pool codec trie setters apart running meets
    exact ⟨fun address => by rw [same], later⟩

/-- **Settled restarts do not change the ledger.** -/
theorem restarts_neutral (pool : geth.PoolLaws) (codec : geth.CodecLaws) (trie : geth.TrieLaws)
    (setters : geth.SetterLaws) (apart : geth.SignedApart) {s : State World}
    (started : Started geth s) (events : List Event)
    (meets : Along (State.meet geth) (MeetsSettled geth) s events) :
    RestartsNeutral geth s events := by
  have running := started_running pool codec trie apart started
  refine ⟨along_invariant _ (Running geth) (meet_running pool codec trie setters apart) running meets, ?_⟩
  refine (erasure (State.meet geth) isRestart
    (fun left right => Running geth left ∧ right.was = .fresh right.statedb ∧
      left.statedb.accounts = right.statedb.accounts)
    (fun left right event alike meets shown => ?_) (fun left right event alike meets shown => ?_)
    s s ⟨running, running.kept.fresh, rfl⟩
    (guarded_of_along _ _ s meets)).1
  · cases event with
    | block block => cases shown
    | restart genesis =>
      obtain ⟨same, later⟩ := restart_settled pool codec trie setters apart alike.1 meets
      exact ⟨later, alike.2.1, same.trans alike.2.2⟩
  · cases event with
    | restart genesis => cases shown
    | block block =>
      obtain ⟨root, accepted⟩ := Outcome.isOk_iff.mp meets
      obtain ⟨same, answered⟩ := processBlock_accounts pool codec trie alike.1.kept.fresh
        alike.2.1 alike.2.2 accepted
      exact ⟨⟨block_running pool codec trie apart alike.1 accepted,
        State.processBlock_fresh answered, same⟩, accepted.trans answered.symm⟩

/-! ### Restarts of the small chain -/

namespace Sample

theorem started_started : Started Sample.geth started :=
  ⟨blank, genesis, root started.statedb.accounts, newState_empty, by decide +kernel, rfl⟩

/-- A restart gives alice her million again. -/
theorem genesis_not_neutral : Started Sample.geth started ∧
    ¬ RestartsNeutral Sample.geth started [.block payment, .restart genesis] := by
  refine ⟨started_started, fun ⟨kept, _⟩ => ?_⟩
  have same := congrArg Account.balance (kept.2.1 alice)
  exact absurd same (by decide +kernel)

/-- A genesis file with a contract and its storage, and no money. -/
def quietGenesis : AccountMap := [("0x03", ⟨"00", [("0x01", "0x07")], "0"⟩)]

def quiet : State Ledger := (blank.createAccounts Sample.geth quietGenesis).1

theorem quiet_neutral : RestartsNeutral Sample.geth quiet
    [.block tip, .restart quietGenesis, .block (blockOf [signed 1 21000 bob 0])] :=
  restarts_neutral poolLaws codecLaws trieLaws setterLaws txHash_signed
    ⟨blank, quietGenesis, root quiet.statedb.accounts, newState_empty, by decide +kernel, rfl⟩ _
    (by decide +kernel)

end Sample

end EvmBabble
