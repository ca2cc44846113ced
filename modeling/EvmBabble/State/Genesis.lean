/-
What the genesis accounts come to.

`CreateAccounts` adds a balance, sets a code and writes slots, entry after entry; read back, the loop
does to every account what its entries say, in their order. Then the commit removes the accounts that
are empty. `Hex2Bytes` knows no prefix, so a code written with one is no code, and an account without
balance and code is removed with its slots.

* `createAccountsLoop_account` — an account after the loop: its entries, one after another.
* `finalised_account` — an account after the commit.
* `genesis_realised_iff` — every account is what its entry lists exactly when no entry writes a code
  behind a prefix, or slots into an account without balance and code.
-/

import EvmBabble.State.Recovery
import EvmBabble.Library.Overwrite

namespace EvmBabble

open Library

variable {World : Type} (geth : Geth World)

/-! ### Endowments -/

/-- What an entry does to an account: a balance to add, a code, and slots in the order in which they
are written. -/
structure Endowment where
  balance : Int
  code : Bytes
  slots : List (Hash × Hash)

/-- The endowment of an entry; a balance that does not parse counts for nothing. -/
def Geth.endowment (entry : GenesisAccount) : Endowment where
  balance := (geth.parseBig256 entry.balance).getD 0
  code := geth.hex2Bytes entry.code
  slots := entry.storage.map fun slot => (geth.hexToHash slot.1, geth.hexToHash slot.2)

/-- The entries of an address. -/
def Geth.entriesAt (address : Address) (accounts : AccountMap) : AccountMap :=
  accounts.filter fun entry => geth.hexToAddress entry.1 = address

def Account.endow (account : Account) (given : Endowment) : Account where
  nonce := account.nonce
  balance := account.balance + given.balance
  code := given.code
  storage := overwrite account.storage given.slots

/-- An account after some entries. -/
def Geth.endowed (account : Account) (entries : AccountMap) : Account :=
  entries.foldl (fun account entry => account.endow (geth.endowment entry.2)) account

/-- Balances that parse. -/
def Parses (accounts : AccountMap) : Prop :=
  ∀ entry ∈ accounts, ∃ balance, geth.parseBig256 entry.2.balance = some balance

section Endowed

variable {geth} (account : Account) (entries : AccountMap)

theorem endowed_nonce : (geth.endowed account entries).nonce = account.nonce := by
  induction entries generalizing account with
  | nil => rfl
  | cons entry rest ih => exact ih _

theorem endowed_balance : (geth.endowed account entries).balance =
    account.balance + (entries.map fun entry => (geth.endowment entry.2).balance).sum := by
  induction entries generalizing account with
  | nil => exact (Int.add_zero _).symm
  | cons entry rest ih =>
    rw [List.map_cons, List.sum_cons, ← Int.add_assoc]
    exact ih _

theorem endowed_code : (geth.endowed account entries).code =
    (entries.map fun entry => (geth.endowment entry.2).code).getLast?.getD account.code := by
  induction entries generalizing account with
  | nil => rfl
  | cons entry rest ih =>
    rw [List.map_cons, List.getLast?_cons, Option.getD_some]
    exact ih _

theorem endowed_storage : (geth.endowed account entries).storage =
    overwrite account.storage (entries.flatMap fun entry => (geth.endowment entry.2).slots) := by
  induction entries generalizing account with
  | nil => rfl
  | cons entry rest ih =>
    rw [List.flatMap_cons, overwrite_append]
    exact ih _

end Endowed

/-! ### The loop -/

section Loop

variable {geth} {gone : World → Address → Prop} (writes : geth.WriteLaws gone)
include writes

theorem setStorage_account (address : Address) (storage : List (String × String)) (accounts : World) :
    geth.account (setStorage geth address accounts storage) =
        Function.update (geth.account accounts) address
          { geth.account accounts address with
            storage := overwrite (geth.account accounts address).storage
              (storage.map fun slot => (geth.hexToHash slot.1, geth.hexToHash slot.2)) } ∧
      gone (setStorage geth address accounts storage) = gone accounts := by
  induction storage generalizing accounts with
  | nil => exact ⟨(Function.update_eq_self _ _).symm, rfl⟩
  | cons slot rest ih =>
    obtain ⟨read, removed⟩ :=
      ih (geth.setState accounts address (geth.hexToHash slot.1) (geth.hexToHash slot.2))
    refine ⟨read.trans ?_, removed.trans (writes.gone_setState _ _ _ _)⟩
    rw [writes.account_setState, Function.update_self, Function.update_idem]
    rfl

/-- One entry, as it reads. -/
theorem createAccount_account {accounts next : World} {entry : String × GenesisAccount}
    (created : createAccount geth accounts entry = some next) :
    geth.account next = Function.update (geth.account accounts) (geth.hexToAddress entry.1)
        ((geth.account accounts (geth.hexToAddress entry.1)).endow (geth.endowment entry.2)) ∧
      gone next = gone accounts := by
  obtain ⟨balance, parsed, rfl⟩ := Option.map_eq_some_iff.mp created
  obtain ⟨read, removed⟩ := setStorage_account writes (geth.hexToAddress entry.1) entry.2.storage
    (geth.setCode (geth.addBalance accounts (geth.hexToAddress entry.1) balance)
      (geth.hexToAddress entry.1) (geth.hex2Bytes entry.2.code))
  refine ⟨read.trans ?_,
    removed.trans ((writes.gone_setCode _ _ _).trans (writes.gone_addBalance _ _ _))⟩
  rw [writes.account_setCode, writes.account_addBalance, Function.update_self,
    Function.update_self, Function.update_idem, Function.update_idem]
  unfold Account.endow Geth.endowment
  rw [parsed, Option.getD_some]

/-- **An account after the loop**: what its entries make of it, one after another. -/
theorem createAccountsLoop_account {accounts created : World} {genesis : AccountMap}
    (ran : createAccountsLoop geth accounts genesis = (created, true)) :
    (∀ address, geth.account created address =
        geth.endowed (geth.account accounts address) (geth.entriesAt address genesis)) ∧
      gone created = gone accounts := by
  induction genesis generalizing accounts with
  | nil =>
    cases ran
    exact ⟨fun address => rfl, rfl⟩
  | cons entry rest ih =>
    rw [createAccountsLoop] at ran
    cases made : createAccount geth accounts entry with
    | none =>
      rw [made] at ran
      cases ran
    | some next =>
      rw [made] at ran
      obtain ⟨read, removed⟩ := createAccount_account writes made
      obtain ⟨reads, later⟩ := ih ran
      refine ⟨fun address => ?_, later.trans removed⟩
      rw [reads, read, Geth.entriesAt, Geth.entriesAt, Function.update_apply]
      by_cases here : geth.hexToAddress entry.1 = address
      · rw [List.filter_cons_of_pos (by simpa using here), if_pos here.symm, here]
        rfl
      · rw [List.filter_cons_of_neg (by simpa using here), if_neg fun same => here same.symm]

omit writes in
/-- The loop runs to its end when every balance parses. -/
theorem createAccountsLoop_ran {genesis : AccountMap} (parses : Parses geth genesis)
    (accounts : World) :
    ∃ created, createAccountsLoop geth accounts genesis = (created, true) := by
  induction genesis generalizing accounts with
  | nil => exact ⟨accounts, rfl⟩
  | cons entry rest ih =>
    obtain ⟨balance, parsed⟩ := parses entry List.mem_cons_self
    obtain ⟨created, ran⟩ := ih (fun later member => parses later (List.mem_cons_of_mem _ member))
      (setStorage geth (geth.hexToAddress entry.1)
        (geth.setCode (geth.addBalance accounts (geth.hexToAddress entry.1) balance)
          (geth.hexToAddress entry.1) (geth.hex2Bytes entry.2.code)) entry.2.storage)
    refine ⟨created, ?_⟩
    rw [createAccountsLoop, createAccount, parsed]
    exact ran

/-- An account after the commit: what is empty or destroyed itself is gone. -/
theorem finalised_account (accounts : World) (address : Address) :
    geth.account (geth.finalise accounts) address = .blank ∧
        (gone accounts address ∨ (geth.account accounts address).empty) ∨
      geth.account (geth.finalise accounts) address = geth.account accounts address ∧
        ¬ gone accounts address ∧ ¬ (geth.account accounts address).empty := by
  by_cases removed : gone accounts address ∨ (geth.account accounts address).empty
  · exact Or.inl ⟨writes.finalise_removed _ _ removed, removed⟩
  · obtain ⟨there, full⟩ := not_or.mp removed
    exact Or.inr ⟨writes.finalise_kept _ _ there full, there, full⟩

end Loop

/-! ### The property -/

/-- An account that holds what an entry lists and nothing else. A code text denotes the bytes of its
digits, written with or without a prefix. -/
structure Lists (entry : GenesisAccount) (account : Account) : Prop where
  nonce : account.nonce = 0
  balance : geth.parseBig256 entry.balance = some account.balance
  code : Hex.denoted entry.code = some account.code
  slots : ∀ slot ∈ entry.storage, account.storage (geth.hexToHash slot.1) = geth.hexToHash slot.2
  unlisted : ∀ key, (∀ slot ∈ entry.storage, geth.hexToHash slot.1 ≠ key) →
    account.storage key = default

/-- A genesis file whose addresses are distinct, whose slots are distinct within each account, and
whose balances and codes are valid. -/
structure ValidGenesis (genesis : AccountMap) : Prop where
  addresses : (genesis.map fun entry => geth.hexToAddress entry.1).Nodup
  slots : ∀ entry ∈ genesis, (entry.2.storage.map fun slot => geth.hexToHash slot.1).Nodup
  balances : ∀ entry ∈ genesis, ∃ balance, geth.parseBig256 entry.2.balance = some balance ∧
    0 ≤ balance ∧ balance < 2 ^ 256
  codes : ∀ entry ∈ genesis, ∃ code, Hex.denoted entry.2.code = some code

/-- The property of a genesis file: it is committed, every listed address holds what its entry lists, and
every other one holds nothing. -/
def Realised (s : State World) (genesis : AccountMap) : Prop :=
  (∃ root, (s.createAccounts geth genesis).2 = .ok root) ∧
    (∀ entry ∈ genesis, Lists geth entry.2
      (geth.account (s.createAccounts geth genesis).1.statedb.accounts (geth.hexToAddress entry.1))) ∧
    ∀ address, (∀ entry ∈ genesis, geth.hexToAddress entry.1 ≠ address) →
      geth.account (s.createAccounts geth genesis).1.statedb.accounts address = .blank

/-- An entry that writes no code behind a prefix, and no slots into an account without balance and
code. -/
def Realisable (entry : GenesisAccount) : Prop :=
  (Hex.Prefixed entry.code → Hex.denoted entry.code = some []) ∧
    (geth.parseBig256 entry.balance = some 0 → Hex.denoted entry.code = some [] →
      ∀ slot ∈ entry.storage, geth.hexToHash slot.2 = default)

instance (entry : GenesisAccount) : Decidable (Realisable geth entry) :=
  inferInstanceAs (Decidable ((_ → _) ∧ (_ → _ → _)))

section Realised

variable {geth} {genesis : AccountMap}

theorem ValidGenesis.parses (valid : ValidGenesis geth genesis) : Parses geth genesis :=
  fun entry member =>
    let ⟨balance, parsed, _⟩ := valid.balances entry member
    ⟨balance, parsed⟩

/-- With distinct addresses, an entry is alone at its address. -/
theorem entriesAt_listed {entry : String × GenesisAccount}
    (distinct : (genesis.map fun entry => geth.hexToAddress entry.1).Nodup)
    (member : entry ∈ genesis) : geth.entriesAt (geth.hexToAddress entry.1) genesis = [entry] := by
  induction genesis with
  | nil => exact absurd member List.not_mem_nil
  | cons first rest ih =>
    obtain ⟨new, later⟩ := List.nodup_cons.mp distinct
    have other : ∀ entry ∈ rest, geth.hexToAddress first.1 ≠ geth.hexToAddress entry.1 :=
      fun entry inside same => new (List.mem_map.mpr ⟨entry, inside, same.symm⟩)
    rw [Geth.entriesAt]
    rcases List.mem_cons.mp member with rfl | inside
    · rw [List.filter_cons_of_pos (by simp), List.filter_eq_nil_iff.mpr]
      intro later inside
      simpa using fun same => other later inside same.symm
    · rw [List.filter_cons_of_neg (by simpa using other entry inside)]
      exact ih later inside

theorem entriesAt_unlisted {address : Address}
    (unlisted : ∀ entry ∈ genesis, geth.hexToAddress entry.1 ≠ address) :
    geth.entriesAt address genesis = [] :=
  List.filter_eq_nil_iff.mpr fun entry member => by simpa using unlisted entry member

/-- The code an entry writes: none behind a prefix, and else what its text denotes. -/
theorem endowment_code (hex : geth.HexLaws) {entry : GenesisAccount} {code : Bytes}
    (denoted : Hex.denoted entry.code = some code) :
    (geth.endowment entry).code = if Hex.Prefixed entry.code then [] else code := by
  show geth.hex2Bytes entry.code = _
  split
  · next prefixed => exact hex.prefixed _ prefixed
  · next plain =>
    rw [Hex.denoted_plain plain] at denoted
    exact hex.plain _ _ denoted

variable {entry : GenesisAccount} {code : Bytes} {balance : Int}

/-- What an entry with distinct slots writes, slot by slot. -/
theorem endow_slots (distinct : (entry.storage.map fun slot => geth.hexToHash slot.1).Nodup) :
    (∀ slot ∈ entry.storage, (Account.blank.endow (geth.endowment entry)).storage
        (geth.hexToHash slot.1) = geth.hexToHash slot.2) ∧
      ∀ key, (∀ slot ∈ entry.storage, geth.hexToHash slot.1 ≠ key) →
        (Account.blank.endow (geth.endowment entry)).storage key = default := by
  constructor
  · intro slot member
    refine overwrite_agreed _ (List.mem_map.mpr ⟨slot, member, rfl⟩) fun write inside same => ?_
    obtain ⟨other, listed, rfl⟩ := List.mem_map.mp inside
    have equal := List.inj_on_of_nodup_map distinct listed member same
    rw [equal]
  · intro key unlisted
    refine overwrite_other _ fun write inside => ?_
    obtain ⟨slot, member, rfl⟩ := List.mem_map.mp inside
    exact unlisted slot member

/-- **What an entry lists is what it writes and the commit keeps**, exactly when it is realisable. -/
theorem lists_iff (hex : geth.HexLaws) (parsed : geth.parseBig256 entry.balance = some balance)
    (denoted : Hex.denoted entry.code = some code)
    (distinct : (entry.storage.map fun slot => geth.hexToHash slot.1).Nodup) {account : Account}
    (committed : account = .blank ∧ (Account.blank.endow (geth.endowment entry)).empty ∨
      account = Account.blank.endow (geth.endowment entry) ∧
        ¬ (Account.blank.endow (geth.endowment entry)).empty) :
    Lists geth entry account ↔ Realisable geth entry := by
  have wrote : (Account.blank.endow (geth.endowment entry)).code =
    if Hex.Prefixed entry.code then [] else code := endowment_code hex denoted
  have added : (Account.blank.endow (geth.endowment entry)).balance = balance := by
    show 0 + (geth.parseBig256 entry.balance).getD 0 = balance
    rw [parsed, Option.getD_some, Int.zero_add]
  obtain ⟨slots, others⟩ := endow_slots distinct
  constructor
  · intro lists
    constructor
    · intro prefixed
      rw [if_pos prefixed] at wrote
      rw [lists.code]
      rcases committed with ⟨rfl, -⟩ | ⟨rfl, -⟩
      · rfl
      · rw [wrote]
    · intro free empty slot member
      rcases committed with ⟨rfl, -⟩ | ⟨-, full⟩
      · exact (lists.slots slot member).symm
      · refine absurd ⟨rfl, ?_, ?_⟩ full
        · rw [added]
          exact Option.some.inj (parsed.symm.trans free)
        · rw [wrote, Option.some.inj (denoted.symm.trans empty)]
          split <;> rfl
  · rintro ⟨bare, quiet⟩
    have exact_code : (Account.blank.endow (geth.endowment entry)).code = code := by
      rw [wrote]
      split
      · next prefixed => exact Option.some.inj ((bare prefixed).symm.trans denoted)
      · rfl
    rcases committed with ⟨rfl, -, free, none⟩ | ⟨rfl, -⟩
    · rw [added] at free
      rw [exact_code] at none
      subst free none
      exact ⟨rfl, parsed, denoted, fun slot member => (quiet parsed denoted slot member).symm,
        fun _ _ => rfl⟩
    · exact ⟨rfl, by rw [added, parsed], by rw [exact_code, denoted], slots, others⟩

/-- **Genesis is realised exactly when every entry is realisable.** -/
theorem genesis_realised_iff (codec : geth.CodecLaws) (hex : geth.HexLaws)
    {gone : World → Address → Prop} (writes : geth.WriteLaws gone) {s : State World}
    (opened : newState geth Store.empty = .ok s) (valid : ValidGenesis geth genesis) :
    Realised geth s genesis ↔ ∀ entry ∈ genesis, Realisable geth entry.2 := by
  obtain ⟨root, accounts, headed, found, rfl⟩ := newState_some opened
  obtain rfl : default = root := Except.ok.inj headed
  have blank := writes.open_blank _ _ found
  obtain ⟨created, ran⟩ := createAccountsLoop_ran valid.parses accounts
  obtain ⟨reads, removed⟩ := createAccountsLoop_account writes ran
  have moved := createAccounts_eq codec (s := ⟨Store.empty, .ofAccounts accounts,
    .fresh (.ofAccounts accounts)⟩) rfl ran
  have committed := finalised_account writes created
  simp only [removed, (blank _).2, false_or, not_false_eq_true, true_and] at committed
  unfold Realised
  rw [moved]
  have lists : ∀ entry ∈ genesis, (Lists geth entry.2 (geth.account (geth.finalise created)
      (geth.hexToAddress entry.1)) ↔ Realisable geth entry.2) := by
    intro entry member
    obtain ⟨balance, parsed, -⟩ := valid.balances entry member
    obtain ⟨code, denoted⟩ := valid.codes entry member
    have read := reads (geth.hexToAddress entry.1)
    rw [(blank _).1, entriesAt_listed valid.addresses member] at read
    have kept := committed (geth.hexToAddress entry.1)
    rw [read] at kept
    exact lists_iff hex parsed denoted (valid.slots entry member) kept
  constructor
  · rintro ⟨-, listed, -⟩ entry member
    exact (lists entry member).mp (listed entry member)
  · intro realisable
    refine ⟨⟨_, rfl⟩, fun entry member => (lists entry member).mpr (realisable entry member),
      fun address unlisted => ?_⟩
    have read := reads address
    rw [(blank _).1, entriesAt_unlisted unlisted] at read
    rcases committed address with ⟨same, -⟩ | ⟨-, full⟩
    · exact same
    · rw [read] at full
      exact absurd Account.blank_empty full

end Realised

/-! ### Genesis files of the small chain -/

namespace Sample

/-- A code behind a prefix is dropped, and a slot of an account without balance and code goes with
it. -/
theorem prefixed_not_realised : newState Sample.geth Store.empty = .ok blank ∧
    ValidGenesis Sample.geth [("0x03", ⟨"0x00", [], "0"⟩)] ∧
      ¬ Realised Sample.geth blank [("0x03", ⟨"0x00", [], "0"⟩)] := by
  refine ⟨newState_empty, ⟨by decide +kernel, by decide +kernel, ?_, ?_⟩, fun realised => ?_⟩
  · exact List.forall_mem_singleton.mpr ⟨0, by decide +kernel⟩
  · exact List.forall_mem_singleton.mpr ⟨[0], by decide +kernel⟩
  · have code := (realised.2.1 _ List.mem_cons_self).code
    exact absurd code (by decide +kernel)

/-- A genesis file with both notations of a key, a contract and its storage. -/
def plainGenesis : AccountMap :=
  [("0x01", ⟨"", [], "1000000"⟩), ("02", ⟨"00", [("0x01", "07"), ("02", "0x08")], "0"⟩)]

theorem plain_realised : Realised Sample.geth blank plainGenesis := by
  refine (genesis_realised_iff codecLaws hexLaws writeLaws newState_empty
    ⟨by decide +kernel, by decide +kernel, ?_, ?_⟩).mpr (by decide +kernel)
  · exact List.forall_mem_cons.mpr ⟨⟨1000000, by decide +kernel⟩,
      List.forall_mem_singleton.mpr ⟨0, by decide +kernel⟩⟩
  · exact List.forall_mem_cons.mpr ⟨⟨[], by decide +kernel⟩,
      List.forall_mem_singleton.mpr ⟨[0], by decide +kernel⟩⟩

end Sample

end EvmBabble
