/-
The order in which the genesis accounts are gone through.

A `range` over a map goes in any order, and the keys of the file are told apart as texts before they are
read as addresses and slots. Balances add up in every order; of two codes, or of two values of a slot,
the last one stays.

* `endowed_reordered` — an account whose entries agree is the same after the commit in every order.
* `exists_code_last`, `exists_slot_last` — every code and every slot is the last of some order.
* `genesis_order_free_iff` — the root is the same in every order exactly when, at each address, the
  codes agree and, unless the account is removed as empty, so do the values of each slot.
-/

import EvmBabble.State.Genesis
import Mathlib.Algebra.BigOperators.Group.List.Basic

namespace EvmBabble

open Library

variable {World : Type} (geth : Geth World)

/-! ### Orders -/

/-- One entry, its storage in another order. -/
structure SameEntry (one two : String × GenesisAccount) : Prop where
  key : one.1 = two.1
  code : one.2.code = two.2.code
  balance : one.2.balance = two.2.balance
  storage : one.2.storage.Perm two.2.storage

theorem SameEntry.refl (entry : String × GenesisAccount) : SameEntry entry entry :=
  ⟨rfl, rfl, rfl, .refl _⟩

/-- A file in another order, of its entries and of the storage of each. -/
def Reordered (one two : AccountMap) : Prop :=
  ∃ middle, one.Perm middle ∧ List.Forall₂ SameEntry middle two

/-- All that the entries of an address add to its balance. -/
def Geth.given (entries : AccountMap) : Int :=
  (entries.map fun entry => (geth.endowment entry.2).balance).sum

def Geth.codes (entries : AccountMap) : List Bytes :=
  entries.map fun entry => (geth.endowment entry.2).code

def Geth.slots (entries : AccountMap) : List (Hash × Hash) :=
  entries.flatMap fun entry => (geth.endowment entry.2).slots

/-- The root of the state trie that `CreateAccounts` writes. -/
def State.genesisRoot (s : State World) (accounts : AccountMap) : Hash :=
  geth.root (s.createAccounts geth accounts).1.was.ethState.accounts

/-- The property of a genesis file: any two orders end alike and write the same state root. -/
def OrderFree (s : State World) (genesis : AccountMap) : Prop :=
  ∀ one two, Reordered genesis one → Reordered genesis two →
    (s.createAccounts geth one).2 = (s.createAccounts geth two).2 ∧
      s.genesisRoot geth one = s.genesisRoot geth two

/-- An account that its entries do not leave empty. -/
def Remains (account : Account) (entries : AccountMap) : Prop :=
  account.nonce ≠ 0 ∨ account.balance + geth.given entries ≠ 0 ∨ ∃ code ∈ geth.codes entries, code ≠ []

/-- Entries of one address that agree on its code and, unless it is left empty, on each slot. -/
structure Consistent (account : Account) (entries : AccountMap) : Prop where
  codes : ∀ one ∈ geth.codes entries, ∀ two ∈ geth.codes entries, one = two
  slots : Remains geth account entries → ∀ one ∈ geth.slots entries, ∀ two ∈ geth.slots entries,
    one.1 = two.1 → one.2 = two.2

section Orders

variable {geth} {one two : AccountMap}

theorem Reordered.of_perm (perm : one.Perm two) : Reordered one two :=
  ⟨two, perm, List.forall₂_same.mpr fun entry _ => SameEntry.refl entry⟩

theorem Reordered.entriesAt (reordered : Reordered one two) (address : Address) :
    Reordered (geth.entriesAt address one) (geth.entriesAt address two) := by
  obtain ⟨middle, perm, same⟩ := reordered
  refine ⟨geth.entriesAt address middle, perm.filter _, List.rel_filter ?_ same⟩
  intro first second alike
  dsimp only
  rw [alike.key]

/-- What is read of an entry and not of the order of its storage is read in another order. -/
theorem Reordered.map {α : Type} (reordered : Reordered one two)
    (read : String × GenesisAccount → α)
    (alike : ∀ first second, SameEntry first second → read first = read second) :
    (one.map read).Perm (two.map read) := by
  obtain ⟨middle, perm, same⟩ := reordered
  refine (perm.map read).trans (List.Perm.of_eq ?_)
  clear perm
  induction same with
  | nil => rfl
  | cons first rest ih => rw [List.map_cons, List.map_cons, alike _ _ first, ih]

theorem Reordered.parses (reordered : Reordered one two) (parses : Parses geth one) :
    Parses geth two := by
  have balances := reordered.map (fun entry => entry.2.balance)
    fun _ _ alike => alike.balance
  intro entry member
  obtain ⟨other, inside, same⟩ :=
    List.mem_map.mp (balances.mem_iff.mpr (List.mem_map.mpr ⟨entry, member, rfl⟩))
  rw [← same]
  exact parses other inside

theorem Reordered.codes (reordered : Reordered one two) : (geth.codes one).Perm (geth.codes two) :=
  reordered.map _ fun _ _ alike => congrArg geth.hex2Bytes alike.code

theorem Reordered.given (reordered : Reordered one two) : geth.given one = geth.given two :=
  (reordered.map _ fun _ _ alike =>
    congrArg (fun text => (geth.parseBig256 text).getD 0) alike.balance).sum_eq

theorem Reordered.slots (reordered : Reordered one two) : (geth.slots one).Perm (geth.slots two) := by
  obtain ⟨middle, perm, same⟩ := reordered
  refine (perm.flatMap_right _).trans ?_
  clear perm
  induction same with
  | nil => exact .refl _
  | cons first rest ih => exact (first.storage.map _).append ih

theorem Reordered.remains {account : Account} (reordered : Reordered one two) :
    Remains geth account one ↔ Remains geth account two := by
  unfold Remains
  rw [reordered.given]
  exact or_congr_right (or_congr_right
    (exists_congr fun code => and_congr_left fun _ => reordered.codes.mem_iff))

end Orders

/-! ### An account in two orders -/

theorem Account.eq_of {one two : Account} (nonce : one.nonce = two.nonce)
    (balance : one.balance = two.balance) (code : one.code = two.code)
    (storage : one.storage = two.storage) : one = two := by
  cases one
  cases two
  cases nonce
  cases balance
  cases code
  cases storage
  rfl

/-- An account after a commit that does not find it destroyed. -/
def Account.finalised (account : Account) : Account := if account.empty then .blank else account

section Account

variable {geth} {account : Account} {one two : AccountMap}

theorem Account.finalised_code (account : Account) : account.finalised.code = account.code := by
  unfold Account.finalised
  split
  · next empty => exact empty.2.2.symm
  · rfl

/-- Entries that leave an account empty and agree on its code do so by what they add and write. -/
theorem endowed_empty_iff (agreed : ∀ first ∈ geth.codes one, ∀ second ∈ geth.codes one, first = second)
    (some : one ≠ []) : (geth.endowed account one).empty ↔ ¬ Remains geth account one := by
  obtain ⟨last, found⟩ : ∃ last, (geth.codes one).getLast? = .some last :=
    Option.isSome_iff_exists.mp (by simpa [Geth.codes] using some)
  have member : last ∈ geth.codes one := List.mem_of_getLast? found
  have code : (geth.endowed account one).code = last := by
    rw [endowed_code]
    show ((geth.codes one).getLast?).getD account.code = last
    rw [found, Option.getD_some]
  have all : (∃ code ∈ geth.codes one, code ≠ []) ↔ last ≠ [] :=
    ⟨fun ⟨other, inside, full⟩ => agreed other inside last member ▸ full,
      fun full => ⟨last, member, full⟩⟩
  unfold Account.empty Remains
  rw [endowed_nonce, endowed_balance, code, all]
  show _ ∧ account.balance + geth.given one = 0 ∧ _ ↔ _
  tauto

/-- Codes that agree have the same last one in every order. -/
theorem getLast?_agreed {codes others : List Bytes} (perm : codes.Perm others)
    (agreed : ∀ one ∈ codes, ∀ two ∈ codes, one = two) : codes.getLast? = others.getLast? := by
  cases found : codes.getLast? with
  | none =>
    rw [List.getLast?_eq_none_iff.mp found] at perm
    rw [List.nil_perm.mp perm, List.getLast?_nil]
  | some code =>
    have member : code ∈ codes := List.mem_of_getLast? found
    have full : others ≠ [] := fun none => by
      rw [none] at perm
      rw [List.perm_nil.mp perm] at member
      exact List.not_mem_nil member
    rw [List.getLast?_eq_some_getLast full]
    exact congrArg some (agreed _ member _ (perm.mem_iff.mpr (List.getLast_mem full)))

/-- **An account whose entries agree** is the same after the commit in every order. -/
theorem endowed_reordered (reordered : Reordered one two) (consistent : Consistent geth account one) :
    (geth.endowed account one).finalised = (geth.endowed account two).finalised := by
  have nonce : (geth.endowed account one).nonce = (geth.endowed account two).nonce := by
    rw [endowed_nonce, endowed_nonce]
  have balance : (geth.endowed account one).balance = (geth.endowed account two).balance := by
    rw [endowed_balance, endowed_balance]
    exact congrArg (account.balance + ·) reordered.given
  have code : (geth.endowed account one).code = (geth.endowed account two).code := by
    rw [endowed_code, endowed_code]
    exact congrArg (·.getD account.code) (getLast?_agreed reordered.codes consistent.codes)
  by_cases empty : (geth.endowed account one).empty
  · have other : (geth.endowed account two).empty := by
      rw [Account.empty, ← nonce, ← balance, ← code]
      exact empty
    rw [Account.finalised, Account.finalised, if_pos empty, if_pos other]
  · have storage : (geth.endowed account one).storage = (geth.endowed account two).storage := by
      rw [endowed_storage, endowed_storage]
      refine funext fun key => overwrite_perm _ reordered.slots
        fun first member second inside here there => ?_
      have some : one ≠ [] := by
        rintro rfl
        exact List.not_mem_nil member
      exact consistent.slots (not_not.mp ((endowed_empty_iff consistent.codes some).not.mp empty)) first
        member second inside (here.trans there.symm)
    exact congrArg Account.finalised (Account.eq_of nonce balance code storage)

/-- An account with a slot to write whose codes agree is there after the commit, in every order, unless
its entries leave it empty. -/
theorem endowed_remains (reordered : Reordered one two)
    (agreed : ∀ first ∈ geth.codes one, ∀ second ∈ geth.codes one, first = second)
    (remains : Remains geth account one) {write : Hash × Hash} (member : write ∈ geth.slots one) :
    (geth.endowed account two).finalised = geth.endowed account two := by
  refine if_neg ((endowed_empty_iff (fun first inside second listed => ?_) ?_).not.mpr
    (not_not.mpr (reordered.remains.mp remains)))
  · exact agreed first (reordered.codes.mem_iff.mpr inside) second
      (reordered.codes.mem_iff.mpr listed)
  · rintro rfl
    exact List.not_mem_nil (reordered.slots.mem_iff.mp member)

/-! ### Every code and every slot comes last in some order -/

theorem entriesAt_concat {address : Address} {entry : String × GenesisAccount} (rest : AccountMap)
    (here : geth.hexToAddress entry.1 = address) :
    geth.entriesAt address (rest ++ [entry]) = geth.entriesAt address rest ++ [entry] := by
  rw [Geth.entriesAt, List.filter_append, List.filter_cons_of_pos (by simpa using here),
    List.filter_nil]
  rfl

variable (account) in
/-- A code of an entry is the one that stays in some order. -/
theorem exists_code_last {genesis : AccountMap} {address : Address} {code : Bytes}
    (member : code ∈ geth.codes (geth.entriesAt address genesis)) :
    ∃ order, Reordered genesis order ∧
      (geth.endowed account (geth.entriesAt address order)).code = code := by
  obtain ⟨entry, listed, rfl⟩ := List.mem_map.mp member
  obtain ⟨inside, here⟩ := List.mem_filter.mp listed
  obtain ⟨before, after, rfl⟩ := List.append_of_mem inside
  refine ⟨before ++ after ++ [entry], .of_perm ?_, ?_⟩
  · exact List.perm_middle.trans (List.perm_append_singleton _ _).symm
  · rw [entriesAt_concat _ (of_decide_eq_true here), endowed_code, List.map_append,
      List.map_singleton, List.getLast?_concat, Option.getD_some]

variable (account) in
/-- A value of a slot is the one that stays in some order. -/
theorem exists_slot_last {genesis : AccountMap} {address : Address} {write : Hash × Hash}
    (member : write ∈ geth.slots (geth.entriesAt address genesis)) :
    ∃ order, Reordered genesis order ∧
      (geth.endowed account (geth.entriesAt address order)).storage write.1 = write.2 := by
  obtain ⟨⟨key, code, storage, balance⟩, listed, written⟩ := List.mem_flatMap.mp member
  obtain ⟨slot, held, rfl⟩ := List.mem_map.mp written
  obtain ⟨inside, here⟩ := List.mem_filter.mp listed
  obtain ⟨before, after, rfl⟩ := List.append_of_mem inside
  obtain ⟨first, second, rfl⟩ := List.append_of_mem (show slot ∈ storage from held)
  refine ⟨before ++ after ++ [(key, ⟨code, first ++ second ++ [slot], balance⟩)],
    ⟨before ++ after ++ [(key, ⟨code, first ++ slot :: second, balance⟩)], ?_, ?_⟩, ?_⟩
  · exact List.perm_middle.trans (List.perm_append_singleton _ _).symm
  · refine List.rel_append (List.forall₂_same.mpr fun entry _ => SameEntry.refl entry)
      (.cons ⟨rfl, rfl, rfl, ?_⟩ .nil)
    exact List.perm_middle.trans (List.perm_append_singleton _ _).symm
  · have last := entriesAt_concat (before ++ after)
      (show geth.hexToAddress (key, GenesisAccount.mk code (first ++ second ++ [slot]) balance).1 =
        address from of_decide_eq_true here)
    rw [last, endowed_storage, List.flatMap_append, List.flatMap_singleton]
    show overwrite _ (_ ++ List.map _ (first ++ second ++ [slot])) _ = _
    rw [List.map_append, ← List.append_assoc]
    exact overwrite_last _ fun write none => absurd none List.not_mem_nil

end Account

/-! ### The committed accounts in two orders -/

section Orders

variable {geth} {gone : World → Address → Prop} {s : State World} {genesis one two : AccountMap}

/-- What is committed depends on the accounts that are left after the removal only. -/
theorem commit_finalised {accounts others : World}
    (same : geth.finalise accounts = geth.finalise others) :
    (s.withAccounts accounts).commit geth = (s.withAccounts others).commit geth := by
  have commits : (s.withAccounts accounts).was.commit geth (s.withAccounts accounts).db =
      (s.withAccounts others).was.commit geth (s.withAccounts others).db := by
    unfold WriteAheadState.commit Geth.commitTo State.withAccounts
    dsimp only
    rw [same]
    rfl
  unfold State.commit
  dsimp only
  rw [commits]
  rfl

/-- **What a file is committed as**: its loop runs to its end, and an account that did not destroy
itself is what its entries leave of it. -/
theorem createAccounts_committed (writes : geth.WriteLaws gone) (parses : Parses geth one) :
    ∃ created, s.createAccounts geth one = (s.withAccounts created).commit geth ∧
      (s.createAccounts geth one).1.was.ethState.accounts = geth.finalise created ∧
      ∀ address, (gone s.was.ethState.accounts address →
          geth.account (geth.finalise created) address = .blank) ∧
        (¬ gone s.was.ethState.accounts address →
          geth.account (geth.finalise created) address =
            (geth.endowed (geth.account s.was.ethState.accounts address)
              (geth.entriesAt address one)).finalised) := by
  obtain ⟨created, ran⟩ := createAccountsLoop_ran parses s.was.ethState.accounts
  obtain ⟨reads, removed⟩ := createAccountsLoop_account writes ran
  have moved := State.createAccounts_ran ran
  refine ⟨created, moved, moved ▸ State.commit_accounts, fun address => ⟨fun destroyed => ?_,
    fun there => ?_⟩⟩
  · exact writes.finalise_removed _ _ (Or.inl (removed ▸ destroyed))
  · rw [← reads]
    rcases finalised_account writes created address with ⟨blank, lost⟩ | ⟨kept, -, full⟩
    · rw [blank, Account.finalised, if_pos (lost.resolve_left (removed ▸ there))]
    · rw [kept, Account.finalised, if_neg full]

/-- Two files that leave the same accounts are committed alike. -/
theorem createAccounts_same (trie : geth.TrieLaws) (writes : geth.WriteLaws gone)
    (parsesOne : Parses geth one) (parsesTwo : Parses geth two)
    (same : ∀ address, ¬ gone s.was.ethState.accounts address →
      (geth.endowed (geth.account s.was.ethState.accounts address)
        (geth.entriesAt address one)).finalised =
          (geth.endowed (geth.account s.was.ethState.accounts address)
            (geth.entriesAt address two)).finalised) :
    s.createAccounts geth one = s.createAccounts geth two := by
  obtain ⟨first, movedOne, -, readsOne⟩ := createAccounts_committed (s := s) writes parsesOne
  obtain ⟨second, movedTwo, -, readsTwo⟩ := createAccounts_committed (s := s) writes parsesTwo
  rw [movedOne, movedTwo]
  refine commit_finalised ?_
  rw [← trie.finalise_finalise first, ← trie.finalise_finalise second]
  refine writes.finalise_congr _ _ (funext fun address => ?_) (funext fun address =>
    propext (iff_of_false (writes.gone_finalise _ _) (writes.gone_finalise _ _)))
  by_cases destroyed : gone s.was.ethState.accounts address
  · rw [(readsOne address).1 destroyed, (readsTwo address).1 destroyed]
  · rw [(readsOne address).2 destroyed, (readsTwo address).2 destroyed, same address destroyed]

variable (geth gone s genesis) in
/-- A file whose entries agree at each address that did not destroy itself. -/
def ConsistentAt : Prop :=
  ∀ address, ¬ gone s.was.ethState.accounts address →
    Consistent geth (geth.account s.was.ethState.accounts address) (geth.entriesAt address genesis)

/-- A file whose entries agree is committed alike in every order. -/
theorem consistent_congr (trie : geth.TrieLaws) (writes : geth.WriteLaws gone)
    (parses : Parses geth genesis) (consistent : ConsistentAt geth gone s genesis)
    (reordered : Reordered genesis one) :
    s.createAccounts geth genesis = s.createAccounts geth one :=
  createAccounts_same trie writes parses (reordered.parses parses) fun address there =>
    endowed_reordered (reordered.entriesAt address) (consistent address there)

/-- **The root does not depend on the order** exactly when the entries of each address agree. -/
theorem genesis_order_free_iff (trie : geth.TrieLaws) (writes : geth.WriteLaws gone)
    (parses : Parses geth genesis)
    (apart : ∀ one two, Reordered genesis one → Reordered genesis two →
      s.genesisRoot geth one = s.genesisRoot geth two →
        geth.account (s.createAccounts geth one).1.was.ethState.accounts =
          geth.account (s.createAccounts geth two).1.was.ethState.accounts) :
    OrderFree geth s genesis ↔ ConsistentAt geth gone s genesis := by
  constructor
  · intro free address there
    have agree : ∀ one two, Reordered genesis one → Reordered genesis two →
        (geth.endowed (geth.account s.was.ethState.accounts address)
          (geth.entriesAt address one)).finalised =
            (geth.endowed (geth.account s.was.ethState.accounts address)
              (geth.entriesAt address two)).finalised := by
      intro one two orderOne orderTwo
      obtain ⟨first, -, leftOne, readsOne⟩ :=
        createAccounts_committed (s := s) writes (orderOne.parses parses)
      obtain ⟨second, -, leftTwo, readsTwo⟩ :=
        createAccounts_committed (s := s) writes (orderTwo.parses parses)
      have same := apart one two orderOne orderTwo (free one two orderOne orderTwo).2
      rw [leftOne, leftTwo] at same
      rw [← (readsOne address).2 there, ← (readsTwo address).2 there, same]
    have codes : ∀ one ∈ geth.codes (geth.entriesAt address genesis),
        ∀ two ∈ geth.codes (geth.entriesAt address genesis), one = two := by
      intro one member two inside
      obtain ⟨first, orderOne, lastOne⟩ := exists_code_last
        (geth.account s.was.ethState.accounts address) member
      obtain ⟨second, orderTwo, lastTwo⟩ := exists_code_last
        (geth.account s.was.ethState.accounts address) inside
      rw [← lastOne, ← lastTwo, ← Account.finalised_code, agree first second orderOne orderTwo,
        Account.finalised_code]
    refine ⟨codes, fun remains one member two inside key => ?_⟩
    obtain ⟨first, orderOne, lastOne⟩ := exists_slot_last
      (geth.account s.was.ethState.accounts address) member
    obtain ⟨second, orderTwo, lastTwo⟩ := exists_slot_last
      (geth.account s.was.ethState.accounts address) inside
    have same := agree first second orderOne orderTwo
    rw [endowed_remains (orderOne.entriesAt address) codes remains member,
      endowed_remains (orderTwo.entriesAt address) codes remains member] at same
    rw [← lastOne, ← lastTwo, same, key]
  · intro consistent one two orderOne orderTwo
    have same : s.createAccounts geth one = s.createAccounts geth two :=
      (consistent_congr trie writes parses consistent orderOne).symm.trans
        (consistent_congr trie writes parses consistent orderTwo)
    unfold State.genesisRoot
    rw [same]
    exact ⟨rfl, rfl⟩

end Orders

/-! ### Genesis files of the small chain -/

namespace Sample

/-- One address under two keys, with two codes. -/
def aliasedGenesis : AccountMap := [("0x01", ⟨"00", [], "5"⟩), ("01", ⟨"01", [], "7"⟩)]

/-- The code that stays is the one of the entry that comes last. -/
theorem aliased_not_order_free : newState Sample.geth Store.empty = .ok blank ∧
    (aliasedGenesis.map Prod.fst).Nodup ∧ Parses Sample.geth aliasedGenesis ∧
      ¬ OrderFree Sample.geth blank aliasedGenesis := by
  refine ⟨newState_empty, by decide, ?_, fun free => ?_⟩
  · exact List.forall_mem_cons.mpr ⟨⟨5, by decide +kernel⟩,
      List.forall_mem_singleton.mpr ⟨7, by decide +kernel⟩⟩
  · have same := free aliasedGenesis aliasedGenesis.reverse (.of_perm (.refl _))
      (.of_perm (List.reverse_perm _).symm)
    exact absurd same.1 (by decide +kernel)

/-- One address under two keys, each with a balance only. -/
def sharedGenesis : AccountMap := [("0x01", ⟨"", [], "5"⟩), ("01", ⟨"", [], "7"⟩)]

theorem shared_parses : Parses Sample.geth sharedGenesis :=
  List.forall_mem_cons.mpr ⟨⟨5, by decide +kernel⟩,
    List.forall_mem_singleton.mpr ⟨7, by decide +kernel⟩⟩

theorem shared_consistent : ConsistentAt Sample.geth gone blank sharedGenesis := by
  have bare : ∀ entry ∈ sharedGenesis, (Sample.geth.endowment entry.2).code = [] ∧
      (Sample.geth.endowment entry.2).slots = [] := by decide +kernel
  intro address _
  constructor
  · intro one member two inside
    obtain ⟨first, listed, rfl⟩ := List.mem_map.mp member
    obtain ⟨second, found, rfl⟩ := List.mem_map.mp inside
    rw [(bare first (List.mem_of_mem_filter listed)).1, (bare second (List.mem_of_mem_filter found)).1]
  · intro _ one member
    obtain ⟨entry, listed, written⟩ := List.mem_flatMap.mp member
    rw [(bare entry (List.mem_of_mem_filter listed)).2] at written
    exact absurd written List.not_mem_nil

theorem shared_order_free : OrderFree Sample.geth blank sharedGenesis := by
  refine (genesis_order_free_iff trieLaws writeLaws shared_parses fun one two first second _ => ?_).mpr
    shared_consistent
  rw [← consistent_congr trieLaws writeLaws shared_parses shared_consistent first,
    ← consistent_congr trieLaws writeLaws shared_parses shared_consistent second]

end Sample

end EvmBabble
