/-
What the programs under node.js read of accounts (`demo.js`, `routes/index.js`), as the API writes them
(`json.Marshal` of the types in `types.go`).

The text of an address (`Address.Hex`) is a parameter, of which only this is used: it consists of letters
and digits. So is the package json-bigint.

* `marshalAccounts_doc` — what the API writes is a document.
* `accounts_read` — **the demo sees the accounts of the node**, with what json-bigint reads their balances
  and nonces as; the front page looks for a key that the API does not write.
-/

import EvmBabble.Client.Package
import EvmBabble.Service.Sample

namespace EvmBabble.JsonBig

open Library

/-! ### What the API writes -/

section Api

variable (hex : Address → String)

/-- `json.Marshal` of a `JsonAccount`. -/
def marshalAccount (account : JsonAccount) : Text :=
  units "\x7b\"address\":\"" ++ units (hex account.address) ++ units "\",\"balance\":" ++
    (goNumeral account.balance).text ++ units ",\"nonce\":" ++ (goNumeral account.nonce).text ++ units "\x7d"

/-- `json.Marshal` of a `JsonAccountList`; a list without accounts is a nil slice. -/
def marshalAccounts (accounts : List JsonAccount) : Text :=
  if accounts = [] then units "\x7b\"accounts\":null\x7d"
  else units "\x7b\"accounts\":[" ++ [unit ','].intercalate (accounts.map (marshalAccount hex)) ++ units "]\x7d"

end Api

/-! ### What the clients look up -/

/-- A member of a value, its own or that of a prototype; what is not there is undefined. -/
def Json.get (key : String) : Json → Option Json
  | .object none members => (members.find? fun member => member.1 = units key).map Prod.snd
  | .object (some prototype) members =>
    ((members.find? fun member => member.1 = units key).map Prod.snd).or (prototype.get key)
  | _ => none

section Clients

variable (json : JsonBigint)

/-- The accounts that `getControlledAccounts` finds in a response. -/
def controlledAccounts (accs : Text) : Except Stop (Option Json) :=
  (json.parse accs).map (Json.get "accounts")

/-- The accounts that the front page finds. -/
def indexAccounts (data : Text) : Except Stop (Option Json) := (json.parse data).map (Json.get "Accounts")

end Clients

/-! ### Accounts read -/

/-- A text made of hexadecimal digits, and of the `x` of their prefix. -/
def IsHex (text : Text) : Prop := ∀ c ∈ text, c = unit 'x' ∨ (hexDigit c).isSome

/-- The text of an address is made of hexadecimal digits, behind `0x`. -/
def HexText (hex : Address → String) : Prop := ∀ address, IsHex (units (hex address))

theorem hex_unescaped {text : Text} (hex : IsHex text) : Unescaped text := by
  have digits : ∀ k < 103, (hexDigit (UInt16.ofNat k)).isSome → escapable (UInt16.ofNat k) = false := by decide
  intro c among
  rcases hex c among with rfl | digit
  · decide
  · have below : c.toNat < 103 := by
      unfold hexDigit at digit
      simp only [UInt16.le_iff_toNat_le] at digit
      split_ifs at digit with first second third
      · exact Nat.lt_of_le_of_lt first.2 (by decide)
      · exact Nat.lt_of_le_of_lt second.2 (by decide)
      · exact Nat.lt_of_le_of_lt third.2 (by decide)
      · cases digit
    have plain := digits c.toNat below
    rw [UInt16.ofNat_toNat] at plain
    exact plain digit

section Documents

variable (hex : Address → String)

/-- An account as a document. -/
def accountDoc (account : JsonAccount) : Doc :=
  .object [(units "address", .string (units (hex account.address))), (units "balance", .integer account.balance),
    (units "nonce", .integer account.nonce)]

/-- A list of accounts as a document. -/
def accountsDoc (accounts : List JsonAccount) : Doc :=
  .object [(units "accounts", if accounts = [] then .null else .array (accounts.map (accountDoc hex)))]

theorem marshalAccount_doc (account : JsonAccount) : marshalAccount hex account = (accountDoc hex account).text := by
  have first : units "\x7b\"address\":\"" = unit '{' :: (quoted (units "address") ++ [unit ':', unit '"']) := by
    decide
  have second : units "\",\"balance\":" = unit '"' :: unit ',' :: (quoted (units "balance") ++ [unit ':']) := by
    decide
  have third : units ",\"nonce\":" = unit ',' :: (quoted (units "nonce") ++ [unit ':']) := by decide
  have last : units "\x7d" = [unit '}'] := rfl
  rw [marshalAccount, first, second, third, last]
  simp [accountDoc, Doc.text, memberTexts, quoted]

/-- **What the API writes is a document.** -/
theorem marshalAccounts_doc (accounts : List JsonAccount) :
    marshalAccounts hex accounts = (accountsDoc hex accounts).text := by
  by_cases none : accounts = []
  · rw [marshalAccounts, accountsDoc, if_pos none, if_pos none]
    decide
  · have first : units "\x7b\"accounts\":[" =
        unit '{' :: (quoted (units "accounts") ++ [unit ':', unit '[']) := by decide
    have last : units "]\x7d" = [unit ']', unit '}'] := rfl
    have each : accounts.map (marshalAccount hex) = docTexts (accounts.map (accountDoc hex)) := by
      rw [docTexts_map, List.map_map]
      exact List.map_congr_left fun account _ => marshalAccount_doc hex account
    rw [marshalAccounts, accountsDoc, if_neg none, if_neg none, first, last, each]
    simp [Doc.text, memberTexts]

end Documents

/-- An account with a balance that is a number at all, and a nonce of 64 bits. -/
def FiniteAccount (account : JsonAccount) : Prop := Sized account.balance ∧ account.nonce < 2 ^ 64

section Read

variable {hex : Address → String} (text : HexText hex)
include text

theorem accountDoc_plain {account : JsonAccount} (finite : FiniteAccount account) :
    (accountDoc hex account).Plain := by
  have keys : Unescaped (units "address") ∧ Unescaped (units "balance") ∧ Unescaped (units "nonce") := by decide
  have distinct : [units "address", units "balance", units "nonce"].Nodup ∧
      proto ∉ [units "address", units "balance", units "nonce"] := by decide
  exact ⟨distinct.1, distinct.2, keys.1, hex_unescaped (text account.address), keys.2.1, finite.1, keys.2.2,
    sized_of_lt finite.2, trivial⟩

theorem accountsDoc_plain {accounts : List JsonAccount} (finite : ∀ account ∈ accounts, FiniteAccount account) :
    (accountsDoc hex accounts).Plain := by
  have key : Unescaped (units "accounts") := by decide
  have own : proto ∉ [units "accounts"] := by decide
  refine ⟨List.nodup_singleton _, own, key, ?_, trivial⟩
  split
  · exact trivial
  · refine plainDocs_iff.mpr fun doc among => ?_
    obtain ⟨account, held, rfl⟩ := List.mem_map.mp among
    exact accountDoc_plain text (finite account held)

/-- What a client reads of a list of accounts. -/
theorem list_read {json : JsonBigint} (laws : json.ParseLaws) {accounts : List JsonAccount}
    (finite : ∀ account ∈ accounts, FiniteAccount account) :
    json.parse (marshalAccounts hex accounts) = .ok ((accountsDoc hex accounts).value json.integer) := by
  rw [marshalAccounts_doc]
  exact laws.parse_text _ (accountsDoc_plain text finite)

/-- **The demo sees the accounts of the node**: those of the key store, in order, with their texts and with
what is read of the balances and nonces of the state, or null if there are none. The front page finds
nothing. -/
theorem accounts_read {World : Type} (geth : Geth World) (keyStore : KeyStore) (s : State World)
    {json : JsonBigint} (laws : json.ParseLaws)
    (finite : ∀ address ∈ keyStore.accounts, FiniteAccount (jsonAccount geth s address)) :
    ∃ accounts, (accountsHandler geth keyStore s).reply = .response (.json (.accounts accounts)) ∧
      indexAccounts json (marshalAccounts hex accounts) = .ok none ∧
      ∃ found, controlledAccounts json (marshalAccounts hex accounts) = .ok (some found) ∧
        (keyStore.accounts = [] → found = .null) ∧
        (keyStore.accounts ≠ [] → found = .array (keyStore.accounts.map fun address =>
          .object none [(units "address", .string (units (hex address))),
            (units "balance", .number (json.integer (s.getBalance geth address))),
            (units "nonce", .number (json.integer (s.getNonce geth address)))])) := by
  have each : ∀ account ∈ keyStore.accounts.map (jsonAccount geth s), FiniteAccount account := by
    intro account among
    obtain ⟨address, held, rfl⟩ := List.mem_map.mp among
    exact finite address held
  have read := list_read text laws each
  refine ⟨_, rfl, ?_, ?_⟩
  · rw [indexAccounts, read]
    rfl
  · rw [controlledAccounts, read]
    refine ⟨_, rfl, fun none => ?_, fun some => ?_⟩
    · rw [if_pos (by rw [none, List.map_nil])]
      rfl
    · rw [if_neg fun empty => some (List.map_eq_nil_iff.mp empty), Doc.value, docValues_map, List.map_map,
        List.map_map]
      rfl

end Read

namespace Sample

/-! ### Of the small chain -/

/-- The digits of a byte. -/
def digitsOf (byte : UInt8) : List Char := [Nat.digitChar (byte.toNat / 16), Nat.digitChar (byte.toNat % 16)]

/-- The text of an address, or of a hash. -/
def hexOf {size : Nat} (data : FixedBytes size) : String :=
  String.ofList ('0' :: 'x' :: data.bytes.flatMap digitsOf)

theorem hexOf_isHex {size : Nat} (data : FixedBytes size) : IsHex (units (hexOf data)) := by
  have digits : ∀ k < 16, (hexDigit (unit (Nat.digitChar k))).isSome := by decide
  intro c among
  rw [units, hexOf, String.toList_ofList] at among
  obtain ⟨letter, inside, rfl⟩ := List.mem_map.mp among
  rcases List.mem_cons.mp inside with rfl | inside
  · exact .inr (by decide)
  rcases List.mem_cons.mp inside with rfl | inside
  · exact .inl rfl
  obtain ⟨byte, -, inside⟩ := List.mem_flatMap.mp inside
  have below := byte.toNat_lt
  rcases List.mem_pair.mp inside with rfl | rfl
  · exact .inr (digits _ (by omega))
  · exact .inr (digits _ (by omega))

theorem alice_finite : FiniteAccount (jsonAccount Sample.geth Sample.started Sample.alice) := by
  have balance : (jsonAccount Sample.geth Sample.started Sample.alice).balance = 1000000 := by decide +kernel
  refine ⟨?_, by decide +kernel⟩
  rw [balance]
  exact sized_of_lt (by decide)

/-- json-bigint, as far as the small chain goes. -/
def package : JsonBigint := bundle exactNumeral

theorem accounts_read_started :
    ∃ accounts, (accountsHandler Sample.geth Sample.keyStore Sample.started).reply =
        .response (.json (.accounts accounts)) ∧
      indexAccounts package (marshalAccounts hexOf accounts) = .ok none := by
  have finite : ∀ address ∈ Sample.keyStore.accounts,
      FiniteAccount (jsonAccount Sample.geth Sample.started address) := by
    intro address among
    cases List.mem_singleton.mp among
    exact alice_finite
  obtain ⟨accounts, reply, index, -⟩ := accounts_read (fun address => hexOf_isHex address) Sample.geth
    Sample.keyStore Sample.started (bundle_parses exactNumeral) finite
  exact ⟨accounts, reply, index⟩

end Sample

end EvmBabble.JsonBig
