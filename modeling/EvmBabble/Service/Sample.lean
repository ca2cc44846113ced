/-
The service of the small chain.

A request body is a flat JSON object without escapes; a signature is the address of its account, and
`withSignature` puts it where `sender` looks for it.
-/

import EvmBabble.Service.Handlers
import EvmBabble.State.Sample
import Mathlib.Data.List.Induction

namespace EvmBabble.Sample

open Library

/-! ### Request bodies -/

def bodyOf (text : String) : Bytes := text.toList.map fun letter => UInt8.ofNat letter.toNat

def lettersOf (body : Bytes) : List Char := body.map fun byte => Char.ofNat byte.toNat

/-- `hexutil.Decode`: the prefix is needed, and an even number of digits behind it. -/
def hexutilDecode (body : Bytes) : Option Bytes :=
  match lettersOf body with
  | '0' :: 'x' :: digits => Hex.bytes digits
  | '0' :: 'X' :: digits => Hex.bytes digits
  | _ => none

/-- The fields of a flat JSON object: a name and a value each, without their quotes. -/
def jsonFields (body : Bytes) : List (List (List Char)) :=
  (((lettersOf body).filter fun letter => letter != '\x7b' && letter != '\x7d' &&
    letter != '"' && letter != ' ').splitOn ',').map fun field => field.splitOn ':'

/-- The text of a field. -/
def jsonField (body : Bytes) (name : String) : Option String :=
  (jsonFields body).findSome? fun
    | [key, value] => if key = name.toList then some (String.ofList value) else none
    | _ => none

/-- A field that may be left out but not garbled. -/
def jsonOptional {α : Type} (body : Bytes) (name : String) (parse : String → Option α) :
    Option (Option α) :=
  match jsonField body name with
  | none => some none
  | some text => (parse text).map some

/-- An address is a prefix and forty digits. -/
def jsonAddress (text : String) : Option Address :=
  (hexutilDecode (bodyOf text)).bind fun bytes =>
    if bytes.length = 20 then some (.ofBytes 20 bytes) else none

def decodeArgs (body : Bytes) : Option SendTxArgs :=
  (jsonOptional body "from" jsonAddress).bind fun sender =>
  (jsonOptional body "to" jsonAddress).bind fun recipient =>
  (jsonOptional body "gas" parseBig256).bind fun gas =>
  (jsonOptional body "gasPrice" parseBig256).bind fun gasPrice =>
  (jsonOptional body "value" parseBig256).bind fun value =>
  (jsonOptional body "nonce" parseBig256).map fun nonce =>
    { sender := sender.getD default, recipient, gas, gasPrice, value,
      data := (jsonField body "data").getD "", nonce := nonce.map Int.toNat }

/-! ### Signatures -/

/-- The number big-endian bytes stand for. -/
def number (bytes : Bytes) : Nat := bytes.foldl (fun sum byte => 256 * sum + byte.toNat) 0

theorem bigEndian_number (bytes : Bytes) : bigEndian bytes.length (number bytes) = bytes := by
  induction bytes using List.reverseRecOn with
  | nil => rfl
  | append_singleton bytes byte ih =>
    have value : number (bytes ++ [byte]) = 256 * number bytes + byte.toNat := by
      rw [number, List.foldl_append]
      rfl
    have below := byte.toNat_lt
    rw [List.length_append, List.length_singleton, bigEndian, value,
      show (256 * number bytes + byte.toNat) / 256 = number bytes by omega, ih]
    congr 2
    apply UInt8.toNat_inj.mp
    rw [UInt8.toNat_ofNat']
    omega

def signerHash (t : Transaction) : Hash :=
  digest 3 (transactionWire.write { t with v := 0, r := 0, s := 0 })

def withSignature (t : Transaction) (signature : Bytes) : Option Transaction :=
  if signature.length = 20 then some { t with v := 27, r := number signature, s := 1 } else none

def web : Web where
  decodeArgs := decodeArgs
  hexutilDecode := hexutilDecode
  fromHex := fromHex
  signerHash := signerHash
  withSignature := withSignature

/-- A key store with alice's account, unlocked. -/
def keyStore : KeyStore where
  accounts := [alice]
  find address := if address = alice then some alice else none
  signHash account _ := if account = alice then some alice.bytes else none

theorem signingLaws : SigningLaws geth web keyStore where
  found address account found := by
    change (if address = alice then some alice else none) = some account at found
    split at found
    · next same =>
      rw [same]
      exact (Option.some.inj found).symm
    · cases found
  sender account t signature signedTx signed sealed := by
    change (if account = alice then some alice.bytes else none) = some signature at signed
    change (if signature.length = 20 then _ else none) = some signedTx at sealed
    split at signed
    · next same =>
      cases signed
      rw [if_pos alice.length_eq] at sealed
      cases sealed
      show (if (27 : Int) = 27 then
        some (FixedBytes.ofBytes 20 (bigEndian 20 (number alice.bytes : Int).toNat)) else none) = _
      have back : bigEndian 20 (number alice.bytes) = alice.bytes := by
        have whole := bigEndian_number alice.bytes
        rwa [alice.length_eq] at whole
      rw [if_pos rfl, Int.toNat_natCast, back, FixedBytes.ofBytes_bytes, same]
    · cases signed
  unsigned t signature signedTx sealed := by
    change (if signature.length = 20 then _ else none) = some signedTx at sealed
    split at sealed
    · cases sealed
      rfl
    · cases sealed

/-! ### Requests -/

/-- A transfer from alice to bob, the nonce left out. -/
def transferBody : Bytes :=
  bodyOf "\x7b\"from\":\"0x0000000000000000000000000000000000000001\"," ++
    bodyOf "\"to\":\"0x0000000000000000000000000000000000000002\"," ++
    bodyOf "\"gas\":21000,\"value\":5\x7d"

/-- Bytes as `hexutil.Encode` shows them. -/
def hexBody (data : Bytes) : Bytes :=
  let digit (value : Nat) : UInt8 := UInt8.ofNat (if value < 10 then 48 + value else 87 + value)
  bodyOf "0x" ++ data.flatMap fun byte => [digit (byte.toNat / 16), digit (byte.toNat % 16)]

theorem transfer_decoded : (some transferBody).bind web.decodeArgs =
    some ⟨alice, some bob, some 21000, none, some 5, "", none⟩ := by decide +kernel

end EvmBabble.Sample
