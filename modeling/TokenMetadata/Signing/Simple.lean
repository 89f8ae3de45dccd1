import TokenMetadata.Signing.Schnorr
import TokenMetadata.Signing.Message
import TokenMetadata.Signing.Wif
import TokenMetadata.Text.Base64

/-!
# Signed messages

A message is signed for an address by the secret behind it. The signature is a witness stack of one
item in base64: sixty-four bytes, and the hash type behind them unless it is the default.
-/

namespace TokenMetadata.Simple

open Curve Taproot

/-- The scalar of thirty-two bytes, when it is one. -/
def scalar? (secret : Bytes) : Option Nat :=
  let d := Bytes.toNatBE secret
  if secret.length = 32 ∧ 1 ≤ d ∧ d < groupOrder then some d else none

/-- The tweaked secret of an address, and the key that the address stands for. The secret's range,
the address and the control over it are checked in this order. -/
def unlock (secret : Int) (address : String) : Except Fault (Nat × Bytes) := do
  if secret ≤ 0 ∨ groupOrder ≤ secret then throw (.signing .invalidScalar)
  let outputKey ← keyOfAddress address
  let (tweaked, ownKey) ← tweakSecret secret
  if outputKey ≠ ownKey then throw (.signing (.notControlled address))
  return (tweaked, outputKey)

/-- The witness stack for a message, signed with a tweaked secret for the key of an address. -/
def witness (tweaked : Nat) (outputKey m : Bytes) (hashType : Message.HashType) :
    Except SigningFault Bytes := do
  let spendId := Message.toSpendId (script outputKey) m
  let signature ← Schnorr.sign (Message.sighash (script outputKey) spendId hashType) tweaked
  match hashType with
  | .default => return Witness.serialize [signature]
  | .all => return Witness.serialize [signature ++ [1]]

/-- The witness stack for a message, signed with a secret for an address that it controls. -/
def signWitness (secret : Int) (address : String) (m : Bytes) (hashType : Message.HashType) :
    Except Fault Bytes := do
  let (tweaked, outputKey) ← unlock secret address
  witness tweaked outputKey m hashType

/-- The hash type when none is asked for. -/
def usualHashType : Datum := .int 1

/-- Signs with a secret. The hash type is looked at when all else has been checked. -/
def signWithSecret (secret : Int) (address : String) (m : Bytes)
    (hashType : Datum := usualHashType) : Except Fault String := do
  let (tweaked, outputKey) ← unlock secret address
  let hashType ← Message.HashType.accept hashType
  let stack ← witness tweaked outputKey m hashType
  return Base64.encode stack

/-- Signs with an exported key. -/
def sign (wif address : String) (m : Bytes) (hashType : Datum := usualHashType) :
    Except Fault String := do
  let key ← Wif.decode wif
  unless key.compressed do throw (.signing .wifUncompressed)
  match scalar? key.secret with
  | none => throw (.signing .wifScalar)
  | some secret => signWithSecret secret address m hashType

/-- The signature and hash type of the only item of a stack. -/
def signatureOf? (items : List Bytes) : Option (Bytes × Message.HashType) :=
  match items with
  | [item] =>
    if item.length = 64 then some (item, .default)
    else if item.length = 65 ∧ item.getLast? = some 1 then some (item.take 64, .all)
    else none
  | _ => none

/-- Whether a text is a signature of the message for the address. -/
def verify (address : String) (m : Bytes) (signature : String) : Bool :=
  match Base64.decode signature with
  | .error _ => false
  | .ok stack =>
    match Witness.parse stack, keyOfAddress address with
    | .ok items, .ok outputKey =>
      match signatureOf? items with
      | none => false
      | some (sig, hashType) =>
        let spendId := Message.toSpendId (script outputKey) m
        Schnorr.verify (Message.sighash (script outputKey) spendId hashType) outputKey sig
    | _, _ => false

end TokenMetadata.Simple
