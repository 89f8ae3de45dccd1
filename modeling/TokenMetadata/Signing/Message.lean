import TokenMetadata.Signing.Taproot
import TokenMetadata.Signing.Witness

/-!
# Hashes of signed messages

A message is bound to a script by two transactions that are never sent: one that pays to the script
and carries the hash of the message, and one that spends it. What is signed is the hash of the
second.
-/

namespace TokenMetadata.Message

open Taproot

def hash (m : Bytes) : Bytes := taggedHash "BIP0322-signed-message" m

/-- The first transaction. -/
def toSpend (script m : Bytes) : Bytes :=
  let scriptSig := 0x00 :: 0x20 :: hash m
  Bytes.ofNatLE 4 0 ++ compactSize 1 ++ List.replicate 32 0 ++ Bytes.ofNatLE 4 0xffffffff ++
    compactSize scriptSig.length ++ scriptSig ++ Bytes.ofNatLE 4 0 ++ compactSize 1 ++
    Bytes.ofNatLE 8 0 ++ compactSize script.length ++ script ++ Bytes.ofNatLE 4 0

/-- The identifier of the first transaction, in the order of the digest. -/
def toSpendId (script m : Bytes) : Bytes := Sha256.hash (Sha256.hash (toSpend script m))

/-- What of the spending transaction the signature covers. -/
inductive HashType
  | default
  | all
  deriving DecidableEq, Repr

namespace HashType

def toByte : HashType → UInt8
  | default => 0
  | all => 1

def ofInt (n : Int) : Except SigningFault HashType :=
  if n = 0 then .ok default else if n = 1 then .ok all else .error (.sighashType n)

/-- A hash type from a value of any type. A decimal that equals one is not a byte; other decimals
and texts have no form in hexadecimal. -/
def accept (v : Datum) : Except Fault HashType :=
  match v, v.toInt? with
  | _, some n => (ofInt n).mapError .signing
  | .text _, none => .error (.misuse .wrongValue)
  | .decimal d, none =>
    if d.sameInt 0 || d.sameInt 1 then .error (.misuse .wrongKind)
    else .error (.misuse .wrongValue)
  | _, none => .error (.misuse .wrongKind)

end HashType

/-- The digests of the spending transaction's parts in the order in which they are signed. -/
def signedParts (script spendId : Bytes) (hashType : HashType) : Bytes :=
  hashType.toByte :: (Bytes.ofNatLE 4 0 ++ Bytes.ofNatLE 4 0 ++
    Sha256.hash (spendId ++ Bytes.ofNatLE 4 0) ++
    Sha256.hash (Bytes.ofNatLE 8 0) ++
    Sha256.hash (compactSize script.length ++ script) ++
    Sha256.hash (Bytes.ofNatLE 4 0) ++
    Sha256.hash (Bytes.ofNatLE 8 0 ++ compactSize 1 ++ [0x6a]) ++
    [0x00] ++ Bytes.ofNatLE 4 0)

/-- The hash that is signed. -/
def sighash (script spendId : Bytes) (hashType : HashType) : Bytes :=
  taggedHash "TapSighash" (0x00 :: signedParts script spendId hashType)

end TokenMetadata.Message
