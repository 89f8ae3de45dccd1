import TokenMetadata.Fault
import TokenMetadata.Text.Base58

/-!
# Exported private keys

A key is exported as checked base58 of a version byte, the secret, and a byte of one when its public
key is used in compressed form.
-/

namespace TokenMetadata

/-- An exported key. -/
structure Wif where
  version : UInt8
  secret : Bytes
  compressed : Bool
  deriving DecidableEq, Repr

namespace Wif

def versions : List UInt8 := [0x80, 0xef]

def encode (w : Wif) : String :=
  Base58.encodeChecked (w.version :: w.secret ++ if w.compressed then [1] else [])

/-- The version byte of an integer that fits. -/
def versionOf (n : Int) : Except Misuse UInt8 :=
  if 0 ≤ n ∧ n < 256 then .ok (UInt8.ofNat n.toNat) else .error .wrongValue

/-- Splits the bytes behind the checksum. -/
def ofPayload (payload : Bytes) : Except SigningFault Wif :=
  match payload with
  | [] => .error (.wifLength 0)
  | version :: body =>
    if body.length = 33 ∧ body.getLast? = some 1 then finish version (body.take 32) true
    else if body.length = 32 then finish version body false
    else .error (.wifLength payload.length)
where
  /-- A known version makes an exported key. -/
  finish (version : UInt8) (secret : Bytes) (compressed : Bool) : Except SigningFault Wif :=
    if version ∈ versions then .ok ⟨version, secret, compressed⟩ else .error (.wifVersion version)

def decode (s : String) : Except SigningFault Wif :=
  match Base58.decodeChecked s with
  | none => .error .wifEncoding
  | some payload => ofPayload payload

end Wif

end TokenMetadata
