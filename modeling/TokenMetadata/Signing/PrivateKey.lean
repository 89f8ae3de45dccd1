import TokenMetadata.Bytes.Size
import TokenMetadata.Signing.Simple
import TokenMetadata.Text.Hex

/-!
# Networks and private keys

A network sets the human-readable part of addresses and the version byte of exported keys. A private
key is raw bytes or hexadecimal text. From it come the public key, the address on a network, the
exported form, and signatures of messages.
-/

namespace TokenMetadata

inductive Network
  | mainnet
  | testnet
  | regtest
  deriving DecidableEq, Repr

namespace Network

def name : Network → String
  | mainnet => "mainnet"
  | testnet => "testnet"
  | regtest => "regtest"

def hrp : Network → String
  | mainnet => "bc"
  | testnet => "tb"
  | regtest => "bcrt"

def wifVersion : Network → UInt8
  | mainnet => 0x80
  | _ => 0xef

def ofName? (s : String) : Option Network :=
  [mainnet, testnet, regtest].find? (·.name = s)

/-- A network from a value of any type. -/
def accept (v : Datum) : Except SigningFault Network :=
  match v with
  | .text s =>
    match ofName? s with
    | some n => .ok n
    | none => .error (.unknownNetwork v)
  | _ => .error (.unknownNetwork v)

end Network

namespace PrivateKey

open Curve Taproot

/-- The bytes of a key of any type. -/
def bytes (key : Datum) : Except SigningFault Bytes :=
  match key with
  | .text s =>
    match Hex.decode s with
    | some b => .ok b
    | none => .error .keyNotHex
  | .bytes b => .ok b
  | v => .error (.keyKind v.kind)

/-- The thirty-two bytes of a key. -/
def secret (key : Datum) : Except SigningFault Bytes := do
  let b ← bytes key
  if b.length ≠ 32 then throw (.keyLength b.length)
  return b

def scalar (key : Datum) : Except SigningFault Nat := do
  let b ← secret key
  match Simple.scalar? b with
  | some d => return d
  | none => throw .invalidScalar

/-- The `x` of the public key. -/
def xOnly (key : Datum) : Except SigningFault Bytes :=
  (fun d => xBytes (Point.ofScalar d)) <$> scalar key

/-- The address of a public key on a network. -/
def addressOn (xOnly : Bytes) (network : Network) : Except SigningFault String := do
  let k ← outputKey xOnly
  address k network.hrp

def deriveAddress (xOnly : Bytes) (network : Datum) : Except SigningFault String := do
  let n ← Network.accept network
  addressOn xOnly n

/-- The exported form of a key; it is not required to be a scalar. -/
def toWif (key network : Datum) : Except SigningFault String := do
  let n ← Network.accept network
  let b ← secret key
  return Wif.encode ⟨n.wifVersion, b, true⟩

/-- Signs for the key's own address on a network. -/
def signOn (key : Datum) (m : Bytes) (network : Network) : Except Fault Bytes := do
  let d ← scalar key
  let own ← addressOn (xBytes (Point.ofScalar d)) network
  let witness ← Simple.signWitness d own m .all
  Witness.extractSignature witness

/-- The byte that a number is. -/
def byte (v : Datum) : Except Misuse UInt8 :=
  match v.toInt? with
  | some n => if 0 ≤ n ∧ n < 256 then .ok (UInt8.ofNat n.toNat) else .error .wrongValue
  | none => .error .wrongKind

/-- The bytes of a message: a text's UTF-8, the bytes themselves or one by one, or a count of
zeros that memory holds. -/
def messageBytes (memory : Nat) (message : Datum) : Except Misuse Bytes :=
  match message, message.toInt? with
  | .text s, _ => .ok (Bytes.ofText s)
  | .bytes b, _ => .ok b
  | .list items, _ => items.mapM byte
  | .record [], _ => .ok []
  | _, some n => (List.replicate · 0) <$> Bytes.acceptSize memory n
  | _, none => .error .wrongKind

/-- Signs a message: the network is looked at first, then the message, then the key. -/
def sign (memory : Nat) (key message network : Datum) : Except Fault Bytes := do
  let n ← Network.accept network
  let m ← messageBytes memory message
  signOn key m n

end PrivateKey

end TokenMetadata
