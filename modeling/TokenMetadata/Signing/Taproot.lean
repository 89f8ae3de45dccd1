import TokenMetadata.Fault
import TokenMetadata.Curve.Point
import TokenMetadata.Hash.Sha256
import TokenMetadata.Text.Bech32

/-!
# Single-key taproot

An internal key is tweaked with the hash of itself; the tweaked key is what an address stands for.
The secret of the tweaked key is computed from the secret of the internal key by the same tweak.
-/

namespace TokenMetadata.Taproot

open Curve

/-- SHA-256 for one purpose: the hash of the purpose's name stands twice before the message. -/
def taggedHash (tag : String) (m : Bytes) : Bytes :=
  let t := Sha256.hash (Bytes.ofText tag)
  Sha256.hash (t ++ t ++ m)

/-- The point with even `y` whose `x` is given in thirty-two bytes. -/
def lift (xOnly : Bytes) : Except SigningFault Point :=
  if xOnly.length ≠ 32 then .error (.xOnlyLength xOnly.length)
  else
    match liftX (Bytes.toNatBE xOnly) false with
    | some p => .ok p
    | none => .error .xOnlyOffCurve

/-- The number that an internal key is tweaked with. -/
def tweak (xOnly : Bytes) : Nat := Bytes.toNatBE (taggedHash "TapTweak" xOnly)

/-- The `x` of a point in thirty-two bytes; the point at infinity has none and gives zeros. -/
def xBytes : Point → Bytes
  | .infinity => Bytes.ofNatBE 32 0
  | .affine x _ => Bytes.ofNatBE 32 x.val

/-- The `x` of the tweaked internal key. -/
def outputKey (xOnly : Bytes) : Except SigningFault Bytes := do
  let internal ← lift xOnly
  let t := tweak xOnly
  if groupOrder ≤ t then throw .tweakOutOfRange
  match internal.add (Point.ofScalar t) with
  | .infinity => throw .tweakedAtInfinity
  | p => return xBytes p

/-- The secret whose point is the same up to sign and has an even `y`. -/
def evenSecret (d : Nat) : Point → Nat
  | .infinity => d
  | .affine _ y => if y.val % 2 = 0 then d else groupOrder - d

/-- The secret of the tweaked key of a secret, and the `x` of that key. A multiple of the order has
the point at infinity, which has no `y` to look at. -/
def tweakSecret (secret : Int) : Except Fault (Nat × Bytes) := do
  let d := (secret % (groupOrder : Int)).toNat
  let internal := Point.ofScalar d
  if internal = .infinity then throw (.misuse .wrongKind)
  let t := tweak (xBytes internal)
  if groupOrder ≤ t then throw (.signing .tweakOutOfRange)
  let tweaked := (evenSecret d internal + t) % groupOrder
  if tweaked = 0 then throw (.signing .tweakedSecretZero)
  return (tweaked, xBytes (Point.ofScalar tweaked))

/-- The address of a tweaked key. -/
def address (outputKey : Bytes) (hrp : String) : Except SigningFault String :=
  if outputKey.length ≠ 32 then .error (.outputKeyLength outputKey.length)
  else .ok (Bech32.encode hrp 1 outputKey)

/-- The human-readable parts of known networks. -/
def knownPrefixes : List String := ["bcrt", "bc", "tb"]

/-- The tweaked key that an address stands for. -/
def keyOfAddress (address : String) : Except SigningFault Bytes :=
  let lowered := lowerChars address
  match knownPrefixes.find? fun hrp => (hrp.toList ++ ['1']).isPrefixOf lowered with
  | none => .error (.unsupportedAddress address)
  | some hrp =>
    match Bech32.decode hrp address with
    | none => .error (.invalidAddress address)
    | some (version, program) =>
      if version = 1 ∧ program.length = 32 then .ok program else .error (.notTaproot address)

/-- The script that pays to a tweaked key: version 1 and a push of thirty-two bytes. -/
def script (outputKey : Bytes) : Bytes := 0x51 :: 0x20 :: outputKey

/-- The script that an address stands for. -/
def scriptOfAddress (address : String) : Except SigningFault Bytes :=
  script <$> keyOfAddress address

end TokenMetadata.Taproot
