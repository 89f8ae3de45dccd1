import TokenMetadata.Signing.Taproot

/-!
# Schnorr signatures

A signature is the `x` of a point and a number, thirty-two bytes each. The nonce comes from the
secret, the message and auxiliary bytes alone, so that signing gives the same signature every time.
-/

namespace TokenMetadata.Schnorr

open Curve Taproot

/-- The challenge that a nonce point, a key and a message pose. -/
def challenge (r pubkey m : Bytes) : Nat :=
  Bytes.toNatBE (taggedHash "BIP0340/challenge" (r ++ pubkey ++ m)) % groupOrder

/-- The nonce before its sign is settled. -/
def nonce (d : Nat) (pubkey m aux : Bytes) : Nat :=
  let masked := Bytes.ofNatBE 32 (d ^^^ Bytes.toNatBE (taggedHash "BIP0340/aux" aux))
  Bytes.toNatBE (taggedHash "BIP0340/nonce" (masked ++ pubkey ++ m)) % groupOrder

def sign (m : Bytes) (secret : Int) (aux : Bytes := List.replicate 32 0) :
    Except SigningFault Bytes := do
  if secret < 1 ∨ groupOrder ≤ secret then throw .secretOutOfRange
  let point := Point.ofScalar secret.toNat
  let d := evenSecret secret.toNat point
  let pubkey := xBytes point
  let k := nonce d pubkey m aux
  if k = 0 then throw .nonceZero
  let noncePoint := Point.ofScalar k
  let r := xBytes noncePoint
  let e := challenge r pubkey m
  return r ++ Bytes.ofNatBE 32 ((evenSecret k noncePoint + e * d) % groupOrder)

def verify (m pubkey sig : Bytes) : Bool :=
  if sig.length ≠ 64 then false
  else
    match lift pubkey with
    | .error _ => false
    | .ok point =>
      let r := Bytes.toNatBE (sig.take 32)
      let s := Bytes.toNatBE (sig.drop 32)
      if fieldPrime ≤ r ∨ groupOrder ≤ s then false
      else
        let e := challenge (sig.take 32) pubkey m
        match (Point.ofScalar s).add (Point.multiple (groupOrder - e) point) with
        | .infinity => false
        | .affine x y => y.val % 2 = 0 && x.val = r

end TokenMetadata.Schnorr
