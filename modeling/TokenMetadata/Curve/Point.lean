import TokenMetadata.Bytes

/-!
# The curve and its field

The field is that of the residues modulo the prime `2 ^ 256 - 2 ^ 32 - 977`. Powers are taken by
squaring along the bits of the exponent; the inverse and the square root are powers, by Fermat's
theorem and because the prime is 3 modulo 4.

The curve is `y ^ 2 = x ^ 3 + 7` over the field, with a point at infinity as its zero. Addition is
the chord and tangent rule; multiples are taken by doubling along the bits of the factor. As a byte
string a point is 33 bytes, the parity of `y` and `x`, or 65 bytes, both coordinates; no other form
counts.
-/

namespace TokenMetadata.Curve

/-- The size of the field. -/
abbrev fieldPrime : Nat := 0xfffffffffffffffffffffffffffffffffffffffffffffffffffffffefffffc2f

instance : @NeZero Nat Zero.ofOfNat0 fieldPrime := ⟨Nat.succ_ne_zero _⟩

abbrev Residue := Fin fieldPrime

/-- The power whose exponent is the low `width` bits of `e`. -/
def powBits (m : Nat) : (width b e : Nat) → Nat
  | 0, _, _ => 1 % m
  | width + 1, b, e =>
    let rest := powBits m width (b * b % m) (e / 2)
    if e % 2 = 1 then b * rest % m else rest

/-- The power `b ^ e` modulo `m`. -/
def powMod (m b e : Nat) : Nat := powBits m (e.log2 + 1) (b % m) e

namespace Residue

def pow (a : Residue) (e : Nat) : Residue := Fin.ofNat fieldPrime (powMod fieldPrime a.val e)

/-- The inverse; zero is its own. -/
def inv (a : Residue) : Residue := pow a (fieldPrime - 2)

/-- A square root, when there is one. -/
def sqrt? (a : Residue) : Option Residue :=
  let root := pow a ((fieldPrime + 1) / 4)
  if root * root = a then some root else none

end Residue

inductive Point
  | infinity
  | affine (x y : Residue)
  deriving DecidableEq, Repr

/-- The value that `y ^ 2` has at `x`. -/
def rightSide (x : Residue) : Residue := x * x * x + 7

def OnCurve (x y : Residue) : Prop := y * y = rightSide x

instance (x y : Residue) : Decidable (OnCurve x y) := inferInstanceAs (Decidable (_ = _))

/-- The count of multiples of the generator. -/
abbrev groupOrder : Nat := 0xfffffffffffffffffffffffffffffffebaaedce6af48a03bbfd25e8cd0364141

namespace Point

def generator : Point :=
  .affine 0x79be667ef9dcbbac55a06295ce870b07029bfcdb2dce28d959f2815b16f81798
    0x483ada7726a3c4655da4fbfc0e1108a8fd17b448a68554199c47d08ffb10d4b8

/-- The slope of the line through two points, or of the tangent where they are one. -/
def slope (x₁ y₁ x₂ y₂ : Residue) : Residue :=
  if x₁ = x₂ then 3 * (x₁ * x₁) * Residue.inv (y₁ + y₁)
  else (y₁ - y₂) * Residue.inv (x₁ - x₂)

def add : Point → Point → Point
  | infinity, q => q
  | p, infinity => p
  | affine x₁ y₁, affine x₂ y₂ =>
    if x₁ = x₂ ∧ y₁ = -y₂ then infinity
    else
      let l := slope x₁ y₁ x₂ y₂
      let x := l * l - x₁ - x₂
      affine x (-(l * (x - x₁) + y₁))

/-- The multiple whose factor is the low `width` bits of `k`. -/
def multipleBits : (width k : Nat) → Point → Point
  | 0, _, _ => infinity
  | width + 1, k, p =>
    let rest := multipleBits width (k / 2) (add p p)
    if k % 2 = 1 then add p rest else rest

/-- The sum of `k` copies of the point. -/
def multiple (k : Nat) (p : Point) : Point := multipleBits (k.log2 + 1) k p

/-- The sum of `k` copies of the generator. -/
def ofScalar (k : Nat) : Point := multiple k generator

end Point

/-- The point with the given `x` and the given parity of `y`, when there is one. -/
def liftX (x : Nat) (odd : Bool) : Option Point :=
  if h : x < fieldPrime then
    let x : Residue := ⟨x, h⟩
    (Residue.sqrt? (rightSide x)).map fun y =>
      .affine x (if decide (y.val % 2 = 1) = odd then y else -y)
  else none

/-- The point that a byte string stands for. -/
def decodePoint? : Bytes → Option Point
  | [] => none
  | tag :: body =>
    if body.length = 32 then
      if tag = 2 then liftX (Bytes.toNatBE body) false
      else if tag = 3 then liftX (Bytes.toNatBE body) true
      else none
    else if body.length = 64 ∧ tag = 4 then
      let x := Bytes.toNatBE (body.take 32)
      let y := Bytes.toNatBE (body.drop 32)
      if h : x < fieldPrime ∧ y < fieldPrime then
        if OnCurve ⟨x, h.1⟩ ⟨y, h.2⟩ then some (.affine ⟨x, h.1⟩ ⟨y, h.2⟩) else none
      else none
    else none

def isOnCurve (b : Bytes) : Bool := (decodePoint? b).isSome

end TokenMetadata.Curve
