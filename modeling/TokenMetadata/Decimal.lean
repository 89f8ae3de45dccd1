/-!
# Decimal fractions and their nearest double

A decimal is an integer times a power of ten. Its nearest double has a significand below `2 ^ 53`
and an exponent of at least `-1074`; a tie goes to the even significand. A double is written with
the fewest digits that read back as it, positionally from `0.0001` up to below `10 ^ 16` and with an
exponent elsewhere.
-/

namespace TokenMetadata

/-- The number `mantissa * 10 ^ exponent` with a sign, which zero has too, or what stands where no
number is. -/
inductive Decimal
  | number (isNegative : Bool) (mantissa : Nat) (exponent : Int)
  | notANumber
  deriving DecidableEq, Repr

/-- A double without its sign: infinity, or `significand * 2 ^ exponent`, where zero has the
exponent zero. -/
inductive Magnitude
  | infinite
  | finite (significand : Nat) (exponent : Int)
  deriving DecidableEq, Repr

namespace Magnitude

def tenTo (k : Nat) : Nat := Nat.pow 10 k

/-- The quotient rounded to the nearest integer, a half to the even one. -/
def roundDiv (num den : Nat) : Nat :=
  let q := num / den
  let twice := 2 * (num % den)
  if twice < den then q else if den < twice then q + 1 else if q % 2 = 0 then q else q + 1

/-- A quotient divided by `2 ^ exponent`. -/
def scaleDown (num den : Nat) (exponent : Int) : Nat × Nat :=
  if 0 ≤ exponent then (num, den <<< exponent.toNat) else (num <<< (-exponent).toNat, den)

/-- The double nearest to a quotient with positive denominator. -/
def ofQuotient (num den : Nat) : Magnitude :=
  if num = 0 then .finite 0 0
  else
    let guess : Int := (num.log2 : Int) - den.log2 - 52
    let (n, d) := scaleDown num den guess
    let exponent := max (if n < d <<< 52 then guess - 1 else guess) (-1074)
    let (n, d) := scaleDown num den exponent
    let significand := roundDiv n d
    let (significand, exponent) :=
      if significand = 0x20000000000000 then (0x10000000000000, exponent + 1)
      else (significand, exponent)
    if 971 < exponent then .infinite
    else if significand = 0 then .finite 0 0
    else .finite significand exponent

/-- The double nearest to `n * 10 ^ exponent`. From `10 ^ 309` on that is infinity, and up to
`10 ^ (-324)` it is zero. -/
def ofScaled (n : Nat) (exponent : Int) : Magnitude :=
  if n = 0 then .finite 0 0
  else if 309 ≤ exponent then .infinite
  else if 0 ≤ exponent then ofQuotient (n * tenTo exponent.toNat) 1
  else if exponent + (Nat.toDigits 10 n).length ≤ -324 then .finite 0 0
  else ofQuotient n (tenTo (-exponent).toNat)

/-- The value as a quotient. -/
def toQuotient : Magnitude → Nat × Nat
  | infinite => (0, 1)
  | finite m e => if 0 ≤ e then (m <<< e.toNat, 1) else (m, 1 <<< (-e).toNat)

/-- The power of ten just above a positive quotient: `10 ^ (k - 1) ≤ num / den < 10 ^ k`. -/
def tenAbove (num den : Nat) : Int :=
  let whole := num / den
  if 0 < whole then (Nat.toDigits 10 whole).length
  else
    let scale := den.log2 * 3 / 10
    let up := num * tenTo (scale + 2) / den
    (Nat.toDigits 10 up).length - (scale + 2 : Int)

/-- The number of `count` digits nearest to the quotient on the grid below `10 ^ top` that reads
back as the double, if there is one. -/
def onGrid (x : Magnitude) (num den : Nat) (top : Int) (count : Nat) : Option Nat :=
  let unit := top - count
  let (num, den) :=
    if 0 ≤ unit then (num, den * tenTo unit.toNat) else (num * tenTo (-unit).toNat, den)
  let low := num / den
  let nearLow := 2 * (num % den) < den ∨ 2 * (num % den) = den ∧ low % 2 = 0
  let (first, second) := if nearLow then (low, low + 1) else (low + 1, low)
  if ofScaled first unit = x then some first
  else if ofScaled second unit = x then some second
  else none

/-- The shortest digits that read back, as a number and the power of ten of its unit. -/
def shortest (x : Magnitude) : Nat × Int :=
  let (num, den) := x.toQuotient
  let top := tenAbove num den
  let found := (List.range 17).findSome? fun i =>
    (onGrid x num den top (i + 1)).map fun n => (n, i + 1)
  match found with
  | some (n, count) => (n, top - count)
  | none => (0, 0)

/-- Digits with a point after the first `point` of them; zeros fill up on either side. -/
def positional (digits : List Char) (point : Int) : List Char :=
  if point ≤ 0 then '0' :: '.' :: (List.replicate (-point).toNat '0' ++ digits)
  else if digits.length ≤ point then
    digits ++ List.replicate (point.toNat - digits.length) '0' ++ ['.', '0']
  else digits.take point.toNat ++ '.' :: digits.drop point.toNat

/-- Digits with a point after the first and an exponent of at least two digits. -/
def scientific (digits : List Char) (point : Int) : List Char :=
  let power := point - 1
  let shown := Nat.toDigits 10 power.natAbs
  let fraction := if digits.length ≤ 1 then [] else '.' :: digits.drop 1
  digits.take 1 ++ fraction ++ 'e' :: (if power < 0 then '-' else '+') ::
    (List.replicate (2 - shown.length) '0' ++ shown)

def render : Magnitude → List Char
  | infinite => "inf".toList
  | finite 0 _ => "0.0".toList
  | x@(finite _ _) =>
    let (n, unit) := x.shortest
    let all := Nat.toDigits 10 n
    let digits := (all.reverse.dropWhile (· = '0')).reverse
    let point := unit + all.length
    if -4 < point ∧ point ≤ 16 then positional digits point else scientific digits point

end Magnitude

namespace Decimal

/-- A decimal beyond all doubles. -/
def infinite (isNegative : Bool) : Decimal := number isNegative 1 309

/-- Whether the nearest double is not zero. -/
def isNonzero : Decimal → Bool
  | number _ mantissa exponent => Magnitude.ofScaled mantissa exponent != .finite 0 0
  | notANumber => true

/-- The text of the nearest double. -/
def render : Decimal → String
  | number isNegative mantissa exponent =>
    String.ofList ((if isNegative then ['-'] else []) ++
      (Magnitude.ofScaled mantissa exponent).render)
  | notANumber => "nan"

/-- Whether the nearest doubles are one number; zero is one number with either sign. What is not a
number is the same wherever it stands. -/
def same : Decimal → Decimal → Bool
  | number n m e, number n' m' e' =>
    let x := Magnitude.ofScaled m e
    x == .ofScaled m' e' && (n == n' || x == .finite 0 0)
  | notANumber, notANumber => true
  | _, _ => false

/-- Whether the nearest double is an integer, and which. -/
def sameInt (d : Decimal) (k : Int) : Bool :=
  match d with
  | notANumber => false
  | number isNegative mantissa exponent =>
    match Magnitude.ofScaled mantissa exponent with
    | .infinite => false
    | x@(.finite _ _) =>
      let (num, den) := x.toQuotient
      let signed : Int := if isNegative then -num else num
      signed == k * den

/-- Whether the nearest double is less than a natural number. -/
def isBelow (d : Decimal) (k : Nat) : Bool :=
  match d with
  | notANumber => false
  | number isNegative mantissa exponent =>
    match Magnitude.ofScaled mantissa exponent with
    | .infinite => isNegative
    | x@(.finite _ _) =>
      let (num, den) := x.toQuotient
      let signed : Int := if isNegative then -num else num
      signed < k * den

end Decimal

end TokenMetadata
