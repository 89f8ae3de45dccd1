import TokenMetadata.Bytes

/-!
# Hexadecimal text

Bytes are written as two lower-case digits each. Reading takes digits of either case and skips
ASCII blanks before, between and after the pairs, but not inside a pair.
-/

namespace TokenMetadata.Hex

/-- The digit of a value below sixteen. -/
def digit (n : Nat) : Char :=
  if n < 10 then Char.ofNat (48 + n) else Char.ofNat (87 + n)

/-- The value of a digit of either case. -/
def digitValue? (c : Char) : Option Nat :=
  if '0' ≤ c ∧ c ≤ '9' then some (c.toNat - 48)
  else if 'a' ≤ c ∧ c ≤ 'f' then some (c.toNat - 87)
  else if 'A' ≤ c ∧ c ≤ 'F' then some (c.toNat - 55)
  else none

/-- The characters that may stand between pairs: space, tab, line feed, vertical tab, form feed
and carriage return. -/
def isGap (c : Char) : Bool := c == ' ' || ('\t' ≤ c && c ≤ '\r')

def byteDigits (b : UInt8) : List Char := [digit (b.toNat / 16), digit (b.toNat % 16)]

def encode (b : Bytes) : String := String.ofList (b.flatMap byteDigits)

def decodeChars : List Char → Option Bytes
  | [] => some []
  | [c] => if isGap c then some [] else none
  | c :: d :: rest =>
    if isGap c then decodeChars (d :: rest)
    else do
      let high ← digitValue? c
      let low ← digitValue? d
      let bytes ← decodeChars rest
      return UInt8.ofNat (16 * high + low) :: bytes

def decode (s : String) : Option Bytes := decodeChars s.toList

end TokenMetadata.Hex
