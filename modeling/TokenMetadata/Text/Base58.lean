import TokenMetadata.Text.Numeral
import TokenMetadata.Text.Character
import TokenMetadata.Hash.Sha256

/-!
# Base58 text

A byte string is read as a numeral of base 256 and written again in base 58; each zero byte at the
front becomes one `1`. The checked form carries four bytes of a double SHA-256 at the end. Blanks at
the end of a text are ignored.
-/

namespace TokenMetadata.Base58

/-- The alphabet: digits and letters without `0`, `O`, `I` and `l`. -/
def alphabet : List Char :=
  "123456789ABCDEFGHJKLMNPQRSTUVWXYZabcdefghijkmnopqrstuvwxyz".toList

def digit (n : Nat) : Char := alphabet.getD n '1'

def digitValue? (c : Char) : Option Nat := alphabet.idxOf? c

def encode (b : Bytes) : String :=
  String.ofList ((Numeral.rebase 256 58 (b.map UInt8.toNat)).map digit)

def decode (s : String) : Option Bytes := do
  let values ← (dropBlanksAtEnd s.toList).mapM digitValue?
  return (Numeral.rebase 58 256 values).map UInt8.ofNat

/-- The first four bytes of the double hash. -/
def checksum (b : Bytes) : Bytes := (Sha256.hash (Sha256.hash b)).take 4

def encodeChecked (b : Bytes) : String := encode (b ++ checksum b)

def decodeChecked (s : String) : Option Bytes := do
  let b ← decode s
  let body := b.take (b.length - 4)
  if b.drop (b.length - 4) = checksum body then some body else none

end TokenMetadata.Base58
