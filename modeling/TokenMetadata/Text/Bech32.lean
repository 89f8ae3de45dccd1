import TokenMetadata.Bytes
import TokenMetadata.Text.Character

/-!
# Segregated witness addresses

An address is a human-readable part, the separator `1`, the witness version, the witness program in
groups of five bits, and a checksum of six characters. The checksum constant depends on the version:
version 0 has the first constant and every other version the second. An address is written in lower
or in upper case, never in both.
-/

namespace TokenMetadata.Bech32

/-- The characters of the thirty-two values. -/
def alphabet : List Char := "qpzry9x8gf2tvdw0s3jn54khce6mua7l".toList

def digit (n : Nat) : Char := alphabet.getD n 'q'

def digitValue? (c : Char) : Option Nat := alphabet.idxOf? c

/-- The generator words that a carried value mixes in, one for each of its five bits. -/
def generator : List Nat := [0x3b6a57b2, 0x26508e6d, 0x1ea119fa, 0x3d4233dd, 0x2a1462b3]

/-- The words of the generator whose bit is set in `top`, mixed into `chk`. -/
def mixIn (top chk : Nat) : Nat :=
  (generator.zipIdx).foldl (fun chk (word, i) => if top.testBit i then chk ^^^ word else chk) chk

/-- One step of the checksum: five more bits enter. -/
def polymodStep (chk value : Nat) : Nat :=
  mixIn (chk >>> 25) (((chk % 0x2000000) <<< 5) ^^^ value)

def polymod (values : List Nat) : Nat := values.foldl polymodStep 1

/-- The human-readable part as values: the high bits of each character, a zero, the low bits. -/
def expandPrefix (hrp : List Char) : List Nat :=
  hrp.map (·.toNat / 32) ++ 0 :: hrp.map (·.toNat % 32)

/-- The checksum constant of a witness version. -/
def constant (version : Nat) : Nat := if version = 0 then 1 else 0x2bc830a3

def checksum (hrp : List Char) (version : Nat) (data : List Nat) : List Nat :=
  let m := polymod (expandPrefix hrp ++ data ++ List.replicate 6 0) ^^^ constant version
  [25, 20, 15, 10, 5, 0].map fun shift => (m >>> shift) % 32

/-- The low `width` bits of a number, most significant first. -/
def bits : (width : Nat) → (n : Nat) → List Bool
  | 0, _ => []
  | width + 1, n => n.testBit width :: bits width n

def ofBits (bs : List Bool) : Nat := bs.foldl (fun n b => 2 * n + b.toNat) 0

/-- Bytes in groups of five bits; the last group is filled with zero bits. -/
def toFives (b : Bytes) : List Nat :=
  (chunksOf 5 (b.flatMap fun x => bits 8 x.toNat)).map fun group =>
    ofBits (group ++ List.replicate (5 - group.length) false)

/-- The whole bytes of groups of five bits. At most four bits may be left over, and they are zero.
-/
def ofFives? (values : List Nat) : Option Bytes :=
  let all := values.flatMap (bits 5)
  let whole := all.length / 8 * 8
  let left := all.drop whole
  if left.length ≤ 4 ∧ left.all (!·) then
    some ((chunksOf 8 (all.take whole)).map fun group => UInt8.ofNat (ofBits group))
  else none

/-- The address of a witness program. The human-readable part stands as it is given. -/
def encode (hrp : String) (version : Nat) (program : Bytes) : String :=
  let data := version :: toFives program
  String.ofList
    (hrp.toList ++ '1' :: (data ++ checksum hrp.toList version data).map digit)

/-- Whether letters of both cases occur. -/
def mixedCase (s : List Char) : Bool :=
  s.any (fun c => lowerChar c != c) && s.any (fun c => c.toUpper != c)

/-- The parts before and after the last separator. -/
def splitLast (separator : Char) (s : List Char) : Option (List Char × List Char) :=
  match s.reverse.dropWhile (· != separator) with
  | [] => none
  | _ :: front => some (front.reverse, (s.reverse.takeWhile (· != separator)).reverse)

/-- The human-readable part and the values behind it, when the text is well formed and the checksum
is right; the values come without the checksum. -/
def decodeText (s : List Char) : Option (List Char × List Nat) := do
  if mixedCase s then none
  let (hrp, body) ← splitLast '1' (s.map lowerChar)
  if hrp.isEmpty || hrp.any (fun c => c.toNat < 33 || 126 < c.toNat) then none
  if body.length < 7 then none
  let values ← body.mapM digitValue?
  if polymod (expandPrefix hrp ++ values) = constant (values.headD 0) then
    some (hrp, values.take (values.length - 6))
  else none

/-- The witness version and program of an address with the given human-readable part. -/
def decode (hrp : String) (address : String) : Option (Nat × Bytes) := do
  let (found, values) ← decodeText address.toList
  if found ≠ hrp.toList then none
  match values with
  | [] => none
  | version :: groups =>
    let program ← ofFives? groups
    if program.length < 2 ∨ 40 < program.length then none
    if 16 < version then none
    if version = 0 ∧ program.length ≠ 20 ∧ program.length ≠ 32 then none
    return (version, program)

end TokenMetadata.Bech32
