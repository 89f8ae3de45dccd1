import TokenMetadata.Fault

/-!
# Witness stacks

A stack is a count and its items, each with its size in front. Counts and sizes take one byte below
253, and otherwise a marker byte and two, four or eight bytes.
-/

namespace TokenMetadata

/-- A count in as few bytes as the form allows. -/
def compactSize (n : Nat) : Bytes :=
  if n < 0xfd then [UInt8.ofNat n]
  else if n ≤ 0xffff then 0xfd :: Bytes.ofNatLE 2 n
  else if n ≤ 0xffffffff then 0xfe :: Bytes.ofNatLE 4 n
  else 0xff :: Bytes.ofNatLE 8 n

/-- The form of any integer that has one. -/
def compactSize? (n : Int) : Except Misuse Bytes :=
  if n < 0 then .error .wrongValue
  else if n ≤ 0xffffffffffffffff then .ok (compactSize n.toNat)
  else .error .tooLarge

namespace Witness

def serialize (items : List Bytes) : Bytes :=
  compactSize items.length ++ items.flatMap fun item => compactSize item.length ++ item

/-- The bytes behind a marker. -/
def countWidth (marker : UInt8) : Nat :=
  if marker = 0xfd then 2 else if marker = 0xfe then 4 else if marker = 0xff then 8 else 0

def readCount : Bytes → Except SigningFault (Nat × Bytes)
  | [] => .error .witnessTruncated
  | marker :: rest =>
    let width := countWidth marker
    if width = 0 then .ok (marker.toNat, rest)
    else if width ≤ rest.length then .ok (Bytes.toNatLE (rest.take width), rest.drop width)
    else .error .witnessTruncated

/-- How many counts and sizes were looked at, and what came of it. -/
structure Reading where
  lookups : Nat
  result : Except SigningFault (List Bytes)

/-- Reads a number of items; the first that is cut off ends the reading. -/
def readItems : (count : Nat) → Bytes → Reading
  | 0, _ => ⟨0, .ok []⟩
  | count + 1, b =>
    match readCount b with
    | .error e => ⟨1, .error e⟩
    | .ok (size, rest) =>
      if size ≤ rest.length then
        let more := readItems count (rest.drop size)
        ⟨more.lookups + 1, (rest.take size :: ·) <$> more.result⟩
      else ⟨1, .error .witnessItemTruncated⟩

/-- Reads the count of a stack and its items; bytes behind them are ignored. -/
def read (b : Bytes) : Reading :=
  match readCount b with
  | .error e => ⟨1, .error e⟩
  | .ok (count, rest) =>
    let items := readItems count rest
    ⟨items.lookups + 1, items.result⟩

/-- The items of a stack. -/
def parse (b : Bytes) : Except SigningFault (List Bytes) := (read b).result

/-- The signature at the end of a stack, before a hash type of one when there is one. -/
def extractSignature (b : Bytes) : Except SigningFault Bytes :=
  let stop := if b.getLast? = some 1 then b.length - 1 else b.length
  if stop < 64 then .error (.witnessShort b.length)
  else .ok ((b.take stop).drop (stop - 64))

end Witness

end TokenMetadata
