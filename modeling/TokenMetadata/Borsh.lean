import TokenMetadata.Key

/-!
# Wire formats

A format is a writer together with a reader that returns what it has not used. Numbers are
little-endian; a text or a list is preceded by its length in four bytes; an optional value is
preceded by a flag. A flag that is not zero reads as true. What follows the last field is left over.
-/

namespace TokenMetadata

/-- A writer and a reader for the values of a type. -/
structure Codec (α : Type) where
  write : α → Bytes
  read : Bytes → Except Flaw (α × Bytes)

namespace Codec

/-- The first `n` bytes and the rest. -/
def takeBytes (n : Nat) (b : Bytes) : Except Flaw (Bytes × Bytes) :=
  if n ≤ b.length then .ok (b.take n, b.drop n) else .error .truncated

/-- A number in `width` bytes. -/
def number (width : Nat) : Codec Nat where
  write n := Bytes.ofNatLE width n
  read b := do
    let (bytes, rest) ← takeBytes width b
    return (Bytes.toNatLE bytes, rest)

/-- A byte that tells true from false. -/
def flag : Codec Bool where
  write x := [if x then 1 else 0]
  read
    | [] => .error .truncated
    | x :: rest => .ok (x != 0, rest)

def key : Codec Key where
  write k := k.toBytes
  read b :=
    if h : 32 ≤ b.length then .ok (⟨b.take 32, by simp [h]⟩, b.drop 32) else .error .truncated

/-- A text: its length, then all its bytes, which are decoded only when all are there. -/
def text : Codec String where
  write s := Bytes.ofNatLE 4 s.utf8ByteSize ++ Bytes.ofText s
  read b := do
    let (size, rest) ← (number 4).read b
    let (bytes, rest) ← takeBytes size rest
    match Bytes.toText? bytes with
    | some s => return (s, rest)
    | none => throw .notUtf8

def option {α : Type} (c : Codec α) : Codec (Option α) where
  write
    | none => flag.write false
    | some x => flag.write true ++ c.write x
  read b := do
    let (present, rest) ← flag.read b
    if present then
      let (x, rest) ← c.read rest
      return (some x, rest)
    else return (none, rest)

/-- Reads a number of items one after the other. -/
def readMany {α : Type} (c : Codec α) : (count : Nat) → Bytes → Except Flaw (List α × Bytes)
  | 0, b => .ok ([], b)
  | count + 1, b => do
    let (x, rest) ← c.read b
    let (xs, rest) ← readMany c count rest
    return (x :: xs, rest)

def list {α : Type} (c : Codec α) : Codec (List α) where
  write xs := Bytes.ofNatLE 4 xs.length ++ xs.flatMap c.write
  read b := do
    let (count, rest) ← (number 4).read b
    readMany c count rest

def pair {α β : Type} (c : Codec α) (d : Codec β) : Codec (α × β) where
  write x := c.write x.1 ++ d.write x.2
  read b := do
    let (x, rest) ← c.read b
    let (y, rest) ← d.read rest
    return ((x, y), rest)

/-- The same bytes for another type. -/
def imap {α β : Type} (there : α → β) (back : β → α) (c : Codec α) : Codec β where
  write y := c.write (back y)
  read b := do
    let (x, rest) ← c.read b
    return (there x, rest)

/-- The text fields of a token, in order. -/
def fields {α : Type} (c : Codec α) : Codec (Fields α) :=
  imap (fun (name, symbol, image, description) => ⟨name, symbol, image, description⟩)
    (fun x => (x.name, x.symbol, x.image, x.description))
    (pair c (pair c (pair c c)))

def attributes : Codec (List Attribute) := list (pair text text)

end Codec

end TokenMetadata
