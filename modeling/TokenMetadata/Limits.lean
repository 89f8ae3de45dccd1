import TokenMetadata.Fault

/-!
# Limits of the token metadata program

What the program accepts, checked before anything is written: byte caps of the text fields, the
count and the caps of attributes, and the range of budget numbers. Nothing is ever cut short; the
first value that breaks a limit is named.
-/

namespace TokenMetadata

/-- The text fields of a token's metadata, in the order in which they are checked and written. -/
inductive TextField
  | name
  | symbol
  | image
  | description
  deriving DecidableEq, Repr

namespace TextField

def label : TextField → String
  | name => "name"
  | symbol => "symbol"
  | image => "image"
  | description => "description"

/-- The most UTF-8 bytes that the field may have. -/
def limit : TextField → Nat
  | name => 256
  | symbol => 16
  | image => 512
  | description => 512

end TextField

/-- One value for each text field. -/
structure Fields (α : Type) where
  name : α
  symbol : α
  image : α
  description : α
  deriving DecidableEq, Repr

namespace Fields

def map {α β : Type} (f : α → β) (x : Fields α) : Fields β :=
  ⟨f x.name, f x.symbol, f x.image, f x.description⟩

/-- Goes through the fields in order and stops at the first failure. -/
def traverse {ε α β : Type} (f : TextField → α → Except ε β) (x : Fields α) :
    Except ε (Fields β) := do
  let name ← f .name x.name
  let symbol ← f .symbol x.symbol
  let image ← f .image x.image
  let description ← f .description x.description
  return ⟨name, symbol, image, description⟩

end Fields

/-- A text of at most `limit` UTF-8 bytes. -/
def acceptText (field : String) (limit : Nat) : Datum → Except Violation String
  | .text s =>
    if limit < s.utf8ByteSize then .error ⟨field, .tooLong s.utf8ByteSize (.int limit)⟩ else .ok s
  | v => .error ⟨field, .wrongKind "str" v.kind (.int limit)⟩

/-- A text within a limit of any type. Only a text is compared with the limit, which has to be a
number then. -/
def acceptTextWithin (field : String) (limit : Datum) : Datum → Except Fault String
  | .text s =>
    match limit.isBelow? s.utf8ByteSize with
    | none => .error (.misuse .wrongKind)
    | some true => .error (.violation ⟨field, .tooLong s.utf8ByteSize limit⟩)
    | some false => .ok s
  | v => .error (.violation ⟨field, .wrongKind "str" v.kind limit⟩)

def TextField.accept (f : TextField) (v : Datum) : Except Violation String :=
  acceptText f.label f.limit v

namespace Fields

/-- Fields that are all present. -/
def accept (x : Fields Datum) : Except Violation (Fields String) := x.traverse TextField.accept

/-- Fields of which some may be absent; only those present are checked. -/
def acceptPresent (x : Fields (Option Datum)) : Except Violation (Fields (Option String)) :=
  x.traverse fun f v => v.mapM f.accept

end Fields

/-- A key and a value. -/
abbrev Attribute := String × String

namespace Attribute

def maxCount : Nat := 32

def maxKeySize : Nat := 64

def maxValueSize : Nat := 240

/-- A pair of texts that are not empty: emptiness is found before the type and the length. -/
def accept (index : Nat) (key value : Datum) : Except Violation Attribute := do
  let keyField := s!"attributes[{index}].key"
  let valueField := s!"attributes[{index}].value"
  unless key.isTruthy do throw ⟨keyField, .empty⟩
  unless value.isTruthy do throw ⟨valueField, .empty⟩
  let k ← acceptText keyField maxKeySize key
  let v ← acceptText valueField maxValueSize value
  return (k, v)

/-- A list of attributes: the count is checked before any of them. -/
def acceptEach {α : Type} (accept : Nat → α → Except Violation Attribute) (xs : List α) :
    Except Violation (List Attribute) :=
  if maxCount < xs.length then .error ⟨"attributes", .tooMany xs.length maxCount⟩
  else xs.zipIdx.mapM fun (x, i) => accept i x

/-- Attributes given as pairs. -/
def acceptPairs (xs : List (Datum × Datum)) : Except Violation (List Attribute) :=
  acceptEach (fun i (k, v) => Attribute.accept i k v) xs

/-- The two items of a value that has exactly two. -/
def pair? (v : Datum) : Option (Datum × Datum) :=
  match v.items? with
  | some [k, w] => some (k, w)
  | _ => none

/-- Attributes given as any value that has items. -/
def acceptAll (v : Datum) : Except Fault (List Attribute) :=
  match v.items? with
  | none => .error (.misuse .wrongKind)
  | some xs =>
    (acceptEach (fun i x =>
      match pair? x with
      | some (k, w) => Attribute.accept i k w
      | none => .error ⟨s!"attributes[{i}]", .notAPair⟩) xs).mapError .violation

end Attribute

/-- An integer of thirty-two bits; a truth value is not a number here. -/
def acceptWord (field : String) : Datum → Except Violation UInt32
  | .int n =>
    if n < 0 ∨ Violation.wordMax < n then .error ⟨field, .outOfWord n⟩
    else .ok (UInt32.ofNat n.toNat)
  | v => .error ⟨field, .wrongKind "int" v.kind (.int Violation.wordMax)⟩

/-- The unit in which heap is asked for. -/
def heapUnit : Nat := 1024

/-- A heap size: an integer of thirty-two bits in whole units. -/
def acceptHeap (v : Datum) : Except Violation UInt32 := do
  let n ← acceptWord "heap_bytes" v
  if n.toNat % heapUnit ≠ 0 then throw ⟨"heap_bytes", .unaligned n.toNat heapUnit⟩
  return n

/-- An integer for a field of `bits` bits on the wire; truth values count as 0 and 1. -/
def acceptField (bits : Nat) (v : Datum) : Except Misuse Nat :=
  match v.toInt? with
  | some n => if 0 ≤ n ∧ n.toNat < Nat.pow 2 bits then .ok n.toNat else .error .outOfField
  | none => .error .outOfField

end TokenMetadata
