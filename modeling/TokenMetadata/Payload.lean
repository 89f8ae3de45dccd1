import TokenMetadata.Borsh

/-!
# Instruction payloads

The six instructions of the metadata program as data: a tag byte and the fields. Encoding checks the
limits first; decoding has none, so that everything the program ever accepted can be read.
-/

namespace TokenMetadata

inductive Payload
  | createMetadata (fields : Fields String) (immutable : Bool)
  | updateMetadata (fields : Fields (Option String))
  | createAttributes (data : List Attribute)
  | replaceAttributes (data : List Attribute)
  | transferAuthority (newAuthority : Key)
  | makeImmutable
  deriving DecidableEq

namespace Payload

/-- The first byte of a payload; the order of the instructions is fixed by the program. -/
def tag : Payload → UInt8
  | createMetadata .. => 0
  | updateMetadata .. => 1
  | createAttributes .. => 2
  | replaceAttributes .. => 3
  | transferAuthority .. => 4
  | makeImmutable => 5

def createCodec : Codec (Fields String × Bool) := .pair (.fields .text) .flag

def updateCodec : Codec (Fields (Option String)) := .fields (.option .text)

/-- The bytes of a payload, whether or not it is within the limits. -/
def write (p : Payload) : Bytes :=
  p.tag :: match p with
    | createMetadata fields immutable => createCodec.write (fields, immutable)
    | updateMetadata fields => updateCodec.write fields
    | createAttributes data => Codec.attributes.write data
    | replaceAttributes data => Codec.attributes.write data
    | transferAuthority newAuthority => Codec.key.write newAuthority
    | makeImmutable => []

/-- Reads the fields that belong to a tag. -/
def readBody (tag : UInt8) (b : Bytes) : Except Flaw (Payload × Bytes) :=
  match tag with
  | 0 => do
    let ((fields, immutable), rest) ← createCodec.read b
    return (createMetadata fields immutable, rest)
  | 1 => do
    let (fields, rest) ← updateCodec.read b
    return (updateMetadata fields, rest)
  | 2 => do
    let (data, rest) ← Codec.attributes.read b
    return (createAttributes data, rest)
  | 3 => do
    let (data, rest) ← Codec.attributes.read b
    return (replaceAttributes data, rest)
  | 4 => do
    let (newAuthority, rest) ← Codec.key.read b
    return (transferAuthority newAuthority, rest)
  | _ => .ok (makeImmutable, b)

/-- Reads a payload and returns what follows it. -/
def read : Bytes → Except Malformed (Payload × Bytes)
  | [] => .error .emptyInstruction
  | tag :: body =>
    if 6 ≤ tag then .error (.unknownTag tag)
    else (readBody tag body).mapError (.layout .instruction)

def decode (b : Bytes) : Except Malformed Payload := (·.1) <$> read b

/-- The payload, when it is within the limits. -/
def check : Payload → Except Violation Payload
  | createMetadata fields immutable => do
    let fields ← (fields.map .text).accept
    return createMetadata fields immutable
  | updateMetadata fields => do
    let fields ← (fields.map (·.map .text)).acceptPresent
    return updateMetadata fields
  | createAttributes data => do
    let data ← Attribute.acceptPairs (data.map fun (k, v) => (.text k, .text v))
    return createAttributes data
  | replaceAttributes data => do
    let data ← Attribute.acceptPairs (data.map fun (k, v) => (.text k, .text v))
    return replaceAttributes data
  | p => .ok p

def encode (p : Payload) : Except Violation Bytes := write <$> p.check

end Payload

end TokenMetadata
