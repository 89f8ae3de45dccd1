import TokenMetadata.Bytes.Size
import TokenMetadata.Payload.Draft

/-!
# Account records

The two accounts of a token: its metadata and its attributes. Packing checks the limits and fills up
with zeros to the size that is asked for; unpacking ignores what follows the record.
-/

namespace TokenMetadata

/-- Fills up with zeros to a size, when one is asked for and memory holds as many bytes. A decimal
can be too small but is no size. -/
def packTo (memory : Nat) (room : Datum) (raw : Bytes) : Except Fault Bytes :=
  match room, room.isBelow? raw.length, room.toInt? with
  | .null, _, _ => .ok raw
  | _, some true, _ => .error (.violation ⟨"account", .packedTooLong raw.length room⟩)
  | _, _, some size => ((raw.padRight ·) <$> Bytes.acceptSize memory size).mapError .misuse
  | _, _, none => .error (.misuse .wrongKind)

/-- The metadata account of a token. -/
structure Metadata where
  mint : Key
  fields : Fields String
  updateAuthority : Option Key := none
  isInitialized : Bool := true
  deriving DecidableEq

namespace Metadata

/-- Nobody may change metadata without an authority. -/
def isImmutable (m : Metadata) : Bool := m.updateAuthority.isNone

def codec : Codec Metadata :=
  Codec.imap
    (fun (isInitialized, mint, fields, updateAuthority) =>
      ⟨mint, fields, updateAuthority, isInitialized⟩)
    (fun m => (m.isInitialized, m.mint, m.fields, m.updateAuthority))
    (.pair .flag (.pair .key (.pair (.fields .text) (.option .key))))

/-- A record from values of any type: the fields are checked first, then the authority, then the
mint. -/
def accept (mint : Datum) (fields : Fields Datum) (updateAuthority : Option Datum)
    (isInitialized : Datum) : Except Fault Metadata := do
  let fields ← fields.accept
  let updateAuthority ← updateAuthority.mapM Key.accept
  let mint ← Key.accept mint
  return ⟨mint, fields, updateAuthority, isInitialized.isTruthy⟩

/-- A record of values of any type; the authority may be missing, and without a mark the record is
initialized. -/
def ofDatum (v : Datum) : Except Fault Metadata := do
  Draft.expectOnly ("mint" :: "update_authority" :: "is_initialized" :: Shape.textNames) v
  let mint ← Draft.require "mint" v
  let fields ← Draft.requireFields v
  accept mint fields (Draft.optional "update_authority" v)
    ((v.field? "is_initialized").getD (.bool true))

/-- The bytes of a record within the limits. -/
def pack (m : Metadata) : Except Violation Bytes := do
  let fields ← (m.fields.map .text).accept
  return codec.write { m with fields }

/-- The bytes of a record within the limits, filled up to `room`. -/
def encode (memory : Nat) (m : Metadata) (room : Datum := .null) : Except Fault Bytes := do
  let raw ← m.pack
  packTo memory room raw

def decode (b : Bytes) : Except Malformed Metadata :=
  ((·.1) <$> codec.read b).mapError (.layout .metadata)

end Metadata

/-- The attributes account of a token. -/
structure Attributes where
  mint : Key
  data : List Attribute := []
  isInitialized : Bool := true
  deriving DecidableEq

namespace Attributes

/-- The value of the first attribute with the key. -/
def get? (a : Attributes) (key : String) : Option String := a.data.lookup key

def codec : Codec Attributes :=
  Codec.imap (fun (isInitialized, mint, data) => ⟨mint, data, isInitialized⟩)
    (fun a => (a.isInitialized, a.mint, a.data))
    (.pair .flag (.pair .key .attributes))

/-- A record from values of any type: the attributes are checked before the mint. -/
def accept (mint data isInitialized : Datum) : Except Fault Attributes := do
  let data ← Attribute.acceptAll data
  let mint ← Key.accept mint
  return ⟨mint, data, isInitialized.isTruthy⟩

/-- A record of values of any type; without attributes there are none, and without a mark the
record is initialized. -/
def ofDatum (v : Datum) : Except Fault Attributes := do
  Draft.expectOnly ["mint", "data", "is_initialized"] v
  let mint ← Draft.require "mint" v
  accept mint ((v.field? "data").getD (.list []))
    ((v.field? "is_initialized").getD (.bool true))

/-- The bytes of a record within the limits. -/
def pack (a : Attributes) : Except Violation Bytes := do
  let data ← Attribute.acceptPairs (a.data.map fun (k, v) => (.text k, .text v))
  return codec.write { a with data }

/-- The bytes of a record within the limits, filled up to `room`. -/
def encode (memory : Nat) (a : Attributes) (room : Datum := .null) : Except Fault Bytes := do
  let raw ← a.pack
  packTo memory room raw

def decode (b : Bytes) : Except Malformed Attributes :=
  ((·.1) <$> codec.read b).mapError (.layout .attributes)

end Attributes

end TokenMetadata
