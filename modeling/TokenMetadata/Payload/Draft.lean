import TokenMetadata.Payload

/-!
# Payloads before they are checked

A draft has the shape of a payload and fields of any type. Accepting it checks types and limits in
one pass, field by field, so that the first fault in order is the one that is reported.
-/

namespace TokenMetadata

/-- A key given as raw bytes. -/
def Key.accept : Datum → Except Fault Key
  | .bytes b => (Key.ofBytes b).mapError .violation
  | _ => .error (.misuse .wrongKind)

/-- The shapes of payloads. -/
inductive Shape
  | createMetadata
  | updateMetadata
  | createAttributes
  | replaceAttributes
  | transferAuthority
  | makeImmutable
  deriving DecidableEq, Repr

namespace Shape

def name : Shape → String
  | createMetadata => "CreateMetadata"
  | updateMetadata => "UpdateMetadata"
  | createAttributes => "CreateAttributes"
  | replaceAttributes => "ReplaceAttributes"
  | transferAuthority => "TransferAuthority"
  | makeImmutable => "MakeImmutable"

def ofName? (s : String) : Option Shape :=
  [createMetadata, updateMetadata, createAttributes, replaceAttributes, transferAuthority,
    makeImmutable].find? (·.name = s)

/-- The names of the text fields. -/
def textNames : List String := ["name", "symbol", "image", "description"]

/-- The names of the fields that a record of the shape may have. -/
def fieldNames : Shape → List String
  | createMetadata => "immutable" :: textNames
  | updateMetadata => textNames
  | createAttributes => ["data"]
  | replaceAttributes => ["data"]
  | transferAuthority => ["new_authority"]
  | makeImmutable => []

end Shape

inductive Draft
  | createMetadata (fields : Fields Datum) (immutable : Datum)
  | updateMetadata (fields : Fields (Option Datum))
  | createAttributes (pairs : List (Datum × Datum))
  | replaceAttributes (pairs : List (Datum × Datum))
  | transferAuthority (newAuthority : Datum)
  | makeImmutable

namespace Draft

/-- Refuses what is not a record, and fields of other names. -/
def expectOnly (names : List String) (record : Datum) : Except Misuse Unit :=
  if record.hasOnly names then .ok () else .error .wrongKind

/-- A field that has to be there. -/
def require (name : String) (record : Datum) : Except Misuse Datum :=
  match record.field? name with
  | some v => .ok v
  | none => .error .wrongKind

/-- A field that has to be there and of which the characters are looked at. -/
def requireText (name : String) (record : Datum) : Except Misuse String := do
  match ← require name record with
  | .text s => return s
  | _ => throw .notText

/-- A field whose absence null stands for. -/
def optional (name : String) (record : Datum) : Option Datum :=
  match record.field? name with
  | none | some .null => none
  | some v => some v

def requireFields (record : Datum) : Except Misuse (Fields Datum) := do
  let name ← require "name" record
  let symbol ← require "symbol" record
  let image ← require "image" record
  let description ← require "description" record
  return ⟨name, symbol, image, description⟩

def optionalFields (record : Datum) : Fields (Option Datum) :=
  ⟨optional "name" record, optional "symbol" record, optional "image" record,
    optional "description" record⟩

/-- The items of a value taken as pairs. An item without items has the wrong kind, one with more or
fewer than two the wrong value. -/
def pairs (data : Datum) : Except Misuse (List (Datum × Datum)) :=
  match data.items? with
  | none => .error .wrongKind
  | some xs => xs.mapM fun x =>
    match x.items? with
    | none => .error .wrongKind
    | some [k, v] => .ok (k, v)
    | some _ => .error .wrongValue

/-- The draft that a record describes as a payload of some shape. -/
def ofFields (shape : Shape) (v : Datum) : Except Misuse Draft :=
  let data := (v.field? "data").getD (.list [])
  match shape with
  | .createMetadata => do
    let fields ← requireFields v
    return createMetadata fields ((v.field? "immutable").getD (.bool false))
  | .updateMetadata => .ok (updateMetadata (optionalFields v))
  | .createAttributes => createAttributes <$> pairs data
  | .replaceAttributes => replaceAttributes <$> pairs data
  | .transferAuthority => transferAuthority <$> require "new_authority" v
  | .makeImmutable => .ok makeImmutable

/-- The shape that the field `variant` of a record names. -/
def shapeOf? (v : Datum) : Option Shape :=
  match v.field? "variant" with
  | some (.text name) => Shape.ofName? name
  | _ => none

/-- The draft that a record with a field `variant` describes. Fields of other shapes are found
before anything is wrong with its own. -/
def ofDatum (v : Datum) : Except Misuse Draft :=
  match shapeOf? v with
  | none => .error (.unsupportedInstruction v.kind)
  | some shape => do
    expectOnly ("variant" :: shape.fieldNames) v
    ofFields shape v

def accept : Draft → Except Fault Payload
  | createMetadata fields immutable => do
    let fields ← fields.accept
    return .createMetadata fields immutable.isTruthy
  | updateMetadata fields => do
    let fields ← fields.acceptPresent
    return .updateMetadata fields
  | createAttributes pairs => do
    let data ← Attribute.acceptPairs pairs
    return .createAttributes data
  | replaceAttributes pairs => do
    let data ← Attribute.acceptPairs pairs
    return .replaceAttributes data
  | transferAuthority newAuthority => do
    let newAuthority ← Key.accept newAuthority
    return .transferAuthority newAuthority
  | makeImmutable => .ok .makeImmutable

def encode (d : Draft) : Except Fault Bytes := Payload.write <$> d.accept

end Draft

end TokenMetadata
