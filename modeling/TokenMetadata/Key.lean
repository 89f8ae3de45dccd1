import TokenMetadata.Limits
import TokenMetadata.Text.Hex
import TokenMetadata.Text.Base58

/-!
# Public keys

A key is thirty-two bytes. As a text it is 64 hexadecimal digits or base58; hexadecimal is tried
first.
-/

namespace TokenMetadata

structure Key where
  toBytes : Bytes
  length_toBytes : toBytes.length = 32
  deriving DecidableEq

namespace Key

theorem ext_toBytes {k l : Key} (h : k.toBytes = l.toBytes) : k = l := by
  cases k
  cases l
  simp_all

def ofBytes? (b : Bytes) : Option Key := if h : b.length = 32 then some ⟨b, h⟩ else none

def ofBytes (b : Bytes) : Except Violation Key :=
  if h : b.length = 32 then .ok ⟨b, h⟩ else .error ⟨"pubkey", .keyLength b.length⟩

/-- The key with the same byte everywhere. -/
def filled (b : UInt8) : Key := ⟨List.replicate 32 b, by simp⟩

/-- The key of a hash. -/
def ofHash (m : Bytes) : Key := ⟨Sha256.hash m, Sha256.length_hash m⟩

/-- At most thirty-two bytes, with zeros behind them. -/
def ofShort (b : Bytes) (h : b.length ≤ 32) : Key :=
  ⟨b.padRight 32, by simp [Bytes.padRight]; omega⟩

def ofIdentifier (b : Bytes) : Except Misuse Key :=
  if h : b.length ≤ 32 then .ok (ofShort b h) else .error (.identifierTooLong b.length)

/-- The base58 text of a key. -/
def toText (k : Key) : String := Base58.encode k.toBytes

/-- The key that a text of 64 characters gives as hexadecimal. -/
def ofHex? (s : String) : Option Key :=
  if s.length = 64 then (Hex.decode s).bind ofBytes? else none

def ofText (s : String) : Except Violation Key :=
  match ofHex? s with
  | some k => .ok k
  | none =>
    match Base58.decode s with
    | some b => ofBytes b
    | none => .error ⟨"pubkey", .unreadableKey s⟩

/-- A key from raw bytes or from a text. -/
def ofDatum : Datum → Except Violation Key
  | .bytes b => ofBytes b
  | .text s => ofText s
  | v => .error ⟨"pubkey", .unsupportedKind v.kind⟩

/-- What is handed over where a key is wanted: a key, or a value to read one from. -/
inductive Given
  | key (k : Key)
  | value (v : Datum)

def ofGiven : Given → Except Violation Key
  | .key k => .ok k
  | .value v => ofDatum v

end Key

end TokenMetadata
