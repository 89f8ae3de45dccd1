import TokenMetadata.Datum.Quoted

/-!
# Faults

Everything that can be refused, by cause. The wording of every message is here: one function for
each kind of cause.
-/

namespace TokenMetadata

/-- Why a field refuses its value. -/
inductive Violation.Cause
  | wrongKind (expected found : String) (limit : Datum)
  | tooLong (size : Nat) (limit : Datum)
  | tooMany (count limit : Nat)
  | notAPair
  | empty
  | outOfWord (value : Int)
  | unaligned (value unit : Nat)
  | keyLength (size : Nat)
  | unreadableKey (text : String)
  | unsupportedKind (found : String)
  | packedTooLong (size : Nat) (room : Datum)
  deriving DecidableEq, Repr

/-- A value that a field refuses. -/
structure Violation where
  field : String
  cause : Violation.Cause
  deriving DecidableEq, Repr

namespace Violation

/-- The greatest number of thirty-two bits. -/
def wordMax : Nat := 0xffffffff

def Cause.text : Cause → String
  | wrongKind expected found _ => s!"expected {expected}, got {found}"
  | tooLong size limit => s!"too long ({size} > {limit.shown} bytes)"
  | tooMany count limit => s!"too many attributes ({count} > {limit})"
  | notAPair => "expected a (key, value) pair"
  | empty => "must be non-empty"
  | outOfWord value => s!"out of u32 range ({value})"
  | unaligned value unit => s!"must be a multiple of {unit} ({value})"
  | keyLength size => s!"expected 32 bytes, got {size}"
  | unreadableKey text => "not hex or base58: " ++ (Datum.text text).quoted
  | unsupportedKind found => s!"unsupported type {found}"
  | packedTooLong size room => s!"packed size {size} exceeds {room.shown} bytes"

def message (v : Violation) : String := s!"{v.field}: {v.cause.text}"

/-- The bound that the value breaks. -/
def limit (v : Violation) : Option Datum :=
  match v.cause with
  | .wrongKind _ _ limit => some limit
  | .tooLong _ limit => some limit
  | .tooMany _ limit => some (.int limit)
  | .outOfWord _ => some (.int wordMax)
  | .unaligned _ unit => some (.int unit)
  | .keyLength _ => some (.int 32)
  | .packedTooLong _ room => some room
  | _ => none

/-- The measured value, where a bound on it is broken. -/
def actual (v : Violation) : Option Int :=
  match v.cause with
  | .tooLong size _ => some size
  | .tooMany count _ => some count
  | .outOfWord value => some value
  | .unaligned value _ => some value
  | .keyLength size => some size
  | .packedTooLong size _ => some size
  | _ => none

end Violation

/-- Why bytes do not follow a layout: they end too early, or a text is not UTF-8. -/
inductive Flaw
  | truncated
  | notUtf8
  deriving DecidableEq, Repr

/-- What a layout describes. -/
inductive Subject
  | instruction
  | metadata
  | attributes
  deriving DecidableEq, Repr

def Subject.label : Subject → String
  | instruction => "instruction"
  | metadata => "token metadata account"
  | attributes => "token metadata attributes account"

/-- Bytes or answers that do not have the expected form. -/
inductive Malformed
  | emptyInstruction
  | unknownTag (tag : UInt8)
  | layout (subject : Subject) (flaw : Flaw)
  | nodeCount (found asked : Nat)
  | tableCount (found asked : Nat)
  deriving DecidableEq, Repr

def Malformed.message : Malformed → String
  | emptyInstruction => "empty instruction data"
  | unknownTag tag => s!"unknown instruction tag {tag.toNat}"
  | layout subject _ => s!"malformed {subject.label}"
  | nodeCount found asked => s!"rpc returned {found} accounts for {asked} keys"
  | tableCount found asked => s!"account reader returned {found} entries for {asked} keys"

/-- Why seeds have no address. -/
inductive SeedFault
  | tooMany (count limit : Nat)
  | tooLong (index size limit : Nat)
  | onCurve
  deriving DecidableEq, Repr

def SeedFault.message : SeedFault → String
  | tooMany count limit => s!"max seeds exceeded ({count} > {limit})"
  | tooLong index size limit => s!"seed {index} too long ({size} > {limit} bytes)"
  | onCurve => "invalid seeds, address must fall off the curve"

/-- Why something is not signed, or an address or key text not understood. -/
inductive SigningFault
  | unknownNetwork (value : Datum)
  | keyNotHex
  | keyKind (found : String)
  | keyLength (size : Nat)
  | invalidScalar
  | wifEncoding
  | wifLength (size : Nat)
  | wifVersion (version : UInt8)
  | wifUncompressed
  | wifScalar
  | xOnlyLength (size : Nat)
  | xOnlyOffCurve
  | tweakOutOfRange
  | tweakedAtInfinity
  | tweakedSecretZero
  | secretOutOfRange
  | nonceZero
  | outputKeyLength (size : Nat)
  | unsupportedAddress (address : String)
  | invalidAddress (address : String)
  | notTaproot (address : String)
  | notControlled (address : String)
  | sighashType (hashType : Int)
  | witnessTruncated
  | witnessItemTruncated
  | witnessShort (size : Nat)
  deriving DecidableEq, Repr

/-- A number in hexadecimal with at least two places, the sign included. -/
def hexPlaces (n : Int) : String :=
  let ds := Nat.toDigits 16 n.natAbs
  if n < 0 then String.ofList ('-' :: ds)
  else String.ofList (List.replicate (2 - ds.length) '0' ++ ds)

def SigningFault.message : SigningFault → String
  | unknownNetwork value => "unknown network " ++ value.quoted
  | keyNotHex => "private key hex is not valid hex"
  | keyKind found => s!"unsupported private key type {found}"
  | keyLength size => s!"private key must be 32 bytes, got {size}"
  | invalidScalar => "private key is not a valid secp256k1 scalar"
  | wifEncoding => "invalid WIF checksum or encoding"
  | wifLength size => s!"invalid WIF payload length {size}"
  | wifVersion version => "unknown WIF version byte 0x" ++ hexPlaces version.toNat
  | wifUncompressed => "taproot signing requires a compressed WIF"
  | wifScalar => "WIF does not hold a valid secp256k1 private key"
  | xOnlyLength size => s!"x-only key must be 32 bytes, got {size}"
  | xOnlyOffCurve => "x-only key is not on secp256k1"
  | tweakOutOfRange => "taproot tweak out of range"
  | tweakedAtInfinity => "taproot tweak produced the point at infinity"
  | tweakedSecretZero => "tweaked secret is zero"
  | secretOutOfRange => "secret out of range"
  | nonceZero => "nonce derivation produced zero"
  | outputKeyLength size => s!"taproot output key must be 32 bytes, got {size}"
  | unsupportedAddress address => s!"unsupported or invalid address: {address}"
  | invalidAddress address => s!"invalid segwit address: {address}"
  | notTaproot address => s!"only single-key taproot addresses are supported: {address}"
  | notControlled address => s!"private key does not control {address}"
  | sighashType hashType => "unsupported sighash type 0x" ++ hexPlaces hashType
  | witnessTruncated => "truncated witness"
  | witnessItemTruncated => "truncated witness item"
  | witnessShort size => s!"witness too short for a 64-byte signature ({size} bytes)"

/-- Calls that make no sense whatever the accounts and keys are. -/
inductive Misuse
  | wrongKind
  | notText
  | unsupportedInstruction (found : String)
  | wrongValue
  | identifierTooLong (size : Nat)
  | missingItem
  | tooLarge
  | beyondMemory
  | outOfField
  | missingFile
  | unfinishedBase64
  deriving DecidableEq, Repr

/-- The text of a misuse, for those that have one. -/
def Misuse.message? : Misuse → Option String
  | unsupportedInstruction found => some s!"unsupported instruction {found}"
  | identifierTooLong size => some s!"program id seed too long: {size} bytes"
  | _ => none

inductive Fault
  | violation (v : Violation)
  | malformed (m : Malformed)
  | seeds (s : SeedFault)
  | exhausted (count : Nat)
  | signing (s : SigningFault)
  | misuse (m : Misuse)
  deriving DecidableEq, Repr

namespace Fault

def message? : Fault → Option String
  | violation v => some v.message
  | malformed m => some m.message
  | seeds s => some s.message
  | exhausted count => some s!"unable to find an off-curve address for {count} seeds"
  | signing s => some s.message
  | misuse m => m.message?

instance : MonadLift (Except Violation) (Except Fault) := ⟨Except.mapError .violation⟩
instance : MonadLift (Except Malformed) (Except Fault) := ⟨Except.mapError .malformed⟩
instance : MonadLift (Except SeedFault) (Except Fault) := ⟨Except.mapError .seeds⟩
instance : MonadLift (Except SigningFault) (Except Fault) := ⟨Except.mapError .signing⟩
instance : MonadLift (Except Misuse) (Except Fault) := ⟨Except.mapError .misuse⟩

end Fault

end TokenMetadata
