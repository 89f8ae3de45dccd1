import TokenMetadata.Payload
import TokenMetadata.Instruction

/-!
# Metadata operations

What can be asked of the metadata program for a mint. An operation has a payload and a list of
accounts; the account that it changes is writable, the authority signs, and a creation has a payer,
who signs and is charged.
-/

namespace TokenMetadata

inductive Operation
  | createMetadata (payer mint authority : Key) (fields : Fields String) (immutable : Bool)
  | updateMetadata (mint authority : Key) (fields : Fields (Option String))
  | createAttributes (payer mint authority : Key) (data : List Attribute)
  | replaceAttributes (mint authority : Key) (data : List Attribute)
  | transferAuthority (mint authority newAuthority : Key)
  | makeImmutable (mint authority : Key)
  deriving DecidableEq

namespace Operation

def mint : Operation → Key
  | createMetadata _ mint _ _ _ => mint
  | updateMetadata mint _ _ => mint
  | createAttributes _ mint _ _ => mint
  | replaceAttributes mint _ _ => mint
  | transferAuthority mint _ _ => mint
  | makeImmutable mint _ => mint

/-- The key that has to agree. -/
def authority : Operation → Key
  | createMetadata _ _ authority _ _ => authority
  | updateMetadata _ authority _ => authority
  | createAttributes _ _ authority _ => authority
  | replaceAttributes _ authority _ => authority
  | transferAuthority _ authority _ => authority
  | makeImmutable _ authority => authority

def payer? : Operation → Option Key
  | createMetadata payer .. => some payer
  | createAttributes payer .. => some payer
  | _ => none

/-- The account that the operation changes. -/
def target : Operation → Address.Kind
  | createAttributes .. => .attributes
  | replaceAttributes .. => .attributes
  | _ => .metadata

def payload : Operation → Payload
  | createMetadata _ _ _ fields immutable => .createMetadata fields immutable
  | updateMetadata _ _ fields => .updateMetadata fields
  | createAttributes _ _ _ data => .createAttributes data
  | replaceAttributes _ _ data => .replaceAttributes data
  | transferAuthority _ _ newAuthority => .transferAuthority newAuthority
  | makeImmutable _ _ => .makeImmutable

/-- The accounts of the operation, given the addresses of the token's accounts. -/
def accounts (op : Operation) (metadata attributes : Key) : List AccountMeta :=
  match op with
  | createMetadata payer mint authority _ _ =>
    [.payer payer, .readOnly Program.systemId, .readOnly mint, .writable metadata,
      .signer authority]
  | updateMetadata _ authority _ => [.writable metadata, .signer authority]
  | createAttributes payer mint authority _ =>
    [.payer payer, .readOnly Program.systemId, .readOnly mint, .writable attributes,
      .signer authority, .readOnly metadata]
  | replaceAttributes _ authority _ =>
    [.writable attributes, .signer authority, .readOnly metadata]
  | transferAuthority _ authority _ => [.writable metadata, .signer authority]
  | makeImmutable _ authority => [.writable metadata, .signer authority]

/-- The instruction for the metadata program with the given id. -/
def build (program : Key) (op : Operation) : Except Fault Instruction := do
  let data ← op.payload.encode
  let metadata ← Address.ofMint .metadata op.mint program
  let attributes ← Address.ofMint .attributes op.mint program
  return ⟨program, op.accounts metadata attributes, data⟩

end Operation

end TokenMetadata
