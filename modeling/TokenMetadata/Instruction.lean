import TokenMetadata.Address
import TokenMetadata.Text.Base64

/-!
# Instructions

An instruction names a program, the accounts it touches with their roles, and the data.
-/

namespace TokenMetadata

/-- An account in the list of an instruction. -/
structure AccountMeta where
  key : Key
  isSigner : Bool
  isWritable : Bool
  deriving DecidableEq

namespace AccountMeta

def payer (k : Key) : AccountMeta := ⟨k, true, true⟩

def signer (k : Key) : AccountMeta := ⟨k, true, false⟩

def writable (k : Key) : AccountMeta := ⟨k, false, true⟩

def readOnly (k : Key) : AccountMeta := ⟨k, false, false⟩

end AccountMeta

structure Instruction where
  program : Key
  accounts : List AccountMeta
  data : Bytes
  deriving DecidableEq

namespace Instruction

/-- The instruction as a value: keys in hexadecimal and the data in base64. -/
def toDatum (i : Instruction) : Datum :=
  .record [
    ("program_id", .text (Hex.encode i.program.toBytes)),
    ("keys", .list (i.accounts.map fun a => .record [
      ("pubkey", .text (Hex.encode a.key.toBytes)),
      ("is_signer", .bool a.isSigner),
      ("is_writable", .bool a.isWritable)])),
    ("data", .text (Base64.encode i.data))]

end Instruction

end TokenMetadata
