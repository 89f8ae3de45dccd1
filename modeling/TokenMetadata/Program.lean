import TokenMetadata.Key

/-!
# Programs and their accounts

The programs that instructions are sent to, the seeds of the accounts of a token, and the sizes that
are set aside for accounts.
-/

namespace TokenMetadata.Program

def metadataId : Key := .ofShort (Bytes.ofText "arch-metadata000000000000000000") (by decide)

def tokenId : Key := .ofShort (Bytes.ofText "apl-token00000000000000000000000") (by decide)

/-- The system program: zeros and a one at the end. -/
def systemId : Key := ⟨List.replicate 31 0 ++ [1], by simp⟩

def budgetId : Key := .ofShort (Bytes.ofText "ComputeBudget1111111111111111111") (by decide)

def metadataSeed : Bytes := Bytes.ofText "metadata"

def attributesSeed : Bytes := Bytes.ofText "attributes"

/-- The most bytes that a metadata account has room for. -/
def metadataRoom : Nat := 32 + 4 + 256 + 4 + 16 + 4 + 512 + 4 + 1 + 32

/-- The bytes that an attributes account has room for. -/
def attributesRoom : Nat := 32 + 4 + 1024

/-- The bytes of a mint account. -/
def mintRoom : Nat := 82

/-- The lamports of an account when the caller names none. -/
def leastLamports : Nat := 1024

/-- Attribute keys that clients understand, in alphabetical order. -/
def wellKnownAttributes : List String :=
  ["audit", "category", "coingecko", "discord", "tags", "telegram", "twitter", "website",
   "whitepaper"]

end TokenMetadata.Program
