import TokenMetadata.Borsh
import TokenMetadata.Instruction

/-!
# Instructions of the system and token programs

What creates a mint and settles its authority before metadata is attached to it.
-/

namespace TokenMetadata.Token

/-- The number of the system program's instruction that creates an account. -/
def createAccountRequest : Nat := 0

/-- The first byte of the token program's instruction that sets up a mint. -/
def initializeMintTag : UInt8 := 18

/-- The first byte of the token program's instruction that changes an authority. -/
def setAuthorityTag : UInt8 := 6

/-- The authority to mint, among those that can be changed. -/
def mintTokens : UInt8 := 0

/-- Creates and funds the account of a mint; the payer and the mint sign. -/
def createMintAccount (payer mint : Key) (lamports : UInt64)
    (program : Key := Program.tokenId) : Instruction where
  program := Program.systemId
  accounts := [.payer payer, .payer mint]
  data := Bytes.ofNatLE 4 createAccountRequest ++ Bytes.ofNatLE 8 lamports.toNat ++
    Bytes.ofNatLE 8 Program.mintRoom ++ program.toBytes

/-- Sets the decimals and the authorities of a new mint. -/
def initializeMint (mint mintAuthority : Key) (freezeAuthority : Option Key) (decimals : UInt8)
    (program : Key := Program.tokenId) : Instruction where
  program := program
  accounts := [.writable mint]
  data := initializeMintTag :: decimals ::
    (mintAuthority.toBytes ++ (Codec.option .key).write freezeAuthority)

/-- Hands the right to mint to somebody else, or gives it up. -/
def setMintAuthority (mint authority : Key) (newAuthority : Option Key)
    (program : Key := Program.tokenId) : Instruction where
  program := program
  accounts := [.writable mint, .signer authority]
  data := setAuthorityTag :: mintTokens :: (Codec.option .key).write newAuthority

end TokenMetadata.Token
