import TokenMetadata.Budget
import TokenMetadata.Operation

/-!
# Transactions

A flow is something a client wants done for a mint. Its transaction has the budget requests first,
then the instructions that the caller puts in front, then the metadata operations of the flow.
-/

namespace TokenMetadata

/-- The signers of a token's creation. -/
structure Signers where
  payer : Key
  mintAuthority : Key
  updateAuthority : Key
  deriving DecidableEq

/-- The payer stands in for a missing mint authority, and that for a missing update authority. -/
def Signers.resolve (payer : Key) (mintAuthority updateAuthority : Option Key) : Signers :=
  let mintAuthority := mintAuthority.getD payer
  ⟨payer, mintAuthority, updateAuthority.getD mintAuthority⟩

/-- What a client wants done for a mint. -/
inductive Flow
  | createToken (payer mint authority : Key) (fields : Fields String) (immutable : Bool)
    (preceding : List Instruction)
  | createTokenWithAttributes (payer mint authority : Key) (fields : Fields String)
    (data : List Attribute) (immutable : Bool) (preceding : List Instruction)
  | createTokenThenClear (payer mint freezeAuthority : Key) (fields : Fields String)
    (immutable : Bool) (preceding : List Instruction) (clear : Instruction)
  | createAttributes (payer mint authority : Key) (data : List Attribute)
  | replaceAttributes (mint authority : Key) (data : List Attribute)
  | transferThenUpdate (mint authority newAuthority : Key) (fields : Fields (Option String))
  | makeImmutable (mint authority : Key)

/-- A transaction's instructions with the accounts of the token that it concerns. -/
structure Transaction where
  instructions : List Instruction
  metadata : Key
  attributes : Option Key
  deriving DecidableEq

namespace Flow

def mint : Flow → Key
  | createToken _ mint .. => mint
  | createTokenWithAttributes _ mint .. => mint
  | createTokenThenClear _ mint .. => mint
  | createAttributes _ mint .. => mint
  | replaceAttributes mint .. => mint
  | transferThenUpdate mint .. => mint
  | makeImmutable mint _ => mint

/-- The instructions that stand before the metadata operations. -/
def preceding : Flow → List Instruction
  | createToken _ _ _ _ _ preceding => preceding
  | createTokenWithAttributes _ _ _ _ _ _ preceding => preceding
  | createTokenThenClear _ _ _ _ _ preceding clear => preceding ++ [clear]
  | _ => []

/-- The metadata operations in the order in which they are carried out. -/
def operations : Flow → List Operation
  | createToken payer mint authority fields immutable _ =>
    [.createMetadata payer mint authority fields immutable]
  | createTokenWithAttributes payer mint authority fields data immutable _ =>
    [.createMetadata payer mint authority fields immutable,
      .createAttributes payer mint authority data]
  | createTokenThenClear payer mint freezeAuthority fields immutable _ _ =>
    [.createMetadata payer mint freezeAuthority fields immutable]
  | createAttributes payer mint authority data => [.createAttributes payer mint authority data]
  | replaceAttributes mint authority data => [.replaceAttributes mint authority data]
  | transferThenUpdate mint authority newAuthority fields =>
    [.transferAuthority mint authority newAuthority, .updateMetadata mint newAuthority fields]
  | makeImmutable mint authority => [.makeImmutable mint authority]

/-- Whether the flow touches the attributes of the token. -/
def hasAttributes : Flow → Bool
  | createTokenWithAttributes .. => true
  | createAttributes .. => true
  | replaceAttributes .. => true
  | _ => false

/-- The instructions of the operations. They are built in their order, except that an update by a
new authority is built before the transfer to it. -/
def metadataInstructions (program : Key) (flow : Flow) : Except Fault (List Instruction) :=
  match flow with
  | transferThenUpdate .. => do
    let built ← flow.operations.reverse.mapM (Operation.build program)
    return built.reverse
  | _ => flow.operations.mapM (Operation.build program)

/-- The transaction of a flow. -/
def compose (program : Key) (flow : Flow) (budget : Option Budget) : Except Fault Transaction := do
  let own ← flow.metadataInstructions program
  let requests ← budgetInstructions budget
  let metadata ← Address.ofMint .metadata flow.mint program
  let attributes ←
    if flow.hasAttributes then some <$> Address.ofMint .attributes flow.mint program
    else pure none
  return ⟨requests ++ flow.preceding ++ own, metadata, attributes⟩

end Flow

end TokenMetadata
