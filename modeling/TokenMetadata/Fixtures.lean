import TokenMetadata.Datum.Json
import TokenMetadata.Record
import TokenMetadata.Settings
import TokenMetadata.Token

/-!
# Fixtures

One encoding of everything there is, for clients to compare theirs with: the payloads, the addresses
and accounts of two sample mints, and the token and budget instructions. A stored corpus is checked
field by field; a field that is missing counts as null.
-/

namespace TokenMetadata.Fixtures

/-- A corpus: its fields in the order in which they are written. -/
abbrev Corpus := List (String × Datum)

def version : Int := 1

def sampleFields : Fields String := ⟨"Name", "SYM", "https://i", "desc"⟩

def sampleAttributes : List Attribute := [("k1", "v1"), ("k2", "v2")]

def samplePayer : Key := .filled 1

def sampleMint : Key := .filled 2

def otherMint : Key := .filled 3

def sampleAuthority : Key := .filled 7

def hex (b : Bytes) : Datum := .text (Hex.encode b)

def payload (p : Payload) : Except Fault Datum := do
  let b ← p.encode
  return hex b

def addresses (program mint : Key) : Except Fault Datum := do
  let metadata ← Address.ofMint .metadata mint program
  let attributes ← Address.ofMint .attributes mint program
  return .record [("mint", hex mint.toBytes), ("metadata", hex metadata.toBytes),
    ("attributes", hex attributes.toBytes)]

/-- The accounts of a mint in rooms of about a thousand bytes, which any memory holds. -/
def accounts (mint : Key) : Except Fault Datum := do
  let metadata ← Metadata.encode Bytes.maxSize ⟨mint, sampleFields, some samplePayer, true⟩
    (.int Program.metadataRoom)
  let attributes ← Attributes.encode Bytes.maxSize ⟨mint, sampleAttributes, true⟩
    (.int Program.attributesRoom)
  return .record [("mint", hex mint.toBytes), ("metadata_account", hex metadata),
    ("attributes_account", hex attributes)]

/-- The requests of a heap of 64 KiB and of 12000 compute units. -/
def budget : Except Fault Datum := do
  let heap ← Budget.heapInstruction (.int (64 * 1024))
  let units ← Budget.unitsInstruction (.int 12000)
  return .record [("ProgramId", hex Program.budgetId.toBytes),
    ("RequestHeapFrame_64k", hex heap.data), ("SetComputeUnitLimit_12000", hex units.data)]

def build (program : Key := Program.metadataId) : Except Fault Corpus := do
  let create ← payload (.createMetadata sampleFields false)
  let update ← payload (.updateMetadata ⟨some "New", none, none, none⟩)
  let attributes ← payload (.createAttributes sampleAttributes)
  let replacement ← payload (.replaceAttributes [("a", "1")])
  let transfer ← payload (.transferAuthority sampleAuthority)
  let immutable ← payload .makeImmutable
  let first ← addresses program sampleMint
  let second ← addresses program otherMint
  let budget ← budget
  let sample ← accounts sampleMint
  let other ← accounts otherMint
  let mint := Token.createMintAccount samplePayer sampleMint (.ofNat Program.leastLamports)
  let fresh := Token.initializeMint sampleMint samplePayer none 9
  let giveUp := Token.setMintAuthority sampleMint samplePayer none
  let handOver := Token.setMintAuthority sampleMint samplePayer (some sampleAuthority)
  return [
    ("Version", .int version),
    ("CreateMetadata", create),
    ("UpdateMetadata", update),
    ("CreateAttributes", attributes),
    ("ReplaceAttributes", replacement),
    ("TransferAuthority", transfer),
    ("MakeImmutable", immutable),
    ("SystemProgram", hex Program.systemId.toBytes),
    ("ProgramId", hex program.toBytes),
    ("TokenProgramId", hex Program.tokenId.toBytes),
    ("PdaSamples", .list [first, second]),
    ("SystemCreateAccountMint", hex mint.data),
    ("TokenInitializeMint2", hex fresh.data),
    ("TokenSetAuthorityMintNone", hex giveUp.data),
    ("TokenSetAuthorityMintSome", hex handOver.data),
    ("ComputeBudget", budget),
    ("Sample", sample),
    ("Sample2", other)]

/-- The field of a corpus, or null. -/
def field (corpus : Corpus) (name : String) : Datum := (corpus.lookup name).getD .null

/-- The names of the fields that differ, in alphabetical order. -/
def drift (stored built : Corpus) : List String :=
  let names := ((stored ++ built).map (·.1)).eraseDups.mergeSort (fun a b => decide (a ≤ b))
  names.filter fun name => !(field stored name).same (field built name)

/-- What a run of the generator comes to. -/
inductive Outcome
  | write (content : String)
  | upToDate
  | drifted (report : String)
  deriving DecidableEq, Repr

namespace Outcome

def exitCode : Outcome → UInt32
  | drifted _ => 1
  | _ => 0

def output : Outcome → String
  | drifted report => report
  | _ => ""

end Outcome

/-- Compares a stored corpus with the one that was built; the report shows the fields of the latter
that differ. -/
def compare (stored built : Corpus) : Outcome :=
  match drift stored built with
  | [] => .upToDate
  | names => .drifted (Json.writeFile (.record (names.map fun name => (name, field built name))))

/-- The corpus that a file holds. -/
def read (content : Option String) : Except Misuse Corpus :=
  match content with
  | none => .error .missingFile
  | some text =>
    match Json.read text with
    | some (.record corpus) => .ok corpus
    | some _ => .error .wrongKind
    | none => .error .wrongValue

/-- One run: builds the corpus for the program of the settings, and writes it, or checks it against
the content of a file. -/
def generate (settings : Settings) (check : Bool) (content : Option String) :
    Except Fault Outcome := do
  let program ← settings.program
  let built ← build program
  if check then
    let stored ← read content
    return compare stored built
  else return .write (Json.writeFile (.record built))

end TokenMetadata.Fixtures
