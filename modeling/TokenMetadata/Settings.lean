import TokenMetadata.Account.Reader
import TokenMetadata.Budget
import TokenMetadata.Signing.PrivateKey
import TokenMetadata.Text.Numeral

/-!
# Settings

Settings come from the environment. Every setting has a default; a value that cannot be used is
refused together with all others, and then there are no settings at all.
-/

namespace TokenMetadata

structure Settings where
  programId : Option String := none
  network : Network := .regtest
  computeUnitLimit : Option UInt32 := none
  heapBytes : Option UInt32 := none
  rpcUrl : String := "http://localhost:9002"
  fixturesPath : String := "tests/fixtures/metadata_instructions.json"
  deriving DecidableEq, Repr

namespace Settings

/-- Why the value of a setting is not used. -/
inductive Refusal
  | unknownNetwork
  | notAnInteger (flaw : Integer.Flaw)
  | outOfLimits (v : Violation)
  deriving DecidableEq, Repr

/-- Refused settings by name, in alphabetical order. -/
abbrev Refusals := List (String × Refusal)

/-- What was chosen for the settings, before the numbers are checked. A choice that could not be
read holds the reason. -/
structure Choices where
  programId : Option String := none
  network : Except Refusal Network := .ok .regtest
  computeUnitLimit : Except Refusal (Option Int) := .ok none
  heapBytes : Except Refusal (Option Int) := .ok none
  rpcUrl : String := "http://localhost:9002"
  fixturesPath : String := "tests/fixtures/metadata_instructions.json"

/-- Checks a number that was chosen. -/
def acceptChoice (accept : Datum → Except Violation UInt32)
    (choice : Except Refusal (Option Int)) : Except Refusal (Option UInt32) :=
  choice.bind fun chosen => (chosen.mapM fun n => accept (.int n)).mapError .outOfLimits

/-- The reason, if there is one, under the name of the setting. -/
def refusalOf {α : Type} (name : String) : Except Refusal α → Refusals
  | .ok _ => []
  | .error e => [(name, e)]

def ofChoices (c : Choices) : Except Refusals Settings :=
  let units := acceptChoice (acceptWord "compute_unit_limit") c.computeUnitLimit
  let heap := acceptChoice acceptHeap c.heapBytes
  match units, heap, c.network with
  | .ok computeUnitLimit, .ok heapBytes, .ok network =>
    .ok ⟨c.programId, network, computeUnitLimit, heapBytes, c.rpcUrl, c.fixturesPath⟩
  | _, _, _ =>
    .error (refusalOf "compute_unit_limit" units ++ refusalOf "heap_bytes" heap ++
      refusalOf "network" c.network)

/-- Variables and their texts. -/
abbrev Environment := List (String × String)

/-- The start of the names of all variables that settings are taken from. -/
def variableStart : String := "ARCH_METADATA_"

/-- The text of the variable of a setting. Names are compared without regard to case; the last
variable of a name counts. -/
def textOf? (env : Environment) (setting : String) : Option String :=
  let wanted := lowerChars (variableStart ++ setting)
  (env.reverse.find? fun (name, _) => lowerChars name = wanted).map (·.2)

/-- The settings that variables are looked for. -/
def names : List String :=
  ["program_id", "network", "compute_unit_limit", "heap_bytes", "rpc_url", "fixtures_path"]

def readNumber : Option String → Except Refusal (Option Int)
  | none => .ok none
  | some s =>
    match Integer.ofText s with
    | .ok n => .ok (some n)
    | .error flaw => .error (.notAnInteger flaw)

def readNetwork : Option String → Except Refusal Network
  | none => .ok .regtest
  | some s =>
    match Network.ofName? s with
    | some n => .ok n
    | none => .error .unknownNetwork

/-- The choices that the variables of an environment make. -/
def Choices.ofEnvironment (env : Environment) : Choices :=
  let defaults : Choices := {}
  { programId := textOf? env "program_id"
    network := readNetwork (textOf? env "network")
    computeUnitLimit := readNumber (textOf? env "compute_unit_limit")
    heapBytes := readNumber (textOf? env "heap_bytes")
    rpcUrl := (textOf? env "rpc_url").getD defaults.rpcUrl
    fixturesPath := (textOf? env "fixtures_path").getD defaults.fixturesPath }

def ofEnvironment (env : Environment) : Except Refusals Settings :=
  ofChoices (.ofEnvironment env)

/-- The metadata program: the one that is named, or the usual one when none is. -/
def program (s : Settings) : Except Violation Key :=
  match s.programId with
  | none => .ok Program.metadataId
  | some "" => .ok Program.metadataId
  | some text => Key.ofText text

/-- A number of the settings as a value. -/
def number (n : Option UInt32) : Option Datum := n.map fun n => .int n.toNat

/-- What transactions ask for, if the settings have any limit. -/
def budget (s : Settings) : Option Budget :=
  if s.computeUnitLimit = none ∧ s.heapBytes = none then none
  else some ⟨number s.computeUnitLimit, number s.heapBytes⟩

/-- The reader of the program's accounts through a node. -/
def reader (s : Settings) (node : Node) : Except Violation Reader := do
  let program ← s.program
  return ⟨node.source Node.batchSize, program⟩

/-- The address of a private key. -/
def address (s : Settings) (key : Datum) : Except SigningFault String := do
  let x ← PrivateKey.xOnly key
  PrivateKey.addressOn x s.network

/-- The signature of a message by a private key. -/
def sign (memory : Nat) (s : Settings) (key message : Datum) : Except Fault Bytes :=
  PrivateKey.sign memory key message (.text s.network.name)

/-- The settings as a record. -/
def toDatum (s : Settings) : Datum :=
  .record [
    ("program_id", (s.programId.map .text).getD .null),
    ("network", .text s.network.name),
    ("compute_unit_limit", (number s.computeUnitLimit).getD .null),
    ("heap_bytes", (number s.heapBytes).getD .null),
    ("rpc_url", .text s.rpcUrl),
    ("fixtures_path", .text s.fixturesPath)]

/-- Settings that are kept once they have been read; a failure is not kept. -/
abbrev Kept := Option Settings

/-- The kept settings, or those of the environment when none are kept. -/
def Kept.get (kept : Kept) (env : Environment) : Except Refusals Settings × Kept :=
  match kept with
  | some s => (.ok s, kept)
  | none =>
    match ofEnvironment env with
    | .ok s => (.ok s, some s)
    | .error e => (.error e, none)

end Settings

end TokenMetadata
