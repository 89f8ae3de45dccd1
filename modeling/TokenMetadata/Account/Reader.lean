import TokenMetadata.Account.Node
import TokenMetadata.Record
import TokenMetadata.Address

/-!
# Reading the accounts of tokens

A reader asks a source for the accounts of tokens with one metadata program. An account that is
absent, empty or not owned by the program counts as missing.
-/

namespace TokenMetadata

structure Reader where
  source : Source
  program : Key

namespace Reader

/-- The data of an account that belongs to the program and is not empty. -/
def ownData (r : Reader) (entry : Option Account) : Option Bytes := do
  let account ← entry
  let data ← account.data
  let owner ← account.owner
  if data ≠ [] ∧ owner = r.program then some data else none

def toMetadata (r : Reader) (entry : Option Account) : Except Fault (Option Metadata) :=
  ((r.ownData entry).mapM Metadata.decode).mapError .malformed

def toAttributes (r : Reader) (entry : Option Account) : Except Fault (Option Attributes) :=
  ((r.ownData entry).mapM Attributes.decode).mapError .malformed

/-- Asks for accounts of mints; the source has to answer with one entry for each. -/
def read (r : Reader) (wanted : List (Address.Kind × Key)) : Exchange (List (Option Account)) :=
  match wanted.mapM fun (kind, mint) => Address.ofMint kind mint r.program with
  | .error e => ⟨[], .error e⟩
  | .ok keys =>
    (r.source keys).andThen fun entries =>
      if entries.length ≠ keys.length then
        .error (.malformed (.tableCount entries.length keys.length))
      else .ok entries

def metadata (r : Reader) (mint : Key) : Exchange (Option Metadata) :=
  (r.read [(.metadata, mint)]).andThen fun entries => r.toMetadata (entries.headD none)

def attributes (r : Reader) (mint : Key) : Exchange (Option Attributes) :=
  (r.read [(.attributes, mint)]).andThen fun entries => r.toAttributes (entries.headD none)

/-- Both accounts of a mint, asked for together. -/
def details (r : Reader) (mint : Key) : Exchange (Option Metadata × Option Attributes) :=
  (r.read [(.metadata, mint), (.attributes, mint)]).andThen fun entries => do
    let metadata ← r.toMetadata (entries.headD none)
    let attributes ← r.toAttributes (entries.getD 1 none)
    return (metadata, attributes)

def metadataBatch (r : Reader) (mints : List Key) : Exchange (List (Option Metadata)) :=
  (r.read (mints.map (.metadata, ·))).andThen fun entries => entries.mapM r.toMetadata

def attributesBatch (r : Reader) (mints : List Key) : Exchange (List (Option Attributes)) :=
  (r.read (mints.map (.attributes, ·))).andThen fun entries => entries.mapM r.toAttributes

end Reader

end TokenMetadata
