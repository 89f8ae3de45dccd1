import TokenMetadata.Program
import TokenMetadata.Curve.Point

/-!
# Program addresses

An address of a program is the hash of seeds and the program's id, so long as the hash does not pass
for a point of the curve. The search adds a last seed of one byte, counting down from 255 to 1. The
curve test is a parameter and may answer differently from one call to the next.
-/

namespace TokenMetadata.Address

def maxSeeds : Nat := 16

def maxSeedSize : Nat := 32

/-- A curve test: what it answers in its `n`-th call for some bytes. -/
abbrev CurveTest := (call : Nat) → Bytes → Bool

/-- The test of the curve itself. -/
def curveTest : CurveTest := fun _ b => Curve.isOnCurve b

/-- The test that accepts everything in its first `n` calls and nothing afterwards. -/
def acceptsFirst (n : Nat) : CurveTest := fun call _ => call < n

/-- Seeds that are not too long; `index` is the place of the first of them. -/
def checkSizes : (index : Nat) → List Bytes → Except SeedFault Unit
  | _, [] => .ok ()
  | index, seed :: rest =>
    if maxSeedSize < seed.length then .error (.tooLong index seed.length maxSeedSize)
    else checkSizes (index + 1) rest

/-- Seeds of a number and of sizes that are allowed. -/
def checkSeeds (seeds : List Bytes) : Except SeedFault Unit :=
  if maxSeeds < seeds.length then .error (.tooMany seeds.length maxSeeds)
  else checkSizes 0 seeds

/-- What is hashed: the seeds one after the other, then the program's id. -/
def preimage (seeds : List Bytes) (program : Key) : Bytes := seeds.flatten ++ program.toBytes

def create (test : CurveTest) (seeds : List Bytes) (program : Key) : Except SeedFault Key := do
  checkSeeds seeds
  let address := Key.ofHash (preimage seeds program)
  if test 0 address.toBytes then throw .onCurve
  return address

/-- An address and the last seed it was found with. -/
structure Derived where
  address : Key
  bump : UInt8
  deriving DecidableEq

/-- Tries the bumps from `bump` down to 1. -/
def search (test : CurveTest) (seeds : List Bytes) (program : Key) :
    (call bump : Nat) → Option Derived
  | _, 0 => none
  | call, bump + 1 =>
    let last := UInt8.ofNat (bump + 1)
    let address := Key.ofHash (preimage (seeds ++ [[last]]) program)
    if test call address.toBytes then search test seeds program (call + 1) bump
    else some ⟨address, last⟩

/-- The first address off the curve; the bump counts as a seed. -/
def find (test : CurveTest) (seeds : List Bytes) (program : Key) : Except Fault Derived := do
  checkSeeds (seeds ++ [[0]])
  match search test seeds program 0 255 with
  | some derived => return derived
  | none => throw (.exhausted seeds.length)

/-- The accounts that a token has with the metadata program. -/
inductive Kind
  | metadata
  | attributes
  deriving DecidableEq, Repr

def Kind.seed : Kind → Bytes
  | metadata => Program.metadataSeed
  | attributes => Program.attributesSeed

/-- The address and bump of an account of a token, with some curve test. -/
def deriveWith (test : CurveTest) (kind : Kind) (mint program : Key) : Except Fault Derived :=
  find test [kind.seed, mint.toBytes] program

/-- The address and bump of an account of a token. -/
def derive (kind : Kind) (mint program : Key) : Except Fault Derived :=
  deriveWith curveTest kind mint program

/-- The address of an account of a token. -/
def ofMint (kind : Kind) (mint program : Key) : Except Fault Key :=
  (·.address) <$> derive kind mint program

end TokenMetadata.Address
