import TokenMetadata.Limits
import TokenMetadata.Instruction

/-!
# Compute budgets

A transaction may ask for a limit of compute units and for a heap size. Each request is an
instruction of eight bytes to the budget program: which limit, and the number.
-/

namespace TokenMetadata

/-- What a transaction asks for, as the caller gave it. -/
structure Budget where
  units : Option Datum := none
  heapBytes : Option Datum := none

namespace Budget

def heapRequest : UInt32 := 0

def unitsRequest : UInt32 := 1

/-- The data of a request. -/
def request (which number : UInt32) : Bytes :=
  Bytes.ofNatLE 4 which.toNat ++ Bytes.ofNatLE 4 number.toNat

/-- The data of a request whose numbers have not been checked; both have to fit into their bytes. -/
def encode (which number : Datum) : Except Misuse Bytes := do
  let which ← acceptField 32 which
  let number ← acceptField 32 number
  return request (.ofNat which) (.ofNat number)

def instruction (which number : UInt32) : Instruction :=
  ⟨Program.budgetId, [], request which number⟩

def unitsInstruction (v : Datum) : Except Violation Instruction :=
  instruction unitsRequest <$> acceptWord "units" v

def heapInstruction (v : Datum) : Except Violation Instruction :=
  instruction heapRequest <$> acceptHeap v

/-- The requests that are present: first the units, then the heap. -/
def instructions (b : Budget) : Except Violation (List Instruction) := do
  let units ← b.units.mapM unitsInstruction
  let heap ← b.heapBytes.mapM heapInstruction
  return units.toList ++ heap.toList

end Budget

/-- The requests of an optional budget. -/
def budgetInstructions : Option Budget → Except Violation (List Instruction)
  | none => .ok []
  | some b => b.instructions

end TokenMetadata
