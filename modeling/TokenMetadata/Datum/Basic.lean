import TokenMetadata.Bytes
import TokenMetadata.Decimal

/-!
# Values of any type

What a caller hands over before its type has been checked: the values of a data format, and raw
bytes. Records keep their fields in order.
-/

namespace TokenMetadata

inductive Datum
  | null
  | bool (b : Bool)
  | int (n : Int)
  | decimal (d : Decimal)
  | text (s : String)
  | bytes (b : Bytes)
  | list (items : List Datum)
  | record (fields : List (String × Datum))
  deriving Repr

namespace Datum

mutual

/-- Whether two values are built in the same way. -/
def isEqual : Datum → Datum → Bool
  | null, null => true
  | bool b, bool c => b == c
  | int m, int n => m == n
  | decimal d, decimal e => d == e
  | text s, text t => s == t
  | bytes b, bytes c => b == c
  | list xs, list ys => areEqual xs ys
  | record fs, record gs => areEqualFields fs gs
  | _, _ => false

def areEqual : List Datum → List Datum → Bool
  | [], [] => true
  | x :: xs, y :: ys => isEqual x y && areEqual xs ys
  | _, _ => false

def areEqualFields : List (String × Datum) → List (String × Datum) → Bool
  | [], [] => true
  | (n, v) :: fs, (m, w) :: gs => n == m && isEqual v w && areEqualFields fs gs
  | _, _ => false

end

mutual

theorem isEqual_iff : ∀ v w : Datum, isEqual v w = true ↔ v = w
  | list xs, w => by cases w <;> simp [isEqual, areEqual_iff xs]
  | record fs, w => by cases w <;> simp [isEqual, areEqualFields_iff fs]
  | null, w => by cases w <;> simp [isEqual]
  | bool _, w => by cases w <;> simp [isEqual]
  | int _, w => by cases w <;> simp [isEqual]
  | decimal _, w => by cases w <;> simp [isEqual]
  | text _, w => by cases w <;> simp [isEqual]
  | bytes _, w => by cases w <;> simp [isEqual]

theorem areEqual_iff : ∀ xs ys : List Datum, areEqual xs ys = true ↔ xs = ys
  | [], ys => by cases ys <;> simp [areEqual]
  | x :: xs, ys => by cases ys <;> simp [areEqual, isEqual_iff x, areEqual_iff xs]

theorem areEqualFields_iff : ∀ fs gs : List (String × Datum), areEqualFields fs gs = true ↔ fs = gs
  | [], gs => by cases gs <;> simp [areEqualFields]
  | (n, v) :: fs, gs => by
    cases gs <;> simp [areEqualFields, isEqual_iff v, areEqualFields_iff fs, Prod.ext_iff]

end

instance : DecidableEq Datum := fun v w => decidable_of_iff _ (isEqual_iff v w)

/-- The name of the type in messages. -/
def kind : Datum → String
  | null => "NoneType"
  | bool _ => "bool"
  | int _ => "int"
  | decimal _ => "float"
  | text _ => "str"
  | bytes _ => "bytes"
  | list _ => "list"
  | record _ => "dict"

/-- Null, false, zero and everything empty count as false. -/
def isTruthy : Datum → Bool
  | null => false
  | bool b => b
  | int n => n != 0
  | decimal d => d.isNonzero
  | text s => s != ""
  | bytes b => !b.isEmpty
  | list items => !items.isEmpty
  | record fields => !fields.isEmpty

/-- The items met in going through a value: characters of a text, bytes, list items, or the names of
the fields of a record. The other values have no items. -/
def items? : Datum → Option (List Datum)
  | text s => some (s.toList.map fun c => text (String.singleton c))
  | bytes b => some (b.map fun x => int x.toNat)
  | list items => some items
  | record fields => some (fields.map fun f => text f.1)
  | _ => none

/-- The integer that stands for a value where a number is wanted: truth values count as 1 and 0. -/
def toInt? : Datum → Option Int
  | int n => some n
  | bool b => some (if b then 1 else 0)
  | _ => none

/-- Whether a number is less than a natural number; the other values are not compared with
numbers. -/
def isBelow? (v : Datum) (k : Nat) : Option Bool :=
  match v with
  | decimal d => some (d.isBelow k)
  | v => v.toInt?.map fun (n : Int) => decide (n < k)

/-- Whether a value is a record with fields of no other names. -/
def hasOnly (names : List String) : Datum → Bool
  | record fields => fields.all fun f => f.1 ∈ names
  | _ => false

/-- The field of a record. -/
def field? (name : String) : Datum → Option Datum
  | record fields => fields.lookup name
  | _ => none

/-- Puts a field in the place of its name, or at the end. -/
def setField (name : String) (v : Datum) : List (String × Datum) → List (String × Datum)
  | [] => [(name, v)]
  | (n, w) :: rest => if n = name then (n, v) :: rest else (n, w) :: setField name v rest

mutual

/-- Equality of values: numbers and truth values by their number, records without regard to the
order of their fields. -/
def same : Datum → Datum → Bool
  | null, null => true
  | text s, text t => s == t
  | bytes b, bytes c => b == c
  | list xs, list ys => sameItems xs ys
  | record fs, record gs => fs.length == gs.length && sameFields fs gs
  | decimal d, decimal e => d.same e
  | decimal d, w =>
    match w.toInt? with
    | some n => d.sameInt n
    | none => false
  | v, decimal d =>
    match v.toInt? with
    | some n => d.sameInt n
    | none => false
  | v, w =>
    match v.toInt?, w.toInt? with
    | some m, some n => m == n
    | _, _ => false

def sameItems : List Datum → List Datum → Bool
  | [], [] => true
  | x :: xs, y :: ys => same x y && sameItems xs ys
  | _, _ => false

def sameFields : List (String × Datum) → List (String × Datum) → Bool
  | [], _ => true
  | (name, v) :: fs, gs =>
    (match gs.lookup name with
      | some w => same v w
      | none => false) && sameFields fs gs

end

end Datum

end TokenMetadata
