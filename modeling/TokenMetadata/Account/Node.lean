import TokenMetadata.Account.Table
import TokenMetadata.Bytes
import TokenMetadata.Text.Base64

/-!
# Reading through a node

A node answers a batch of keys at a time and hands data over in one of several shapes. The batches
are consecutive pieces of the list of keys; the first answer of the wrong length, or the first data
that cannot be read, ends the reading.
-/

namespace TokenMetadata

/-- The data of an account as a node hands it over. Bytes are fixed or can be written to, and items
stand in a list or in a tuple; every other value is of none of these kinds. -/
inductive RawData
  | fixed (b : Bytes)
  | buffer (b : Bytes)
  | list (items : List Datum)
  | tuple (items : List Datum)
  | other (v : Datum)

/-- An account as a node hands it over. -/
structure RawAccount where
  data : Option RawData
  owner : Option Key

/-- What a node answers to its `n`-th call; no answer counts as an empty one. -/
abbrev Node := (call : Nat) → List Key → Option (List (Option RawAccount))

/-- The shapes in which data is delivered: bytes that are fixed or can be written to, a text, or a
list or tuple that starts with a text. -/
inductive Delivery
  | fixed (b : Bytes)
  | buffer (b : Bytes)
  | text (s : String)
  | list (first : String) (rest : List Datum)
  | tuple (first : String) (rest : List Datum)

def Delivery.toRaw : Delivery → RawData
  | fixed b => .fixed b
  | buffer b => .buffer b
  | text s => .other (.text s)
  | list first rest => .list (.text first :: rest)
  | tuple first rest => .tuple (.text first :: rest)

/-- An account whose data, if there is any, is delivered in one of the shapes. -/
structure Delivered where
  data : Option Delivery
  owner : Option Key

def Delivered.toRaw (a : Delivered) : RawAccount := ⟨a.data.map Delivery.toRaw, a.owner⟩

/-- What is delivered in answer to the calls of a node. -/
abbrev Answers := (call : Nat) → List Key → Option (List (Option Delivered))

namespace Node

def ofAnswers (answers : Answers) : Node := fun call keys =>
  (answers call keys).map fun entries => entries.map fun entry => entry.map Delivered.toRaw

/-- The batch size when none is given. -/
def batchSize : Int := 100

/-- The bytes that base64 stands for, as a text or as its ASCII bytes. -/
def base64Data : Datum → Except Misuse Bytes
  | .text s =>
    match Base64.decode s with
    | .ok b => .ok b
    | .error .notAscii => .error .wrongValue
    | .error .unfinished => .error .unfinishedBase64
  | .bytes b =>
    match Base64.decodeAscii b with
    | some b => .ok b
    | none => .error .unfinishedBase64
  | _ => .error .wrongKind

/-- The bytes of account data. Bytes of both kinds are taken as they are. What is read in base64 is
the first item of a list or tuple, or the value itself. -/
def rawData : RawData → Except Misuse Bytes
  | .fixed b | .buffer b => .ok b
  | .list [] | .tuple [] => .error .missingItem
  | .list (first :: _) | .tuple (first :: _) => base64Data first
  | .other v => base64Data v

def decodeAccount (a : RawAccount) : Except Misuse Account := do
  let data ← a.data.mapM rawData
  return ⟨data, a.owner⟩

/-- The accounts of an answer, which has to have one entry for each key. -/
def decodeReply (keys : List Key) (reply : Option (List (Option RawAccount))) :
    Except Fault (List (Option Account)) :=
  let entries := reply.getD []
  if entries.length ≠ keys.length then
    .error (.malformed (.nodeCount entries.length keys.length))
  else (entries.mapM fun (entry : Option RawAccount) => entry.mapM decodeAccount).mapError .misuse

/-- Asks for one batch after the other; `call` numbers the first of them. -/
def readBatches (node : Node) : (call : Nat) → List (List Key) → Exchange (List (Option Account))
  | _, [] => ⟨[], .ok []⟩
  | call, batch :: rest =>
    match decodeReply batch (node call batch) with
    | .error e => ⟨[batch], .error e⟩
    | .ok accounts =>
      let more := readBatches node (call + 1) rest
      ⟨batch :: more.calls, (accounts ++ ·) <$> more.result⟩

/-- The node as a source that is asked in batches. There are no batches of size zero; a negative
size asks for nothing. -/
def source (node : Node) (size : Int) : Source := fun keys =>
  if size = 0 then ⟨[], .error (.misuse .wrongValue)⟩
  else if size < 0 then ⟨[], .ok []⟩
  else readBatches node 0 (chunksOf size.toNat keys)

/-- The node as a source, with a batch size of any type. -/
def sourceBy (node : Node) (size : Datum) : Source :=
  match size.toInt? with
  | some n => node.source n
  | none => fun _ => ⟨[], .error (.misuse .wrongKind)⟩

/-- A node that serves fixed bytes from a table, with answers that may have the wrong length. -/
def ofTable (t : Table) (skew : Int := 0) : Node := fun _ keys =>
  some (Table.skew skew ((t.answer keys).map fun entry => entry.map fun a =>
    ⟨a.data.map .fixed, a.owner⟩))

end Node

end TokenMetadata
