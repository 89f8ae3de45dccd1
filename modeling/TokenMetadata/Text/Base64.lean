import TokenMetadata.Bytes

/-!
# Base64 text

Writing uses the standard alphabet with padding. Reading is lenient: characters outside the
alphabet are skipped, and a pad ends the text as soon as it completes a group that holds at least
two characters. Only a text that ends inside a group is refused.
-/

namespace TokenMetadata.Base64

/-- The character of a value below sixty-four. -/
def digit (n : Nat) : Char :=
  if n < 26 then Char.ofNat (65 + n)
  else if n < 52 then Char.ofNat (71 + n)
  else if n < 62 then Char.ofNat (n - 4)
  else if n = 62 then '+'
  else '/'

def digitValue? (c : Char) : Option Nat :=
  if 'A' ≤ c ∧ c ≤ 'Z' then some (c.toNat - 65)
  else if 'a' ≤ c ∧ c ≤ 'z' then some (c.toNat - 71)
  else if '0' ≤ c ∧ c ≤ '9' then some (c.toNat + 4)
  else if c = '+' then some 62
  else if c = '/' then some 63
  else none

def encodeChars : Bytes → List Char
  | [] => []
  | [a] => [digit (a.toNat / 4), digit (a.toNat % 4 * 16), '=', '=']
  | [a, b] =>
    [digit (a.toNat / 4), digit (a.toNat % 4 * 16 + b.toNat / 16), digit (b.toNat % 16 * 4), '=']
  | a :: b :: c :: rest =>
    digit (a.toNat / 4) :: digit (a.toNat % 4 * 16 + b.toNat / 16) ::
      digit (b.toNat % 16 * 4 + c.toNat / 64) :: digit (c.toNat % 64) :: encodeChars rest

def encode (b : Bytes) : String := String.ofList (encodeChars b)

/-- Why a text has no reading. -/
inductive Flaw
  | notAscii
  | unfinished
  deriving DecidableEq, Repr

/-- The whole bytes of a group of up to four values; bits short of a byte are dropped. -/
def groupBytes : List Nat → Bytes
  | [a, b] => [UInt8.ofNat (a * 4 + b / 16)]
  | [a, b, c] => [UInt8.ofNat (a * 4 + b / 16), UInt8.ofNat (b % 16 * 16 + c / 4)]
  | [a, b, c, d] =>
    [UInt8.ofNat (a * 4 + b / 16), UInt8.ofNat (b % 16 * 16 + c / 4), UInt8.ofNat (c % 4 * 64 + d)]
  | _ => []

/-- Reads on inside a group: `group` holds the values of the unfinished group, `pads` the length of
the run of pads that has been counted since the last of them. -/
def decodeChars (group : List Nat) (pads : Nat) : List Char → Option Bytes
  | [] => if group.isEmpty then some [] else none
  | c :: rest =>
    if c = '=' then
      if 2 ≤ group.length then
        if 4 ≤ group.length + (pads + 1) then some (groupBytes group)
        else decodeChars group (pads + 1) rest
      else decodeChars group pads rest
    else
      match digitValue? c with
      | none => decodeChars group pads rest
      | some value =>
        if group.length = 3 then
          (decodeChars [] 0 rest).map (groupBytes (group ++ [value]) ++ ·)
        else decodeChars (group ++ [value]) 0 rest

/-- Reads bytes as characters; those that are not ASCII are skipped with the rest. -/
def decodeAscii (b : Bytes) : Option Bytes := decodeChars [] 0 (b.map fun x => Char.ofNat x.toNat)

def decode (s : String) : Except Flaw Bytes :=
  if s.toList.all (·.toNat < 128) then
    match decodeChars [] 0 s.toList with
    | some b => .ok b
    | none => .error .unfinished
  else .error .notAscii

end TokenMetadata.Base64
