import TokenMetadata.Datum.Basic
import TokenMetadata.Text.Character

/-!
# Values shown in messages

Texts stand in single quotes, or in double quotes when that saves an escape. The quote in use, the
backslash and characters that are not printable are escaped.
-/

namespace TokenMetadata.Datum

def hexDigits (width n : Nat) : List Char :=
  let ds := Nat.toDigits 16 n
  List.replicate (width - ds.length) '0' ++ ds

/-- A character of a quoted text. -/
def quotedChar (quote : Char) (printable : Char → Bool) (c : Char) : List Char :=
  if c = quote ∨ c = '\\' then ['\\', c]
  else if c = '\n' then ['\\', 'n']
  else if c = '\r' then ['\\', 'r']
  else if c = '\t' then ['\\', 't']
  else if printable c then [c]
  else if c.toNat < 0x100 then '\\' :: 'x' :: hexDigits 2 c.toNat
  else if c.toNat < 0x10000 then '\\' :: 'u' :: hexDigits 4 c.toNat
  else '\\' :: 'U' :: hexDigits 8 c.toNat

def quoteWith (printable : Char → Bool) (s : List Char) : List Char :=
  let quote := if '\'' ∈ s ∧ '"' ∉ s then '"' else '\''
  quote :: (s.flatMap (quotedChar quote printable) ++ [quote])

def quotedText (s : String) : List Char := quoteWith isPrintable s.toList

mutual

def quotedChars : Datum → List Char
  | null => "None".toList
  | bool b => (if b then "True" else "False").toList
  | int n => (toString n).toList
  | decimal d => d.render.toList
  | text s => quotedText s
  | bytes b =>
    'b' :: quoteWith (fun c => ' ' ≤ c && c ≤ '~') (b.map fun x => Char.ofNat x.toNat)
  | list items => '[' :: (quotedItems items ++ [']'])
  | record fields => '\x7b' :: (quotedFields fields ++ ['\x7d'])

def quotedItems : List Datum → List Char
  | [] => []
  | [x] => quotedChars x
  | x :: rest => quotedChars x ++ ", ".toList ++ quotedItems rest

def quotedFields : List (String × Datum) → List Char
  | [] => []
  | [(name, v)] => quotedText name ++ ": ".toList ++ quotedChars v
  | (name, v) :: rest =>
    quotedText name ++ ": ".toList ++ quotedChars v ++ ", ".toList ++ quotedFields rest

end

/-- The value as messages show it. -/
def quoted (v : Datum) : String := String.ofList v.quotedChars

/-- The value as messages show it where a text stands without quotes. -/
def shown : Datum → String
  | text s => s
  | v => v.quoted

end TokenMetadata.Datum
