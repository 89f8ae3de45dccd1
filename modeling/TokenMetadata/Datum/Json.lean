import TokenMetadata.Datum.Basic
import TokenMetadata.Text.Hex
import TokenMetadata.Text.Numeral

/-!
# Values as JSON text

Texts are written in ASCII: every other character is escaped by its UTF-16 units. Lists and records
that are not empty have one entry on a line, indented by two blanks for each level. Reading takes
the JSON grammar, the two infinities and `NaN`; when a name stands twice in a record the last value
counts.

The reader that the fixtures are read with does three things that are left out here. It gives up on
integers of more than 4300 digits and on values that are nested too deep; here both are read. It
keeps half a surrogate pair, which is refused here, for no text of characters has one.
-/

namespace TokenMetadata.Json

/-- A UTF-16 unit in four hexadecimal digits. -/
def unitDigits (n : Nat) : List Char :=
  [Hex.digit (n / 4096 % 16), Hex.digit (n / 256 % 16), Hex.digit (n / 16 % 16), Hex.digit (n % 16)]

def escapeUnit (n : Nat) : List Char := '\\' :: 'u' :: unitDigits n

/-- The UTF-16 units of a character. -/
def units (c : Char) : List Nat :=
  if c.toNat < 0x10000 then [c.toNat]
  else [0xd800 + (c.toNat - 0x10000) / 0x400, 0xdc00 + (c.toNat - 0x10000) % 0x400]

def escapeChar (c : Char) : List Char :=
  if c = '"' ∨ c = '\\' then ['\\', c]
  else if ' ' ≤ c ∧ c ≤ '~' then [c]
  else if c = '\n' then ['\\', 'n']
  else if c = '\r' then ['\\', 'r']
  else if c = '\t' then ['\\', 't']
  else if c = '\x08' then ['\\', 'b']
  else if c = '\x0c' then ['\\', 'f']
  else (units c).flatMap escapeUnit

def writeText (s : String) : List Char := '"' :: (s.toList.flatMap escapeChar ++ ['"'])

/-- The text of a decimal; the infinities and what is not a number have words of their own. -/
def writeDecimal : Decimal → List Char
  | .notANumber => "NaN".toList
  | .number isNegative mantissa exponent =>
    let sign := if isNegative then ['-'] else []
    match Magnitude.ofScaled mantissa exponent with
    | .infinite => sign ++ "Infinity".toList
    | x => sign ++ x.render

/-- The start of a line at some level. -/
def newLine (level : Nat) : List Char := '\n' :: List.replicate (2 * level) ' '

mutual

/-- A value that stands at some level. Bytes are written as hexadecimal text. -/
def writeAt (level : Nat) : Datum → List Char
  | .null => "null".toList
  | .bool b => (if b then "true" else "false").toList
  | .int n => (toString n).toList
  | .decimal d => writeDecimal d
  | .text s => writeText s
  | .bytes b => writeText (Hex.encode b)
  | .list [] => ['[', ']']
  | .list (x :: rest) =>
    '[' :: (newLine (level + 1) ++ writeAt (level + 1) x ++ writeItems (level + 1) rest ++
      newLine level ++ [']'])
  | .record [] => ['\x7b', '\x7d']
  | .record ((name, v) :: rest) =>
    '\x7b' :: (newLine (level + 1) ++ writeText name ++ [':', ' '] ++ writeAt (level + 1) v ++
      writeFields (level + 1) rest ++ newLine level ++ ['\x7d'])

/-- The items after the first. -/
def writeItems (level : Nat) : List Datum → List Char
  | [] => []
  | x :: rest => ',' :: (newLine level ++ writeAt level x ++ writeItems level rest)

/-- The fields after the first. -/
def writeFields (level : Nat) : List (String × Datum) → List Char
  | [] => []
  | (name, v) :: rest =>
    ',' :: (newLine level ++ writeText name ++ [':', ' '] ++ writeAt level v ++
      writeFields level rest)

end

mutual

/-- A value without blanks and line ends. -/
def writeDense : Datum → List Char
  | .list items => '[' :: (writeDenseItems items ++ [']'])
  | .record fields => '\x7b' :: (writeDenseFields fields ++ ['\x7d'])
  | v => writeAt 0 v

def writeDenseItems : List Datum → List Char
  | [] => []
  | [x] => writeDense x
  | x :: rest => writeDense x ++ ',' :: writeDenseItems rest

def writeDenseFields : List (String × Datum) → List Char
  | [] => []
  | [(name, v)] => writeText name ++ ':' :: writeDense v
  | (name, v) :: rest => writeText name ++ ':' :: (writeDense v ++ ',' :: writeDenseFields rest)

end

/-- The text of a value on one line. -/
def writeLine (v : Datum) : String := String.ofList (writeDense v)

/-- The text of a value. -/
def write (v : Datum) : String := String.ofList (writeAt 0 v)

/-- The text of a value as the content of a file. -/
def writeFile (v : Datum) : String := write v ++ "\n"

def isSpace (c : Char) : Bool := c == ' ' || c == '\n' || c == '\r' || c == '\t'

def skipSpace (s : List Char) : List Char := s.dropWhile isSpace

def unit? (a b c d : Char) : Option Nat := do
  let a ← Hex.digitValue? a
  let b ← Hex.digitValue? b
  let c ← Hex.digitValue? c
  let d ← Hex.digitValue? d
  return ((a * 16 + b) * 16 + c) * 16 + d

/-- The character behind a backslash, other than a unit. -/
def unescape? : Char → Option Char
  | '"' => some '"'
  | '\\' => some '\\'
  | '/' => some '/'
  | 'n' => some '\n'
  | 'r' => some '\r'
  | 't' => some '\t'
  | 'b' => some '\x08'
  | 'f' => some '\x0c'
  | _ => none

/-- The code points and units of a text up to its closing quote, and what follows it. -/
def readUnits : List Char → Option (List Nat × List Char)
  | [] => none
  | '"' :: rest => some ([], rest)
  | '\\' :: 'u' :: a :: b :: c :: d :: rest => do
    let n ← unit? a b c d
    let (ns, rest) ← readUnits rest
    return (n :: ns, rest)
  | '\\' :: c :: rest => do
    let c ← unescape? c
    let (ns, rest) ← readUnits rest
    return (c.toNat :: ns, rest)
  | c :: rest =>
    if c < ' ' ∨ c = '\\' then none
    else do
      let (ns, rest) ← readUnits rest
      return (c.toNat :: ns, rest)

/-- Puts surrogate pairs together. -/
def joinUnits : List Nat → Option (List Char)
  | [] => some []
  | n :: rest =>
    if 0xd800 ≤ n ∧ n < 0xdc00 then
      match rest with
      | m :: rest =>
        if 0xdc00 ≤ m ∧ m < 0xe000 then
          (Char.ofNat (0x10000 + (n - 0xd800) * 0x400 + (m - 0xdc00)) :: ·) <$> joinUnits rest
        else none
      | [] => none
    else if 0xdc00 ≤ n ∧ n < 0xe000 then none
    else (Char.ofNat n :: ·) <$> joinUnits rest

/-- A text behind its opening quote. -/
def readText (s : List Char) : Option (String × List Char) := do
  let (ns, rest) ← readUnits s
  let cs ← joinUnits ns
  return (String.ofList cs, rest)

/-- The digits of a whole number: a zero at the front stands alone. -/
def wholeDigits : List Char → List Char × List Char
  | '0' :: rest => (['0'], rest)
  | s => s.span Char.isDigit

/-- The digits of a fraction, if the text goes on with one. -/
def fractionDigits : List Char → List Char × List Char
  | s@('.' :: rest) =>
    match rest.span Char.isDigit with
    | ([], _) => ([], s)
    | found => found
  | s => ([], s)

/-- An exponent, if the text goes on with one. -/
def exponentPart (s : List Char) : Option (Int × List Char) :=
  match s with
  | e :: rest =>
    if e = 'e' ∨ e = 'E' then
      let (negative, digits) :=
        match rest with
        | '-' :: rest => (true, rest)
        | '+' :: rest => (false, rest)
        | rest => (false, rest)
      match digits.span Char.isDigit with
      | ([], _) => none
      | (ds, rest) =>
        let n : Int := Numeral.ofDecimal ds
        some (if negative then -n else n, rest)
    else none
  | [] => none

/-- A number without its sign. One with a fraction or an exponent is a decimal. -/
def readMagnitude (negative : Bool) (s : List Char) : Option (Datum × List Char) :=
  match wholeDigits s with
  | ([], _) => none
  | (whole, rest) =>
    let (fraction, rest) := fractionDigits rest
    let n := Numeral.ofDecimal (whole ++ fraction)
    match fraction, exponentPart rest with
    | [], none => some (.int (if negative then -n else n), rest)
    | _, none => some (.decimal (.number negative n (-fraction.length)), rest)
    | _, some (exponent, rest) =>
      some (.decimal (.number negative n (exponent - fraction.length)), rest)

/-- Drops the characters of a word from the front. -/
def expect (word : String) (s : List Char) : Option (List Char) :=
  if word.toList.isPrefixOf s then some (s.drop word.length) else none

def readNumber : List Char → Option (Datum × List Char)
  | '-' :: 'I' :: rest => (expect "nfinity" rest).map (.decimal (.infinite true), ·)
  | '-' :: rest => readMagnitude true rest
  | s => readMagnitude false s

/-- The fields of a record, of which those further back replace those of the same name. -/
def mergeFields (fields : List (String × Datum)) : List (String × Datum) :=
  fields.foldl (fun merged (name, v) => Datum.setField name v merged) []

mutual

def readValue : (fuel : Nat) → List Char → Option (Datum × List Char)
  | 0, _ => none
  | fuel + 1, s =>
    match skipSpace s with
    | 'n' :: rest => (expect "ull" rest).map (.null, ·)
    | 't' :: rest => (expect "rue" rest).map (.bool true, ·)
    | 'f' :: rest => (expect "alse" rest).map (.bool false, ·)
    | 'I' :: rest => (expect "nfinity" rest).map (.decimal (.infinite false), ·)
    | 'N' :: rest => (expect "aN" rest).map (.decimal .notANumber, ·)
    | '"' :: rest => (readText rest).map fun (t, rest) => (.text t, rest)
    | '[' :: rest =>
      match skipSpace rest with
      | ']' :: rest => some (.list [], rest)
      | rest => (readItems fuel rest).map fun (xs, rest) => (.list xs, rest)
    | '\x7b' :: rest =>
      match skipSpace rest with
      | '\x7d' :: rest => some (.record [], rest)
      | rest => (readFields fuel rest).map fun (fs, rest) => (.record (mergeFields fs), rest)
    | s => readNumber s

/-- One item or more, and the bracket behind them. -/
def readItems : (fuel : Nat) → List Char → Option (List Datum × List Char)
  | 0, _ => none
  | fuel + 1, s => do
    let (x, rest) ← readValue fuel s
    match skipSpace rest with
    | ',' :: rest => (readItems fuel rest).map fun (xs, rest) => (x :: xs, rest)
    | ']' :: rest => some ([x], rest)
    | _ => none

/-- One field or more, and the brace behind them. -/
def readFields : (fuel : Nat) → List Char → Option (List (String × Datum) × List Char)
  | 0, _ => none
  | fuel + 1, s =>
    match skipSpace s with
    | '"' :: rest => do
      let (name, rest) ← readText rest
      match skipSpace rest with
      | ':' :: rest =>
        let (v, rest) ← readValue fuel rest
        match skipSpace rest with
        | ',' :: rest => (readFields fuel rest).map fun (fs, rest) => ((name, v) :: fs, rest)
        | '\x7d' :: rest => some ([(name, v)], rest)
        | _ => none
      | _ => none
    | _ => none

end

/-- The value of a whole text. No value is nested deeper than the text is long, and every step into
a list or record takes up two units of fuel. -/
def read (s : String) : Option Datum :=
  match readValue (2 * s.length + 2) s.toList with
  | some (v, rest) => if (skipSpace rest).isEmpty then some v else none
  | none => none

end TokenMetadata.Json
