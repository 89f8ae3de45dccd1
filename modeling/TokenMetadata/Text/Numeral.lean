import TokenMetadata.Text.Character

/-!
# Numerals and integers

Digit strings have the most significant digit first. A change of base keeps the zeros at the front
one for one, so that strings of digits, and not only numbers, have a form in every base.

A typed integer may have white space around it, a sign, zeros in front, single underscores between
its digits, and a fraction of zeros. The zeros in front may be mixed with underscores, and a minus
sign may stand behind them. What is left is a plain integer: perhaps a minus sign, then zero or
digits that do not start with zero.
-/

namespace TokenMetadata

namespace Numeral

/-- The digits of `n`, least significant first; zero has none. -/
def digitsLE (base n : Nat) : List Nat :=
  if h : 1 < base ∧ 0 < n then
    have : n / base < n := Nat.div_lt_self h.2 h.1
    n % base :: digitsLE base (n / base)
  else []

/-- The digits of `n`, most significant first; zero has none. -/
def digits (base n : Nat) : List Nat := (digitsLE base n).reverse

def value (base : Nat) (ds : List Nat) : Nat := ds.foldl (fun n d => n * base + d) 0

/-- The number that characters stand for as decimal digits. -/
def ofDecimal (cs : List Char) : Nat := value 10 (cs.map fun c => c.toNat - 48)

/-- Writes the number of a digit string in another base. -/
def rebase (source target : Nat) (ds : List Nat) : List Nat :=
  ds.takeWhile (· = 0) ++ digits target (value source ds)

end Numeral

namespace Integer

/-- Why a text is not taken for an integer. -/
inductive Flaw
  | malformed
  | tooLong
  deriving DecidableEq, Repr

/-- White space around a number: blanks other than the information separators. -/
def isPadding (c : Char) : Bool := isBlank c && !(28 ≤ c.toNat && c.toNat ≤ 31)

def trim (cs : List Char) : List Char :=
  ((cs.dropWhile isPadding).reverse.dropWhile isPadding).reverse

/-- What follows zeros and underscores, of which `last` is the one passed last. It stays where no
digit of a whole number follows. -/
def afterZeros (last : Char) : List Char → Option (List Char)
  | [] => some [last]
  | c :: rest =>
    if c = '0' ∨ c = '_' then afterZeros c rest
    else if c = '.' then some (last :: c :: rest)
    else if c = '-' ∨ c.isDigit then some (c :: rest)
    else none

/-- A text that starts with a digit, without zeros in front. -/
def dropZeros : List Char → Option (List Char)
  | [] => none
  | c :: rest =>
    if c = '0' then afterZeros c rest
    else if c.isDigit then some (c :: rest)
    else none

/-- The part in front of a point that only zeros follow. -/
def dropZeroFraction (cs : List Char) : List Char :=
  match cs.span (· ≠ '.') with
  | (whole, '.' :: fraction) => if fraction.all (· = '0') then whole else cs
  | _ => cs

/-- Drops underscores if each of them stands alone between other characters. -/
def dropUnderscores (cs : List Char) : List Char :=
  let groups := cs.splitOn '_'
  if groups.all (!·.isEmpty) then groups.flatten else cs

/-- Drops what does not count in an integer without a sign in front. -/
def clean (cs : List Char) : Option (List Char) :=
  (dropZeros cs).map fun cs => dropUnderscores (dropZeroFraction cs)

/-- The most characters that a plain integer has. -/
def maxLength : Nat := 4300

/-- Zero, or at most `room` digits that do not start with zero. -/
def plainNat (room : Nat) (cs : List Char) : Except Flaw Nat :=
  let (digits, rest) := cs.span Char.isDigit
  if digits = [] ∨ digits.head? = some '0' ∧ digits ≠ ['0'] then .error .malformed
  else if room < digits.length then .error .tooLong
  else if rest ≠ [] then .error .malformed
  else .ok (Numeral.ofDecimal digits)

def plain : List Char → Except Flaw Int
  | '-' :: cs => (fun n => -(n : Int)) <$> plainNat (maxLength - 1) cs
  | cs => Int.ofNat <$> plainNat maxLength cs

def ofCleaned (sign : List Char) : Option (List Char) → Except Flaw Int
  | none => .error .malformed
  | some cs => plain (sign ++ cs)

/-- The integer that a text stands for. -/
def ofText (s : String) : Except Flaw Int :=
  match trim s.toList with
  | '-' :: cs => ofCleaned ['-'] (clean cs)
  | '+' :: cs => ofCleaned [] (clean cs)
  | cs => ofCleaned [] (clean cs)

end Integer

end TokenMetadata
