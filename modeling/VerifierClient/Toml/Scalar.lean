import VerifierClient.Toml.Basic
import VerifierClient.Text.Decimal

/-!
# Numbers, times and truth values

A scalar is read from the run of characters that it is made of.

* `Toml.scalar?` — the value of such a run.
-/

namespace VerifierClient.Toml

def isOneOf (chars : String) (c : Char) : Bool := chars.toList.contains c

def isHexDigit (c : Char) : Bool := c.isDigit || isOneOf "abcdefABCDEF" c

def hexDigit (c : Char) : Nat :=
  if c.isDigit then c.toNat - 48 else if 'a' ≤ c then c.toNat - 87 else c.toNat - 55

-- ---------------------------------------------------------------------------
-- Integers
-- ---------------------------------------------------------------------------

/-- The digits of a numeral, in which single underscores may stand between digits. -/
def digits? (isDigit : Char → Bool) : List Char → Option (List Char)
  | [] => none
  | [c] => if isDigit c then some [c] else none
  | c :: '_' :: rest => if isDigit c then (digits? isDigit rest).map (c :: ·) else none
  | c :: rest => if isDigit c then (digits? isDigit rest).map (c :: ·) else none

/-- The number that digits denote in a base. -/
def inBase (base : Nat) (digits : List Char) : Nat :=
  digits.foldl (fun n c => n * base + hexDigit c) 0

/-- The digits of a decimal integer, which has no leading zero. -/
def wholeDigits? (chars : List Char) : Option (List Char) := do
  let digits ← digits? Char.isDigit chars
  if digits.head? = some '0' ∧ digits.length ≠ 1 then none else some digits

/-- A numeral's sign, and what follows it. -/
def splitSign : List Char → Bool × List Char
  | '+' :: rest => (false, rest)
  | '-' :: rest => (true, rest)
  | chars => (false, chars)

/-- No integer is farther from zero than this. -/
def integerLimit : Nat := Nat.pow 2 128

def integer? (chars : List Char) : Option Int :=
  match chars with
  | '0' :: 'x' :: rest => (digits? isHexDigit rest).map fun ds => inBase 16 ds
  | '0' :: 'o' :: rest => (digits? (isOneOf "01234567") rest).map fun ds => inBase 8 ds
  | '0' :: 'b' :: rest => (digits? (isOneOf "01") rest).map fun ds => inBase 2 ds
  | chars =>
    let (negative, rest) := splitSign chars
    (wholeDigits? rest).map fun ds =>
      let n : Int := Text.digitsValue ds
      if negative then -n else n

-- ---------------------------------------------------------------------------
-- Floats
-- ---------------------------------------------------------------------------

def isExponentMark (c : Char) : Bool := c == 'e' || c == 'E'

/-- The exponent after its mark. -/
def exponent? (chars : List Char) : Option Int := do
  let (negative, rest) := splitSign chars
  let digits ← digits? Char.isDigit rest
  let n : Int := Text.digitsValue digits
  some (if negative then -n else n)

/-- Whether a numeral is a float that a double can hold. -/
def isFinite (chars : List Char) : Bool :=
  let (negative, rest) := splitSign chars
  let mantissa := rest.takeWhile fun c => !isExponentMark c
  let whole := mantissa.takeWhile (· ≠ '.')
  let value : Option Double := do
    let exponent ← match rest.dropWhile fun c => !isExponentMark c with
      | [] => some 0
      | _ :: exponent => exponent? exponent
    let whole ← wholeDigits? whole
    let fraction ← match mantissa.dropWhile (· ≠ '.') with
      | [] => some []
      | _ :: fraction => digits? Char.isDigit fraction
    Double.ofDecimal negative (Text.digitsValue (whole ++ fraction)) (exponent - fraction.length)
  value.isSome

def isFloat (chars : List Char) : Bool :=
  let word := String.ofList (splitSign chars).2
  word == "inf" || word == "nan" || isFinite chars

-- ---------------------------------------------------------------------------
-- Dates and times
-- ---------------------------------------------------------------------------

/-- The number that exactly `count` digits at the front of a text denote. -/
def fixed? (count : Nat) (chars : List Char) : Option (Nat × List Char) :=
  let digits := chars.take count
  if digits.length = count ∧ digits.all Char.isDigit then
    some (Text.digitsValue digits, chars.drop count)
  else none

def expect? (c : Char) : List Char → Option (List Char)
  | d :: rest => if c = d then some rest else none
  | [] => none

def isLeapYear (year : Nat) : Bool := year % 4 == 0 && (year % 100 != 0 || year % 400 == 0)

def daysIn (year month : Nat) : Nat :=
  if month == 2 then if isLeapYear year then 29 else 28
  else if month == 4 || month == 6 || month == 9 || month == 11 then 30
  else 31

/-- What follows a date. -/
def date? (chars : List Char) : Option (List Char) := do
  let (year, rest) ← fixed? 4 chars
  let rest ← expect? '-' rest
  let (month, rest) ← fixed? 2 rest
  let rest ← expect? '-' rest
  let (day, rest) ← fixed? 2 rest
  if 1 ≤ month ∧ month ≤ 12 ∧ 1 ≤ day ∧ day ≤ daysIn year month then some rest else none

/-- What follows the seconds of a time, which may be missing. -/
def seconds? : List Char → Option (List Char)
  | ':' :: rest => do
    let (second, rest) ← fixed? 2 rest
    if 60 < second then none
    else
      match rest with
      | '.' :: rest =>
        if (rest.takeWhile Char.isDigit).isEmpty then none else some (rest.dropWhile Char.isDigit)
      | rest => some rest
  | rest => some rest

/-- Hours and minutes. -/
def clock? (chars : List Char) : Option (List Char) := do
  let (hour, rest) ← fixed? 2 chars
  let rest ← expect? ':' rest
  let (minute, rest) ← fixed? 2 rest
  if hour ≤ 23 ∧ minute ≤ 59 then some rest else none

def time? (chars : List Char) : Option (List Char) := (clock? chars).bind seconds?

/-- Whether a text is the offset of a time zone, or nothing. -/
def isOffset : List Char → Bool
  | [] => true
  | ['Z'] => true
  | ['z'] => true
  | '+' :: rest => clock? rest == some []
  | '-' :: rest => clock? rest == some []
  | _ => false

def isDatetime (chars : List Char) : Bool :=
  match date? chars with
  | some [] => true
  | some (c :: rest) =>
    (c == 'T' || c == 't' || c == ' ') &&
      match time? rest with
      | some rest => isOffset rest
      | none => false
  | none => time? chars == some []

-- ---------------------------------------------------------------------------
-- Scalars
-- ---------------------------------------------------------------------------

/-- The characters that scalars are made of. -/
def isScalarChar (c : Char) : Bool := c.isAlphanum || isOneOf "+-_.:" c

def scalar? (chars : List Char) : Option Toml :=
  let word := String.ofList chars
  if word = "true" then some (.boolean true)
  else if word = "false" then some (.boolean false)
  else if isDatetime chars then some (.datetime word)
  else
    match integer? chars with
    | some n => if n.natAbs < integerLimit then some (.integer n) else none
    | none => if isFloat chars then some (.float word) else none

end VerifierClient.Toml
