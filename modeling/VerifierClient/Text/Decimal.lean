/-!
# Decimal numerals

Natural numbers written in decimal, and two readers: one that takes only the
canonical numeral of a number, one that also takes a plus sign and leading
zeros and says what is wrong with a text it refuses.
-/

namespace VerifierClient.Text

/-- Numbers of 64 bits are smaller than this. -/
def wordLimit : Nat := 18446744073709551616

/-- The digits of `n`, most significant first. -/
def decimal (n : Nat) : List Char := Nat.toDigits 10 n

/-- The digits of `n` as a text. -/
def decimalText (n : Nat) : String := String.ofList (decimal n)

/-- The value of a decimal digit. -/
def digitValue (c : Char) : Nat := c.toNat - '0'.toNat

/-- The number that a list of digits denotes. -/
def digitsValue (digits : List Char) : Nat :=
  digits.foldl (fun n c => 10 * n + digitValue c) 0

/-- Digits only, at least one, and no zero before another digit. -/
def isCanonicalNumeral (chars : List Char) : Bool :=
  !chars.isEmpty && chars.all Char.isDigit && (chars == ['0'] || chars.head? != some '0')

/-- The number below `limit` whose canonical numeral is `chars`. -/
def parseCanonical? (limit : Nat) (chars : List Char) : Option Nat :=
  if isCanonicalNumeral chars && digitsValue chars < limit then some (digitsValue chars) else none

/-- Why a text is not a number. -/
inductive NumeralError where
  | empty
  | invalidDigit
  | tooLarge
deriving DecidableEq, Repr

def NumeralError.message : NumeralError → String
  | .empty => "cannot parse integer from empty string"
  | .invalidDigit => "invalid digit found in string"
  | .tooLarge => "number too large to fit in target type"

/-- Reads digits onto `value`; the first of them that is no digit or leads out of
range decides the error. -/
def readDigits (limit : Nat) : Nat → List Char → Except NumeralError Nat
  | value, [] => .ok value
  | value, c :: rest =>
    if c.isDigit then
      if 10 * value + digitValue c < limit then readDigits limit (10 * value + digitValue c) rest
      else .error .tooLarge
    else .error .invalidDigit

/-- A number below `limit`: digits, after at most one plus sign. -/
def parseNumeral (limit : Nat) : List Char → Except NumeralError Nat
  | [] => .error .empty
  | ['+'] => .error .invalidDigit
  | '+' :: digits => readDigits limit 0 digits
  | digits => readDigits limit 0 digits

end VerifierClient.Text
