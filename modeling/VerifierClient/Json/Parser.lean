import VerifierClient.Json.Basic

/-!
# Reading JSON

A strict reader: no trailing commas, no white space but space, tab, carriage
return and line feed, no raw control characters and no unpaired surrogates in
strings, and nothing after the value. Nesting is bounded, since a reader must
not be driven out of its stack. Members of objects are kept as written,
repeated keys included.

* `Json.read?` — the document of a text as written;
* `Json.parse?` — the value of a text.
-/

namespace VerifierClient.Json

/-- Containers may be nested this deep. -/
def maxDepth : Nat := 127

def isSpace (c : Char) : Bool := c == ' ' || c == '\t' || c == '\n' || c == '\r'

def skipSpace (chars : List Char) : List Char := chars.dropWhile isSpace

-- ---------------------------------------------------------------------------
-- Numbers
-- ---------------------------------------------------------------------------

/-- The digits before the point: the number made of as many of them as fit in 64
bits, and how many are left over. -/
def wholeDigits (digits : List Char) : Nat × Nat :=
  digits.foldl
    (fun (value, dropped) c =>
      if 0 < dropped then (value, dropped + 1)
      else
        let next := 10 * value + Text.digitValue c
        if next < Text.wordLimit then (next, 0) else (value, 1))
    (0, 0)

/-- Appends the digits after the point to `value` as long as 64 bits hold the
number; gives the number and how many digits were taken. -/
def fractionDigits (value : Nat) : List Char → Nat × Nat
  | [] => (value, 0)
  | c :: rest =>
    let next := 10 * value + Text.digitValue c
    if next < Text.wordLimit then
      let (total, taken) := fractionDigits next rest
      (total, taken + 1)
    else (value, 0)

/-- A numeral's parts: sign, digits before the point, digits after it, exponent. -/
structure Numeral where
  negative : Bool
  whole : List Char
  fraction : Option (List Char)
  exponent : Option Int

/-- The value of a numeral; `none` when it is beyond the largest double. -/
def Numeral.value? (n : Numeral) : Option Json :=
  let (whole, dropped) := wholeDigits n.whole
  match n.fraction, n.exponent with
  | none, none =>
    if 0 < dropped then (Double.ofDecimal n.negative whole dropped).map .double
    else if n.negative then
      if 0 < whole ∧ intLow ≤ -(whole : Int) then some (.int (-(whole : Int)))
      else (Double.ofDecimal true whole 0).map .double
    else some (.int whole)
  | fraction, exponent =>
    let (digits, taken) := fractionDigits whole (fraction.getD [])
    (Double.ofDecimal n.negative digits ((dropped : Int) - taken + exponent.getD 0)).map .double

/-- The digits at the front of a text, and what follows. -/
def spanDigits (chars : List Char) : List Char × List Char :=
  (chars.takeWhile Char.isDigit, chars.dropWhile Char.isDigit)

/-- The part of a numeral after a point, if there is one. -/
def fraction? : List Char → Option (Option (List Char) × List Char)
  | '.' :: rest =>
    let (digits, rest) := spanDigits rest
    if digits.isEmpty then none else some (some digits, rest)
  | rest => some (none, rest)

/-- The digits of an exponent with its sign. -/
def exponentDigits? (negative : Bool) (chars : List Char) : Option (Option Int × List Char) :=
  let (digits, rest) := spanDigits chars
  if digits.isEmpty then none
  else
    let n : Int := Text.digitsValue digits
    some (some (if negative then -n else n), rest)

/-- The exponent of a numeral, if there is one. -/
def exponent? : List Char → Option (Option Int × List Char)
  | c :: rest =>
    if c == 'e' || c == 'E' then
      match rest with
      | '+' :: rest => exponentDigits? false rest
      | '-' :: rest => exponentDigits? true rest
      | rest => exponentDigits? false rest
    else some (none, c :: rest)
  | [] => some (none, [])

/-- A numeral without its sign. -/
def numeral? (negative : Bool) (chars : List Char) : Option (Numeral × List Char) := do
  let (whole, rest) := spanDigits chars
  if whole.isEmpty || (whole.head? == some '0' && whole.length != 1) then none
  else
    let (fraction, rest) ← fraction? rest
    let (exponent, rest) ← exponent? rest
    some (⟨negative, whole, fraction, exponent⟩, rest)

/-- A number at the front of a text. -/
def number? (chars : List Char) : Option (Json × List Char) := do
  let (numeral, rest) ← match chars with
    | '-' :: rest => numeral? true rest
    | chars => numeral? false chars
  let value ← numeral.value?
  some (value, rest)

-- ---------------------------------------------------------------------------
-- Strings
-- ---------------------------------------------------------------------------

def hexValue? (c : Char) : Option Nat :=
  if '0' ≤ c && c ≤ '9' then some (c.toNat - 48)
  else if 'a' ≤ c && c ≤ 'f' then some (c.toNat - 87)
  else if 'A' ≤ c && c ≤ 'F' then some (c.toNat - 55)
  else none

/-- The number that four hexadecimal digits denote. -/
def hex4? (a b c d : Char) : Option Nat := do
  let a ← hexValue? a
  let b ← hexValue? b
  let c ← hexValue? c
  let d ← hexValue? d
  some (((a * 16 + b) * 16 + c) * 16 + d)

def isHighSurrogate (n : Nat) : Bool := 0xd800 ≤ n && n < 0xdc00

def isLowSurrogate (n : Nat) : Bool := 0xdc00 ≤ n && n < 0xe000

/-- The character that an escape of one letter stands for. -/
def simpleEscape? (c : Char) : Option Char :=
  if c = '"' then some '"'
  else if c = '\\' then some '\\'
  else if c = '/' then some '/'
  else if c = 'b' then some '\x08'
  else if c = 'f' then some '\x0c'
  else if c = 'n' then some '\n'
  else if c = 'r' then some '\r'
  else if c = 't' then some '\t'
  else none

/-- The characters of a string up to its closing quote, and what follows it. -/
def stringBody? : List Char → Option (List Char × List Char)
  | [] => none
  | '"' :: rest => some ([], rest)
  | '\\' :: 'u' :: a :: b :: c :: d :: rest =>
    match hex4? a b c d with
    | none => none
    | some high =>
      if isLowSurrogate high then none
      else if isHighSurrogate high then
        match rest with
        | '\\' :: 'u' :: a :: b :: c :: d :: rest =>
          match hex4? a b c d with
          | none => none
          | some low =>
            if isLowSurrogate low then
              (stringBody? rest).map fun (body, rest) =>
                (Char.ofNat (0x10000 + (high - 0xd800) * 0x400 + (low - 0xdc00)) :: body, rest)
            else none
        | _ => none
      else (stringBody? rest).map fun (body, rest) => (Char.ofNat high :: body, rest)
  | '\\' :: c :: rest =>
    match simpleEscape? c with
    | none => none
    | some c => (stringBody? rest).map fun (body, rest) => (c :: body, rest)
  | c :: rest =>
    if c.toNat < 0x20 || c == '\\' then none
    else (stringBody? rest).map fun (body, rest) => (c :: body, rest)

/-- A string literal at the front of a text. -/
def string? : List Char → Option (String × List Char)
  | '"' :: rest => (stringBody? rest).map fun (body, rest) => (String.ofList body, rest)
  | _ => none

-- ---------------------------------------------------------------------------
-- Values
-- ---------------------------------------------------------------------------

mutual
/-- A value at the front of a text, with containers nested at most `depth` deep.
Every call on a shorter text spends one unit of `fuel`. -/
def value? (fuel depth : Nat) (chars : List Char) : Option (Json × List Char) :=
  match fuel with
  | 0 => none
  | fuel + 1 =>
    match skipSpace chars with
    | 'n' :: 'u' :: 'l' :: 'l' :: rest => some (.null, rest)
    | 't' :: 'r' :: 'u' :: 'e' :: rest => some (.bool true, rest)
    | 'f' :: 'a' :: 'l' :: 's' :: 'e' :: rest => some (.bool false, rest)
    | '"' :: rest => (string? ('"' :: rest)).map fun (s, rest) => (.str s, rest)
    | '[' :: rest =>
      match depth with
      | 0 => none
      | depth + 1 =>
        match skipSpace rest with
        | ']' :: rest => some (.arr [], rest)
        | rest => (items? fuel depth rest).map fun (items, rest) => (.arr items, rest)
    | '{' :: rest =>
      match depth with
      | 0 => none
      | depth + 1 =>
        match skipSpace rest with
        | '}' :: rest => some (.obj [], rest)
        | rest => (members? fuel depth rest).map fun (members, rest) => (.obj members, rest)
    | rest => number? rest
termination_by structural fuel

/-- One or more items, and the closing bracket. -/
def items? (fuel depth : Nat) (chars : List Char) : Option (List Json × List Char) :=
  match fuel with
  | 0 => none
  | fuel + 1 => do
    let (item, rest) ← value? fuel depth chars
    match skipSpace rest with
    | ']' :: rest => some ([item], rest)
    | ',' :: rest =>
      let (items, rest) ← items? fuel depth rest
      some (item :: items, rest)
    | _ => none
termination_by structural fuel

/-- One or more members, and the closing brace. -/
def members? (fuel depth : Nat) (chars : List Char) : Option (List (String × Json) × List Char) :=
  match fuel with
  | 0 => none
  | fuel + 1 => do
    let (key, rest) ← string? (skipSpace chars)
    match skipSpace rest with
    | ':' :: rest =>
      let (value, rest) ← value? fuel depth rest
      match skipSpace rest with
      | '}' :: rest => some ([(key, value)], rest)
      | ',' :: rest =>
        let (members, rest) ← members? fuel depth rest
        some ((key, value) :: members, rest)
      | _ => none
    | _ => none
termination_by structural fuel
end

/-- The document that a text holds, with at most `depth` nested containers. -/
def readWithin? (depth : Nat) (text : String) : Option Json := do
  let chars := text.toList
  let (document, rest) ← value? (2 * chars.length + 1) depth chars
  if (skipSpace rest).isEmpty then some document else none

/-- The document that a text holds, repeated keys included. -/
def read? (text : String) : Option Json := readWithin? maxDepth text

/-- The value that a text denotes. -/
def parse? (text : String) : Option Json := (read? text).map canonical

end VerifierClient.Json
