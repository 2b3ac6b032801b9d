import VerifierClient.Toml.Scalar

/-!
# Strings

A string stands between double quotes, where a backslash begins an escape, or
between single quotes, where all characters stand for themselves. Between triple
quotes it may go over several lines; a line end right after the opening quotes is
dropped, and a backslash at the end of a line takes the blank space that follows
with it.
-/

namespace VerifierClient.Toml

/-- Whether a character may stand in a string or a comment. -/
def isTextChar (c : Char) : Bool := c == '\t' || (0x20 ≤ c.toNat && c.toNat != 0x7f)

def isWs (c : Char) : Bool := c == ' ' || c == '\t'

/-- The character with a code, unless it is half of a pair or out of range. -/
def scalarValue? (n : Nat) : Option Char :=
  if n < 0xd800 ∨ (0xe000 ≤ n ∧ n < 0x110000) then some (Char.ofNat n) else none

/-- The character whose code hexadecimal digits denote. -/
def codePoint? (digits : List Char) : Option Char :=
  if digits.all isHexDigit then scalarValue? (inBase 16 digits) else none

/-- The character that an escape of one letter stands for. -/
def letterEscape? (c : Char) : Option Char :=
  if c = '"' then some '"'
  else if c = '\\' then some '\\'
  else if c = 'b' then some '\x08'
  else if c = 't' then some '\t'
  else if c = 'n' then some '\n'
  else if c = 'f' then some '\x0c'
  else if c = 'r' then some '\r'
  else if c = 'e' then some '\x1b'
  else none

-- ---------------------------------------------------------------------------
-- Strings of one line
-- ---------------------------------------------------------------------------

/-- The characters of a string up to its closing double quote, and what follows. -/
def basicBody? : List Char → Option (List Char × List Char)
  | [] => none
  | '"' :: rest => some ([], rest)
  | '\\' :: 'x' :: a :: b :: rest => do
    let c ← codePoint? [a, b]
    let (body, rest) ← basicBody? rest
    some (c :: body, rest)
  | '\\' :: 'u' :: a :: b :: c :: d :: rest => do
    let c ← codePoint? [a, b, c, d]
    let (body, rest) ← basicBody? rest
    some (c :: body, rest)
  | '\\' :: 'U' :: a :: b :: c :: d :: e :: f :: g :: h :: rest => do
    let c ← codePoint? [a, b, c, d, e, f, g, h]
    let (body, rest) ← basicBody? rest
    some (c :: body, rest)
  | '\\' :: c :: rest => do
    let c ← letterEscape? c
    let (body, rest) ← basicBody? rest
    some (c :: body, rest)
  | c :: rest =>
    if c != '\\' && isTextChar c then
      (basicBody? rest).map fun (body, rest) => (c :: body, rest)
    else none

/-- The characters of a string up to its closing single quote, and what follows. -/
def literalBody? : List Char → Option (List Char × List Char)
  | [] => none
  | '\'' :: rest => some ([], rest)
  | c :: rest =>
    if isTextChar c then (literalBody? rest).map fun (body, rest) => (c :: body, rest) else none

-- ---------------------------------------------------------------------------
-- Strings of several lines
-- ---------------------------------------------------------------------------

/-- Where a reader is after a backslash at the end of a line. -/
inductive LineJoin where
  /-- not after one -/
  | off
  /-- between the backslash and the line end -/
  | pending
  /-- in the blank space after the line end -/
  | skipping
deriving DecidableEq, Repr

/-- The characters up to closing triple double quotes. Up to two more quotes right
before them belong to the string. -/
def longBasicBody? : LineJoin → List Char → Option (List Char × List Char)
  | _, [] => none
  | .pending, '\r' :: '\n' :: rest => longBasicBody? .skipping rest
  | .pending, c :: rest =>
    if c = '\n' then longBasicBody? .skipping rest
    else if isWs c then longBasicBody? .pending rest
    else none
  | .skipping, '\r' :: '\n' :: rest => longBasicBody? .skipping rest
  | _, '"' :: '"' :: '"' :: '"' :: '"' :: rest => some (['"', '"'], rest)
  | _, '"' :: '"' :: '"' :: '"' :: rest => some (['"'], rest)
  | _, '"' :: '"' :: '"' :: rest => some ([], rest)
  | _, '\\' :: 'x' :: a :: b :: rest => do
    let c ← codePoint? [a, b]
    let (body, rest) ← longBasicBody? .off rest
    some (c :: body, rest)
  | _, '\\' :: 'u' :: a :: b :: c :: d :: rest => do
    let c ← codePoint? [a, b, c, d]
    let (body, rest) ← longBasicBody? .off rest
    some (c :: body, rest)
  | _, '\\' :: 'U' :: a :: b :: c :: d :: e :: f :: g :: h :: rest => do
    let c ← codePoint? [a, b, c, d, e, f, g, h]
    let (body, rest) ← longBasicBody? .off rest
    some (c :: body, rest)
  | _, '\\' :: '\r' :: '\n' :: rest => longBasicBody? .skipping rest
  | _, '\\' :: c :: rest =>
    if c = '\n' then longBasicBody? .skipping rest
    else if isWs c then longBasicBody? .pending rest
    else do
      let c ← letterEscape? c
      let (body, rest) ← longBasicBody? .off rest
      some (c :: body, rest)
  | .off, '\r' :: '\n' :: rest =>
    (longBasicBody? .off rest).map fun (body, rest) => ('\r' :: '\n' :: body, rest)
  | join, c :: rest =>
    if join = .skipping ∧ (isWs c ∨ c = '\n') then longBasicBody? .skipping rest
    else if c = '\n' ∨ (c ≠ '\\' ∧ isTextChar c) then
      (longBasicBody? .off rest).map fun (body, rest) => (c :: body, rest)
    else none

/-- The characters up to closing triple single quotes. Up to two more quotes right
before them belong to the string. -/
def longLiteralBody? : List Char → Option (List Char × List Char)
  | [] => none
  | '\'' :: '\'' :: '\'' :: '\'' :: '\'' :: rest => some (['\'', '\''], rest)
  | '\'' :: '\'' :: '\'' :: '\'' :: rest => some (['\''], rest)
  | '\'' :: '\'' :: '\'' :: rest => some ([], rest)
  | '\r' :: '\n' :: rest =>
    (longLiteralBody? rest).map fun (body, rest) => ('\r' :: '\n' :: body, rest)
  | c :: rest =>
    if c = '\n' ∨ isTextChar c then
      (longLiteralBody? rest).map fun (body, rest) => (c :: body, rest)
    else none

/-- Drops a line end at the front of a text. -/
def dropLineEnd : List Char → List Char
  | '\n' :: rest => rest
  | '\r' :: '\n' :: rest => rest
  | chars => chars

-- ---------------------------------------------------------------------------
-- Strings
-- ---------------------------------------------------------------------------

/-- A string of one line at the front of a text. -/
def shortString? : List Char → Option (String × List Char)
  | '"' :: rest => (basicBody? rest).map fun (body, rest) => (String.ofList body, rest)
  | '\'' :: rest => (literalBody? rest).map fun (body, rest) => (String.ofList body, rest)
  | _ => none

/-- A string at the front of a text. -/
def string? : List Char → Option (String × List Char)
  | '"' :: '"' :: '"' :: rest =>
    (longBasicBody? .off (dropLineEnd rest)).map fun (body, rest) => (String.ofList body, rest)
  | '\'' :: '\'' :: '\'' :: rest =>
    (longLiteralBody? (dropLineEnd rest)).map fun (body, rest) => (String.ofList body, rest)
  | chars => shortString? chars

end VerifierClient.Toml
