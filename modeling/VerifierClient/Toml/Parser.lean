import VerifierClient.Toml.Quoted

/-!
# Reading TOML

A document is read line by line: a line is blank, or it is the header of a table,
or it is a pair of a key and a value. Arrays and inline tables may go over several
lines and may be nested up to a fixed depth.

* `Toml.parse?` — the table that a text denotes.
-/

namespace VerifierClient.Toml

/-- Arrays and inline tables may be nested this deep. -/
def maxDepth : Nat := 80

-- ---------------------------------------------------------------------------
-- Blank space
-- ---------------------------------------------------------------------------

def skipWs (chars : List Char) : List Char := chars.dropWhile isWs

/-- Skips blank space, line ends and comments. Within a comment it stops at the
first character that may not stand there. -/
def skipBlank (inComment : Bool) : List Char → List Char
  | [] => []
  | '\r' :: '\n' :: rest => skipBlank false rest
  | c :: rest =>
    if c = '\n' then skipBlank false rest
    else if inComment then if isTextChar c then skipBlank true rest else c :: rest
    else if isWs c then skipBlank false rest
    else if c = '#' then skipBlank true rest
    else c :: rest

/-- What follows the end of a line, before which a comment may stand. -/
def lineEnd? (chars : List Char) : Option (List Char) :=
  let rest := match skipWs chars with
    | '#' :: rest => rest.dropWhile isTextChar
    | rest => rest
  match rest with
  | [] => some []
  | '\n' :: rest => some rest
  | '\r' :: '\n' :: rest => some rest
  | _ => none

-- ---------------------------------------------------------------------------
-- Keys
-- ---------------------------------------------------------------------------

def isBareKeyChar (c : Char) : Bool := c.isAlphanum || c == '-' || c == '_'

/-- A single key at the front of a text. -/
def simpleKey? (chars : List Char) : Option (String × List Char) :=
  match shortString? chars with
  | some found => some found
  | none =>
    let name := chars.takeWhile isBareKeyChar
    if name.isEmpty then none else some (String.ofList name, chars.dropWhile isBareKeyChar)

/-- Keys with points between them: those before the last, and the last. -/
def keyPath? (chars : List Char) : Nat → Option ((List String × String) × List Char)
  | 0 => none
  | fuel + 1 => do
    let (key, rest) ← simpleKey? (skipWs chars)
    match skipWs rest with
    | '.' :: rest =>
      let ((path, last), rest) ← keyPath? rest fuel
      some ((key :: path, last), rest)
    | rest => some (([], key), rest)

-- ---------------------------------------------------------------------------
-- Values
-- ---------------------------------------------------------------------------

/-- The run of characters of a scalar. The two parts of a time may have a space
between them. -/
def scalarRun (chars : List Char) : List Char × List Char :=
  let word := chars.takeWhile isScalarChar
  match date? word, chars.dropWhile isScalarChar with
  | some [], ' ' :: c :: rest =>
    if c.isDigit then
      (word ++ ' ' :: (c :: rest).takeWhile isScalarChar, (c :: rest).dropWhile isScalarChar)
    else (word, ' ' :: c :: rest)
  | _, rest => (word, rest)

mutual
/-- A value at the front of a text, with arrays and inline tables nested at most
`depth` deep. Every call on a shorter text spends one unit of `fuel`. -/
def value? (fuel depth : Nat) (chars : List Char) : Option (Toml × List Char) :=
  match fuel with
  | 0 => none
  | fuel + 1 =>
    match chars with
    | '"' :: rest => (string? ('"' :: rest)).map fun (s, rest) => (.string s, rest)
    | '\'' :: rest => (string? ('\'' :: rest)).map fun (s, rest) => (.string s, rest)
    | '[' :: rest =>
      match depth with
      | 0 => none
      | depth + 1 => (items? fuel depth rest).map fun (items, rest) => (.array items, rest)
    | '{' :: rest =>
      match depth with
      | 0 => none
      | depth + 1 =>
        (pairs? fuel depth [] rest).map fun (members, rest) => (.table .inline members, rest)
    | chars =>
      let (word, rest) := scalarRun chars
      (scalar? word).map fun value => (value, rest)
termination_by structural fuel

/-- The items of an array, and the closing bracket. -/
def items? (fuel depth : Nat) (chars : List Char) : Option (List Toml × List Char) :=
  match fuel with
  | 0 => none
  | fuel + 1 =>
    match skipBlank false chars with
    | ']' :: rest => some ([], rest)
    | chars => do
      let (item, rest) ← value? fuel depth chars
      match skipBlank false rest with
      | ']' :: rest => some ([item], rest)
      | ',' :: rest =>
        let (items, rest) ← items? fuel depth rest
        some (item :: items, rest)
      | _ => none
termination_by structural fuel

/-- A pair: its keys, and its value. -/
def pair? (fuel depth : Nat) (chars : List Char) :
    Option (((List String × String) × Toml) × List Char) :=
  match fuel with
  | 0 => none
  | fuel + 1 => do
    let (keys, rest) ← keyPath? chars (chars.length + 1)
    let rest ← expect? '=' rest
    let (value, rest) ← value? fuel depth (skipWs rest)
    some ((keys, value), rest)
termination_by structural fuel

/-- The pairs of an inline table after `members`, and the closing brace. -/
def pairs? (fuel depth : Nat) (members : Members) (chars : List Char) :
    Option (Members × List Char) :=
  match fuel with
  | 0 => none
  | fuel + 1 =>
    match skipBlank false chars with
    | '}' :: rest => some (members, rest)
    | chars => do
      let (((path, key), value), rest) ← pair? fuel depth chars
      let members ← addPair path key value .header members
      match skipBlank false rest with
      | '}' :: rest => some (members, rest)
      | ',' :: rest => pairs? fuel depth members rest
      | _ => none
termination_by structural fuel
end

-- ---------------------------------------------------------------------------
-- Documents
-- ---------------------------------------------------------------------------

/-- A document as far as it is read: its table, and the path to the table that the
next pairs belong to. -/
structure Draft where
  root : Members := []
  path : List String := []

/-- The keys of a header up to its closing bracket. -/
def header? (chars : List Char) : Option ((List String × String) × List Char) := do
  let (keys, rest) ← keyPath? chars (chars.length + 1)
  let rest ← expect? ']' rest
  some (keys, rest)

/-- A line that is not blank. -/
def Draft.line? (d : Draft) (chars : List Char) : Option (Draft × List Char) :=
  match chars with
  | '[' :: '[' :: rest => do
    let ((path, key), rest) ← header? rest
    let rest ← expect? ']' rest
    let root ← addElement path key d.root
    some (⟨root, path ++ [key]⟩, rest)
  | '[' :: rest => do
    let ((path, key), rest) ← header? rest
    let root ← addTable path key d.root
    some (⟨root, path ++ [key]⟩, rest)
  | chars => do
    let (((path, key), value), rest) ← pair? (4 * chars.length + 4) maxDepth chars
    let root ← editAt false (addPair path key value) d.path .header d.root
    some ({ d with root }, rest)

/-- Reads the lines that are left. -/
def Draft.lines? (d : Draft) (chars : List Char) : Nat → Option Draft
  | 0 => none
  | fuel + 1 =>
    match skipBlank false chars with
    | [] => some d
    | chars => do
      let (d, rest) ← d.line? chars
      let rest ← lineEnd? rest
      d.lines? rest fuel

/-- The table that a text denotes; a mark of the byte order at the front is
skipped. -/
def parse? (text : String) : Option Members :=
  let chars := match text.toList with
    | '\ufeff' :: rest => rest
    | chars => chars
  ((Draft.lines? {} chars (chars.length + 1)).map Draft.root)

end VerifierClient.Toml
