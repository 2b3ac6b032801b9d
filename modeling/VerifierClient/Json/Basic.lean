import VerifierClient.Json.Double
import VerifierClient.Text.Decimal

/-!
# JSON values

The data of the wire. Integers from `-2 ^ 63` up to `2 ^ 64 - 1` are kept as
integers, every other number as a double. The members of an object form a list,
in which a document may repeat a key; `Json.canonical` gives the value such a
document stands for: members in ascending order of their keys, each key once
with the value written last.

* `Json.chars`, `Json.text` — the compact written form.
-/

namespace VerifierClient

inductive Json where
  | null
  | bool (b : Bool)
  | int (n : Int)
  | double (d : Double)
  | str (s : String)
  | arr (items : List Json)
  | obj (members : List (String × Json))
deriving Repr, Inhabited

namespace Json

/-- Integers from here on are kept as integers. -/
def intLow : Int := -9223372036854775808

/-- Integers below this are kept as integers. -/
def intHigh : Int := 18446744073709551616

def nat (n : Nat) : Json := .int n

/-- A text, or null. -/
def optStr : Option String → Json
  | none => .null
  | some s => .str s

-- ---------------------------------------------------------------------------
-- Canonical values
-- ---------------------------------------------------------------------------

/-- Puts a member into an ascending list, unless its key is there already. -/
def addMember (key : String) (value : Json) : List (String × Json) → List (String × Json)
  | [] => [(key, value)]
  | (k, v) :: rest =>
    if key < k then (key, value) :: (k, v) :: rest
    else if key = k then (k, v) :: rest
    else (k, v) :: addMember key value rest

mutual
/-- The value with every object's members in ascending order, the last of several
members with one key kept. -/
def canonical : Json → Json
  | .arr items => .arr (canonicalItems items)
  | .obj members => .obj (canonicalMembers members)
  | .null => .null
  | .bool b => .bool b
  | .int n => .int n
  | .double d => .double d
  | .str s => .str s
termination_by structural j => j

def canonicalItems : List Json → List Json
  | [] => []
  | item :: rest => item.canonical :: canonicalItems rest
termination_by structural items => items

def canonicalMembers : List (String × Json) → List (String × Json)
  | [] => []
  | (key, value) :: rest => addMember key value.canonical (canonicalMembers rest)
termination_by structural members => members
end

/-- An object with the given members. -/
def ofMembers (members : List (String × Json)) : Json := .obj (canonicalMembers members)

-- ---------------------------------------------------------------------------
-- Written form
-- ---------------------------------------------------------------------------

/-- A lower-case hexadecimal digit. -/
def hexDigit (n : Nat) : Char := if n < 10 then Char.ofNat (48 + n) else Char.ofNat (87 + n)

/-- A character inside a string literal. Only the quote, the backslash and the
control characters below the space are escaped. -/
def escapeChar (c : Char) : List Char :=
  if c = '"' then ['\\', '"']
  else if c = '\\' then ['\\', '\\']
  else if c = '\x08' then ['\\', 'b']
  else if c = '\t' then ['\\', 't']
  else if c = '\n' then ['\\', 'n']
  else if c = '\x0c' then ['\\', 'f']
  else if c = '\r' then ['\\', 'r']
  else if c.toNat < 0x20 then
    ['\\', 'u', '0', '0', hexDigit (c.toNat / 16), hexDigit (c.toNat % 16)]
  else [c]

/-- A string literal. -/
def strChars (s : String) : List Char := '"' :: (s.toList.flatMap escapeChar ++ ['"'])

def intChars (n : Int) : List Char :=
  if n < 0 then '-' :: Text.decimal n.natAbs else Text.decimal n.natAbs

mutual
/-- The compact written form: no white space, members in the order they have. -/
def chars : Json → List Char
  | .null => ['n', 'u', 'l', 'l']
  | .bool true => ['t', 'r', 'u', 'e']
  | .bool false => ['f', 'a', 'l', 's', 'e']
  | .int n => intChars n
  | .double d => d.chars
  | .str s => strChars s
  | .arr [] => ['[', ']']
  | .arr (item :: rest) => '[' :: (item.chars ++ itemsChars rest)
  | .obj [] => ['{', '}']
  | .obj ((key, value) :: rest) => '{' :: (strChars key ++ ':' :: (value.chars ++ membersChars rest))
termination_by structural j => j

/-- The items of an array after its first one, and the closing bracket. -/
def itemsChars : List Json → List Char
  | [] => [']']
  | item :: rest => ',' :: (item.chars ++ itemsChars rest)
termination_by structural items => items

/-- The members of an object after its first one, and the closing brace. -/
def membersChars : List (String × Json) → List Char
  | [] => ['}']
  | (key, value) :: rest => ',' :: (strChars key ++ ':' :: (value.chars ++ membersChars rest))
termination_by structural members => members
end

/-- The compact written form as a text. -/
def text (j : Json) : String := String.ofList j.chars

end Json

end VerifierClient
