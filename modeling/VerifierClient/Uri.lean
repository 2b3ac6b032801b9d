import VerifierClient.Path
import VerifierClient.Text.Utf8

/-!
# Document URIs

Documents are known by file URIs. The URI of a path is made of its components,
each percent-encoded, after the path was made absolute; so two paths have the
same URI exactly when they have the same components.

* `documentUri` — the URI of a path;
* `Uri.toPath` — the path of a URI;
* `Uri.normalize` — the standard form of a URI that was written by someone else.
-/

namespace VerifierClient

/-- A URI in standard form. -/
structure Uri where
  text : String
deriving DecidableEq, Repr, Inhabited

namespace Uri

/-- An upper-case hexadecimal digit. -/
def hexDigit (n : Nat) : Char := if n < 10 then Char.ofNat (48 + n) else Char.ofNat (55 + n)

def percentEncodeByte (b : UInt8) : List Char :=
  ['%', hexDigit (b.toNat / 16), hexDigit (b.toNat % 16)]

/-- Characters that are encoded in every part of a path. -/
def isReserved (c : Char) : Bool :=
  c == ' ' || c == '"' || c == '<' || c == '>' || c == '\x60' || c == '#' || c == '?' ||
    c == '{' || c == '}'

/-- Characters that are encoded in the name of a component. -/
def isReservedInName (c : Char) : Bool := isReserved c || c == '/' || c == '%' || c == '\\'

/-- Encodes the bytes of `chars` that are no printable ASCII characters or that
`reserved` holds of. -/
def percentEncode (reserved : Char → Bool) (text : String) : List Char :=
  text.toUTF8.toList.flatMap fun b =>
    if 0x20 ≤ b && b < 0x7f && !reserved (Char.ofNat b.toNat) then [Char.ofNat b.toNat]
    else percentEncodeByte b

/-- The value of a hexadecimal digit. -/
def hexValue? (c : Char) : Option Nat :=
  if '0' ≤ c && c ≤ '9' then some (c.toNat - 48)
  else if 'a' ≤ c && c ≤ 'f' then some (c.toNat - 87)
  else if 'A' ≤ c && c ≤ 'F' then some (c.toNat - 55)
  else none

/-- The bytes that percent-encoded characters stand for; a percent sign without
two digits stands for itself. -/
def percentDecode : List Char → List UInt8
  | [] => []
  | '%' :: a :: b :: rest =>
    match hexValue? a, hexValue? b with
    | some a, some b => UInt8.ofNat (a * 16 + b) :: percentDecode rest
    | _, _ => 37 :: percentDecode (a :: b :: rest)
  | c :: rest => (String.singleton c).toUTF8.toList ++ percentDecode rest

/-- What stands before the path of a file URI. -/
def fileScheme : String := "file://"

/-- The file URI of an absolute path with the given components. -/
def ofNames (names : List String) : Uri :=
  if names.isEmpty then ⟨fileScheme ++ "/"⟩
  else ⟨fileScheme ++ String.ofList (names.flatMap fun name =>
    '/' :: percentEncode isReservedInName name)⟩

/-- Whether a path ends in a drive letter and a colon or bar, after which a slash
is due. -/
def endsInDrive (bytes : List UInt8) : Bool :=
  match bytes.reverse with
  | mark :: letter :: _ :: _ =>
    (mark == 58 || mark == 124) && (Char.ofNat letter.toNat).isAlpha
  | _ => false

/-- The path of a file URI. -/
def toPath (uri : Uri) : String :=
  let bytes := percentDecode (uri.text.toList.drop fileScheme.length)
  Text.decodeLossy ⟨(if endsInDrive bytes then bytes ++ [47] else bytes).toArray⟩

-- ---------------------------------------------------------------------------
-- Standard form
-- ---------------------------------------------------------------------------

def isSingleDot (piece : List Char) : Bool :=
  let text := (String.ofList piece).toLower
  text == "." || text == "%2e"

def isDoubleDot (piece : List Char) : Bool :=
  let text := (String.ofList piece).toLower
  text == ".." || text == ".%2e" || text == "%2e." || text == "%2e%2e"

/-- The pieces of a path without its dot pieces; `done` holds those before, the
nearest first. A dot piece at the end leaves an empty piece. -/
def removeDots (done : List (List Char)) : List (List Char) → List (List Char)
  | [] => done.reverse
  | piece :: rest =>
    if isDoubleDot piece then
      if rest.isEmpty then removeDots ([] :: done.drop 1) rest else removeDots (done.drop 1) rest
    else if isSingleDot piece then
      if rest.isEmpty then removeDots ([] :: done) rest else removeDots done rest
    else removeDots (piece :: done) rest

/-- The standard form of a file URI: characters encoded, dot pieces removed. Other
texts are left as they are. -/
def normalize (text : String) : Uri :=
  if text.startsWith "file:///" then
    let path := percentEncode isReserved (String.ofList (text.toList.drop 8))
    let pieces := removeDots [] (Path.pieces (path.map fun c => if c == '\\' then '/' else c))
    ⟨String.ofList ("file://".toList ++ pieces.flatMap fun piece => '/' :: piece)⟩
  else ⟨text⟩

end Uri

/-- Why a path has no URI. -/
inductive UriError where
  | emptyPath
deriving DecidableEq, Repr

/-- What was tried, and what was wrong. -/
def UriError.causes : UriError → List String
  | .emptyPath => ["resolving ", "cannot make an empty path absolute"]

/-- The names on the way from the root to `path`, which may be relative to `cwd`. -/
def absoluteNames (cwd path : String) : List String :=
  let c := Path.components path
  if c.absolute then c.names
  else
    let names := match c.names with
      | "." :: rest => rest
      | names => names
    (Path.components cwd).names ++ names

/-- The URI of the document at `path`. -/
def documentUri (cwd path : String) : Except UriError Uri :=
  if path.isEmpty then .error .emptyPath else .ok (.ofNames (absoluteNames cwd path))

end VerifierClient
