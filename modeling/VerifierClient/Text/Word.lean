import VerifierClient.Text.Alphanumeric
import VerifierClient.Text.Offset

/-!
# The identifier at the cursor

An identifier is a run of letters, numbers, underscores, primes and dots; the
dots join the parts of a qualified name and do not count at its ends. Which
characters are letters and numbers is a parameter of the definitions, fixed to
`isAlphanumeric` in `wordAt` and `wordPrefixAt`.
-/

namespace VerifierClient.Text

/-- Identifier characters, given the letters and numbers. -/
def isIdentChar (alnum : Char → Bool) (c : Char) : Bool :=
  alnum c || c == '_' || c == '\'' || c == '.'

/-- The longest run of members of `p` at the end of `chars`. -/
def runBefore (p : Char → Bool) (chars : List Char) : List Char :=
  (chars.reverse.takeWhile p).reverse

/-- `chars` without the dots at its start and at its end. -/
def trimDots (chars : List Char) : List Char :=
  ((chars.dropWhile (· == '.')).reverse.dropWhile (· == '.')).reverse

/-- The identifier that `pos` lies in or touches, with the range it spans. -/
def wordAtWith (alnum : Char → Bool) (chars : List Char) (pos : Position) :
    Option (List Char × Range) := do
  let offset := offsetAt chars pos
  let (before, after) ← splitAt? chars offset
  let head := runBefore (isIdentChar alnum) before
  let tail := after.takeWhile (isIdentChar alnum)
  let word := trimDots (head ++ tail)
  let leading := (head ++ tail).takeWhile (· == '.')
  if word.isEmpty then none
  else
    let start := offset - byteLength head + byteLength leading
    some (word, ⟨positionAt chars start, positionAt chars (start + byteLength word)⟩)

/-- The part of an identifier that stands right before `pos`. -/
def wordPrefixAtWith (alnum : Char → Bool) (chars : List Char) (pos : Position) :
    Option (List Char) := do
  let (before, _) ← splitAt? chars (offsetAt chars pos)
  let head := runBefore (isIdentChar alnum) before
  if head.isEmpty then none else some head

/-- The identifier at a position of `text`, with its range. -/
def wordAt (text : String) (pos : Position) : Option (String × Range) :=
  (wordAtWith isAlphanumeric text.toList pos).map fun (word, range) => (String.ofList word, range)

/-- The unfinished identifier before a position of `text`. -/
def wordPrefixAt (text : String) (pos : Position) : Option String :=
  (wordPrefixAtWith isAlphanumeric text.toList pos).map String.ofList

end VerifierClient.Text
