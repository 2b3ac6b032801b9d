import VerifierClient.Text.Blank
import VerifierClient.Text.Utf8

/-!
# Reading lines

Messages are lines. Bytes arrive in pieces of any size; the reader collects them
and gives out a line at each line feed. A line longer than the limit is skipped
up to its line feed and never held, a blank line is passed over, and bytes that
are not UTF-8 are replaced.

* `LineReader.push`, `LineReader.feed` — what one byte, and a piece, does;
* `LineReader.finish` — what the end of the input does: a last line without a
  line feed counts.
-/

namespace VerifierClient

/-- The longest line that is read: 64 MiB. -/
def maxLineBytes : Nat := 64 * 1024 * 1024

/-- What has been read of the current line, and the lines read before it. -/
structure LineReader where
  limit : Nat := maxLineBytes
  held : ByteArray := .empty
  skipping : Bool := false
  lines : Array String := #[]

namespace LineReader

def isLineEnd (c : Char) : Bool := c == '\n' || c == '\r'

/-- The text of a line's bytes without the carriage returns at its end; `none`
for a blank line. -/
def lineText? (bytes : ByteArray) : Option String :=
  let text := ((Text.decodeLossy bytes).dropEndWhile isLineEnd).copy
  if Text.isBlankText text then none else some text

/-- Ends the current line. -/
def endLine (r : LineReader) : LineReader :=
  if r.skipping then { r with skipping := false, held := .empty }
  else
    match lineText? r.held with
    | some text => { r with held := .empty, lines := r.lines.push text }
    | none => { r with held := .empty }

/-- Takes one byte. -/
def push (r : LineReader) (b : UInt8) : LineReader :=
  if b = 10 then r.endLine
  else if r.skipping then r
  else if r.held.size < r.limit then { r with held := r.held.push b }
  else { r with skipping := true, held := .empty }

/-- Takes the bytes from index `i` on. -/
def feedFrom (bytes : ByteArray) (i : Nat) (r : LineReader) : LineReader :=
  if h : i < bytes.size then feedFrom bytes (i + 1) (r.push bytes[i]) else r
termination_by bytes.size - i

/-- Takes a piece of the input. -/
def feed (r : LineReader) (bytes : ByteArray) : LineReader := feedFrom bytes 0 r

/-- Takes the end of the input. -/
def finish (r : LineReader) : LineReader := r.endLine

/-- Hands out the lines read so far. -/
def takeLines (r : LineReader) : List String × LineReader :=
  (r.lines.toList, { r with lines := #[] })

end LineReader

/-- The lines of an input that arrives in the given pieces. -/
def readLines (limit : Nat) (pieces : List ByteArray) : List String :=
  (pieces.foldl LineReader.feed { limit }).finish.lines.toList

end VerifierClient
