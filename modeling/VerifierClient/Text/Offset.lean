import VerifierClient.Position

/-!
# Byte offsets

A document's text is a list of characters; an offset counts the bytes of its
UTF-8 encoding. This module finds the first difference of two texts and maps
offsets to positions and back.

* `firstDifference` — the length in bytes of the longest common beginning,
  `none` for equal texts;
* `positionAt`, `offsetAt` — an offset that is past the end stands for the end,
  one inside a character for the character's end; a position past the end of
  its line stands for that line's end.
-/

namespace VerifierClient.Text

/-- Bytes of the UTF-8 encoding of `chars`. -/
def byteLength : List Char → Nat
  | [] => 0
  | c :: rest => c.utf8Size + byteLength rest

/-- The offset at which two texts part. -/
def firstDifference : List Char → List Char → Option Nat
  | [], [] => none
  | [], _ :: _ => some 0
  | _ :: _, [] => some 0
  | a :: old, b :: new =>
    if a = b then (firstDifference old new).map (a.utf8Size + ·) else some 0

/-- The position reached from `p` by reading as many characters of the text as
start before `offset`. -/
def positionFrom (p : Position) : List Char → Nat → Position
  | [], _ => p
  | c :: rest, offset =>
    if offset = 0 then p else positionFrom (p.advance c) rest (offset - c.utf8Size)

/-- The position of a byte offset. -/
def positionAt (chars : List Char) (offset : Nat) : Position := positionFrom .zero chars offset

/-- Bytes to read, from `p` on, before `target` or the end of its line. -/
def offsetFrom (p target : Position) : List Char → Nat
  | [] => 0
  | c :: rest =>
    if p.line = target.line ∧ (p.character = target.character ∨ c = '\n') then 0
    else c.utf8Size + offsetFrom (p.advance c) target rest

/-- The byte offset of a position. -/
def offsetAt (chars : List Char) (target : Position) : Nat := offsetFrom .zero target chars

/-- The two parts of a text around an offset, `none` when the offset is not at
the edge of a character. -/
def splitAt? : List Char → Nat → Option (List Char × List Char)
  | chars, 0 => some ([], chars)
  | [], _ + 1 => none
  | c :: rest, offset + 1 =>
    if c.utf8Size ≤ offset + 1 then
      (splitAt? rest (offset + 1 - c.utf8Size)).map fun (before, after) => (c :: before, after)
    else none

/-- Where an edit that turned `old` into `new` begins. -/
def editPosition (old new : String) : Option Position :=
  (firstDifference old.toList new.toList).map (positionAt old.toList)

end VerifierClient.Text
