/-!
# Decoding with replacement

Bytes that are not well-formed UTF-8 are replaced: each longest beginning of a
well-formed sequence that is cut short, and each byte that cannot start one,
becomes one replacement character.

* `decodeLossy` — the text of any bytes.
-/

namespace VerifierClient.Text

/-- Stands for bytes that encode no character. -/
def replacementChar : Char := '�'

/-- The byte at index `i`; past the end a zero, which continues no sequence. -/
def byteAt (bytes : ByteArray) (i : Nat) : Nat :=
  if h : i < bytes.size then bytes[i].toNat else 0

/-- Whether `b` continues a sequence. -/
def isContinuation (b : Nat) : Bool := 0x80 ≤ b && b ≤ 0xbf

/-- Which bytes may follow the first byte of a sequence of three or four. -/
def isSecond (first b : Nat) : Bool :=
  if first = 0xe0 then 0xa0 ≤ b && b ≤ 0xbf
  else if first = 0xed then 0x80 ≤ b && b ≤ 0x9f
  else if first = 0xf0 then 0x90 ≤ b && b ≤ 0xbf
  else if first = 0xf4 then 0x80 ≤ b && b ≤ 0x8f
  else isContinuation b

/-- The character at index `i`, and the number of bytes it takes less one. -/
def charAt (bytes : ByteArray) (i : Nat) : Char × Nat :=
  let first := byteAt bytes i
  let second := byteAt bytes (i + 1)
  let third := byteAt bytes (i + 2)
  let fourth := byteAt bytes (i + 3)
  if first < 0x80 then (Char.ofNat first, 0)
  else if 0xc2 ≤ first && first ≤ 0xdf then
    if isContinuation second then (Char.ofNat ((first - 0xc0) * 0x40 + (second - 0x80)), 1)
    else (replacementChar, 0)
  else if 0xe0 ≤ first && first ≤ 0xef then
    if !isSecond first second then (replacementChar, 0)
    else if !isContinuation third then (replacementChar, 1)
    else
      (Char.ofNat (((first - 0xe0) * 0x40 + (second - 0x80)) * 0x40 + (third - 0x80)), 2)
  else if 0xf0 ≤ first && first ≤ 0xf4 then
    if !isSecond first second then (replacementChar, 0)
    else if !isContinuation third then (replacementChar, 1)
    else if !isContinuation fourth then (replacementChar, 2)
    else
      (Char.ofNat ((((first - 0xf0) * 0x40 + (second - 0x80)) * 0x40 + (third - 0x80)) * 0x40 +
        (fourth - 0x80)), 3)
  else (replacementChar, 0)

/-- Appends the characters from index `i` on to `decoded`. -/
def decodeFrom (bytes : ByteArray) (i : Nat) (decoded : String) : String :=
  if i < bytes.size then
    let (c, more) := charAt bytes i
    decodeFrom bytes (i + more + 1) (decoded.push c)
  else decoded
termination_by bytes.size - i

/-- The text of a sequence of bytes. -/
def decodeLossy (bytes : ByteArray) : String :=
  match String.fromUTF8? bytes with
  | some text => text
  | none => decodeFrom bytes 0 ""

end VerifierClient.Text
