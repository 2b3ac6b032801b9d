/-!
# Blank characters

White space in the sense of the Unicode property `White_Space`, and the
trimming built on it. A byte order mark and the zero width space are not
white space, the next line control U+0085 and the line and paragraph
separators are.
-/

namespace VerifierClient.Text

/-- Characters with the Unicode property `White_Space`. -/
def isBlank (c : Char) : Bool :=
  let n := c.toNat
  (0x9 ≤ n && n ≤ 0xd) || n == 0x20 || n == 0x85 || n == 0xa0 || n == 0x1680 ||
    (0x2000 ≤ n && n ≤ 0x200a) || n == 0x2028 || n == 0x2029 || n == 0x202f ||
    n == 0x205f || n == 0x3000

/-- `chars` without the members of `p` at its end. -/
def dropEnd (p : Char → Bool) (chars : List Char) : List Char :=
  (chars.reverse.dropWhile p).reverse

/-- `text` without the white space at either end. -/
def trim (text : String) : String :=
  String.ofList (dropEnd isBlank (text.toList.dropWhile isBlank))

/-- Whether `text` holds nothing but white space. -/
def isBlankText (text : String) : Bool :=
  text.all isBlank

end VerifierClient.Text
