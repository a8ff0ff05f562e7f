/-!
# White space

The twenty-five characters with the Unicode property `White_Space`, and what it means to
trim a text or to strip it of them.
-/

namespace WideColumn.Text

/-- Does the character have the Unicode property `White_Space`? -/
def isWhiteSpace (c : Char) : Bool :=
  let n := c.toNat
  (9 ≤ n && n ≤ 13) || n = 0x20 || n = 0x85 || n = 0xA0 || n = 0x1680
    || (0x2000 ≤ n && n ≤ 0x200A) || n = 0x2028 || n = 0x2029 || n = 0x202F
    || n = 0x205F || n = 0x3000

/-- The text without white space at its ends. -/
def trim (s : List Char) : List Char :=
  ((s.dropWhile isWhiteSpace).reverse.dropWhile isWhiteSpace).reverse

/-- The text without its white space. -/
def withoutWhiteSpace (s : List Char) : List Char :=
  s.filter (!isWhiteSpace ·)

/-- The text with the ASCII capitals in lower case and all else as it is. -/
def lowerAscii (s : List Char) : List Char :=
  s.map Char.toLower

end WideColumn.Text
