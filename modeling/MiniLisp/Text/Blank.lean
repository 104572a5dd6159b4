/-
  MiniLisp.Text.Blank

  The characters that separate tokens and that are trimmed off settings: the
  white space of Unicode together with the four information separators
  U+001C to U+001F. `trim` cuts them from both ends of a text.
-/
import MiniLisp.Text

namespace MiniLisp.Text

/-- White space: a character that never belongs to a word of the language. -/
def isBlank (c : CodePoint) : Bool :=
  let n := c.toNat
  (9 ≤ n && n ≤ 13) || (28 ≤ n && n ≤ 32) || n == 0x85 || n == 0xa0 || n == 0x1680 ||
    (0x2000 ≤ n && n ≤ 0x200a) || n == 0x2028 || n == 0x2029 || n == 0x202f || n == 0x205f ||
    n == 0x3000

/-- The text without the blanks at its two ends. -/
def trim (cs : List CodePoint) : List CodePoint :=
  ((cs.dropWhile isBlank).reverse.dropWhile isBlank).reverse

end MiniLisp.Text
