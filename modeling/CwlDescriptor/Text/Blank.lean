set_option autoImplicit false

/-!
# Blank characters and line breaks

The two classes of characters that separate pieces of text, and trimming by the first of them.

## Main definitions

* `Text.isBlank`: the blank characters of the Unicode standard.
* `Text.isNumberBlank`: the blank characters that may surround a number.
* `Text.trim`: a text without the characters of a class at both ends.
-/

namespace CwlDescriptor.Text

/-- A character is blank if it is a space, a tab, or one of the separators of the Unicode standard
(file, group, record and unit separators, and the line and paragraph separators included). -/
def isBlank (c : Char) : Bool :=
  let n := c.toNat
  (9 ≤ n && n ≤ 13) || (28 ≤ n && n ≤ 32) || n == 0x85 || n == 0xa0 || n == 0x1680 ||
    (0x2000 ≤ n && n ≤ 0x200a) || n == 0x2028 || n == 0x2029 || n == 0x202f || n == 0x205f ||
    n == 0x3000

/-- A blank may surround a number unless it is one of the four information separators. -/
def isNumberBlank (c : Char) : Bool :=
  isBlank c && !(28 ≤ c.toNat && c.toNat ≤ 31)

/-- The text without the characters satisfying `p` at its two ends. -/
def trim (p : Char → Bool) (s : List Char) : List Char :=
  ((s.dropWhile p).reverse.dropWhile p).reverse

/-- A text is empty or consists of blanks only. -/
def isBlankText (s : String) : Bool :=
  s.toList.all isBlank

end CwlDescriptor.Text
