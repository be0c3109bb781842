/-!
# Blanks

Two classes of blank characters. `isBlank` is the Unicode one, which separates tokens and is
trimmed from settings; `isAsciiBlank` is the one allowed around a number held in a text.
-/

namespace Reckon

namespace Text

/-- Space, tab, line feed, vertical tab, form feed and carriage return. -/
def isAsciiBlank (c : Char) : Bool := c.val == 0x20 || (0x09 ≤ c.val && c.val ≤ 0x0d)

/-- A blank of Unicode: the ASCII blanks, the four information separators, next line, and the
separators of the classes Zs, Zl and Zp. -/
def isBlank (c : Char) : Bool :=
  isAsciiBlank c
    || (0x1c ≤ c.val && c.val ≤ 0x1f)
    || c.val == 0x85 || c.val == 0xa0 || c.val == 0x1680
    || (0x2000 ≤ c.val && c.val ≤ 0x200a)
    || c.val == 0x2028 || c.val == 0x2029 || c.val == 0x202f || c.val == 0x205f
    || c.val == 0x3000

/-- The characters left when those in a class are dropped from both ends. -/
def trim (blank : Char → Bool) (cs : List Char) : List Char :=
  ((cs.dropWhile blank).reverse.dropWhile blank).reverse

/-- A text without the blanks at its two ends. -/
def trimBlanks (s : String) : String := String.ofList (trim isBlank s.toList)

end Text

end Reckon
