/-
Module: ShellGloss.Text.Blank
Purpose: The characters that separate words, and trimming by them.
Imports: ShellGloss.Text.Basic
Main exports:
  isBlank, isSpacing, trimWith, trim, isBlankText
-/
import ShellGloss.Text.Basic

namespace ShellGloss.Text

/-!
Two tables of separating characters.  `isBlank` is the wide one that splits a
command line and trims typed lines: it holds the information separators
U+001C to U+001F.  `isSpacing` is the property `White_Space` of the character
standard, which does not hold them; numbers written as text are trimmed by it.
The zero-width characters U+200B, U+2060 and U+FEFF are in neither.
-/

/-- The characters of the property `White_Space`. -/
def isSpacing (c : Glyph) : Bool :=
  let n := c.code
  (0x09 ≤ n && n ≤ 0x0D) || n == 0x20 || n == 0x85 || n == 0xA0 || n == 0x1680 ||
    (0x2000 ≤ n && n ≤ 0x200A) || n == 0x2028 || n == 0x2029 || n == 0x202F ||
    n == 0x205F || n == 0x3000

/-- The characters that separate words: spacing, and the four information
separators. -/
def isBlank (c : Glyph) : Bool :=
  isSpacing c || (0x1C ≤ c.code && c.code ≤ 0x1F)

/-- Drop the characters of a class from both ends. -/
def trimWith (drops : Glyph → Bool) (cs : List Glyph) : List Glyph :=
  ((cs.dropWhile drops).reverse.dropWhile drops).reverse

/-- A text without the blanks around it. -/
def trim (s : Text) : Text :=
  Text.ofList (trimWith isBlank s.toList)

/-- Nothing but blanks, or nothing at all. -/
def isBlankText (s : Text) : Bool :=
  s.toList.all isBlank

end ShellGloss.Text
