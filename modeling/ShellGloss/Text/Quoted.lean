/-
Module: ShellGloss.Text.Quoted
Purpose: Texts and bytes as quoted literals in which nothing is hidden.
Imports: ShellGloss.Text.Basic, ShellGloss.Text.Hex,
  ShellGloss.Text.Printable
Main exports:
  quoted, quotedBytes
-/
import ShellGloss.Text.Basic
import ShellGloss.Text.Hex
import ShellGloss.Text.Printable

namespace ShellGloss.Text

/-- The quote around a content: single, unless the content holds a single quote
and no double one. -/
def quoteFor (content : List Glyph) : Char :=
  if content.contains '\x27' && !content.contains '\x22' then '\x22' else '\x27'

/-- What is hidden as an escape, as short as its number allows. -/
def hiddenEscape (n : Nat) : List Char :=
  if n < 0x100 then '\\' :: 'x' :: hexDigits 2 n
  else if n < 0x10000 then '\\' :: 'u' :: hexDigits 4 n
  else '\\' :: 'U' :: hexDigits 8 n

/-- A character between the quotes: the backslash, the quote in use and the
common line controls have short escapes. -/
def quotedChar (quote c : Char) : List Char :=
  if c = quote || c = '\\' then ['\\', c]
  else if c = '\n' then ['\\', 'n']
  else if c = '\r' then ['\\', 'r']
  else if c = '\t' then ['\\', 't']
  else if isPrintable c then [c]
  else hiddenEscape c.toNat

/-- A glyph between the quotes: half of a pair is hidden. -/
def quotedGlyph (quote : Char) : Glyph → List Char
  | .char c => quotedChar quote c
  | .half index => hiddenEscape (0xD800 + index)

/-- A text as a quoted literal, which holds characters only. -/
def quoted (s : Text) : String :=
  let quote := quoteFor s.toList
  String.ofList (quote :: (s.toList.flatMap (quotedGlyph quote) ++ [quote]))

/-- A byte between the quotes: plain ASCII stands as itself, all else is
escaped. -/
def quotedByte (quote : Char) (b : UInt8) : List Char :=
  let n := b.toNat
  if n < 0x80 then quotedChar quote (Char.ofNat n) else '\\' :: 'x' :: hexDigits 2 n

/-- Bytes as a quoted literal, marked by a leading `b`. -/
def quotedBytes (bytes : List UInt8) : String :=
  let quote := quoteFor (bytes.map fun b => .char (Char.ofNat b.toNat))
  String.ofList ('b' :: quote :: (bytes.flatMap (quotedByte quote) ++ [quote]))

end ShellGloss.Text
