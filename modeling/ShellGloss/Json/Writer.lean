/-
Module: ShellGloss.Json.Writer
Purpose: Writing JSON values as text, on one line.
Imports: ShellGloss.Decimal.Shortest, ShellGloss.Json.Basic, ShellGloss.Text.Hex
Main exports:
  Json.Style, Json.write
-/
import ShellGloss.Decimal.Shortest
import ShellGloss.Json.Basic
import ShellGloss.Text.Hex

namespace ShellGloss.Json

/-- How values are written: what stands between two items and behind a member
name, and whether characters beyond ASCII are written as escapes. -/
structure Style where
  itemGap : String
  nameGap : String
  asciiOnly : Bool
deriving Repr, Inhabited

/-- No blanks at all, and ASCII alone. -/
def Style.compact : Style := ⟨",", ":", true⟩

/-- A blank behind each comma and colon, and ASCII alone. -/
def Style.spaced : Style := ⟨", ", ": ", true⟩

/-- Doubles have the fewest digits that read back, positional from `0.0001` up
to seventeen digits before the point. -/
def doubleLayout : Decimal.Layout := ⟨-3, 16, "NaN", "Infinity"⟩

namespace Writing

/-- A number below `2 ^ 16` as an escape. -/
def unitEscape (n : Nat) : List Char :=
  '\\' :: 'u' :: Text.hexDigits 4 n

/-- A character as one escape, or as the two of a surrogate pair. -/
def charEscape (c : Char) : List Char :=
  let n := c.toNat
  if n < 0x10000 then unitEscape n
  else
    unitEscape (0xD800 + (n - 0x10000) / 0x400) ++
      unitEscape (0xDC00 + (n - 0x10000) % 0x400)

/-- A character inside a string. -/
def charText (asciiOnly : Bool) (c : Char) : List Char :=
  if c = '\x22' then ['\\', '\x22']
  else if c = '\\' then ['\\', '\\']
  else if c = '\n' then ['\\', 'n']
  else if c = '\r' then ['\\', 'r']
  else if c = '\t' then ['\\', 't']
  else if c = '\x0c' then ['\\', 'f']
  else if c = '\x08' then ['\\', 'b']
  else if c.toNat < 0x20 then charEscape c
  else if asciiOnly && 0x7F ≤ c.toNat then charEscape c
  else [c]

/-- A glyph inside a string: half of a pair can only be an escape. -/
def glyphText (asciiOnly : Bool) : Glyph → List Char
  | .char c => charText asciiOnly c
  | .half index => unitEscape (0xD800 + index)

/-- A string in double quotes. -/
def stringText (asciiOnly : Bool) (s : Text) : List Char :=
  '\x22' :: (s.toList.flatMap (glyphText asciiOnly) ++ ['\x22'])

mutual

/-- The text of a value. -/
def valueText (style : Style) : Json → List Char
  | .null => "null".toList
  | .bool true => "true".toList
  | .bool false => "false".toList
  | .int n => (toString n).toList
  | .real d => (doubleLayout.text d).toList
  | .text s => stringText style.asciiOnly s
  | .array items => '[' :: itemsText style items
  | .object members => '\x7b' :: membersText style members

/-- Items and the closing bracket. -/
def itemsText (style : Style) : List Json → List Char
  | [] => [']']
  | [item] => valueText style item ++ [']']
  | item :: next :: rest =>
      valueText style item ++ style.itemGap.toList ++ itemsText style (next :: rest)

/-- Members and the closing brace. -/
def membersText (style : Style) : List (Text × Json) → List Char
  | [] => ['\x7d']
  | [(name, item)] =>
      stringText style.asciiOnly name ++ style.nameGap.toList ++ valueText style item ++
        ['\x7d']
  | (name, item) :: next :: rest =>
      stringText style.asciiOnly name ++ style.nameGap.toList ++ valueText style item ++
        style.itemGap.toList ++ membersText style (next :: rest)

end

end Writing

/-- The text of a value in a style. -/
def write (style : Style) (value : Json) : String :=
  String.ofList (Writing.valueText style value)

end ShellGloss.Json
