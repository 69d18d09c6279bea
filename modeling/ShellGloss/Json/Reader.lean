/-
Module: ShellGloss.Json.Reader
Purpose: Reading JSON text, with the place and the kind of the first fault.
Imports: ShellGloss.Json.Basic, ShellGloss.Text.Hex
Main exports:
  Json.Limit, Json.Limit.message, Json.Fault, Json.Fault.message,
  Json.nestingLimit, Json.readWithin, Json.read
-/
import ShellGloss.Json.Basic
import ShellGloss.Text.Hex

namespace ShellGloss.Json

/-!
Every reading step takes the characters that are left and gives back those it
leaves.  A fault carries the characters from the place it was found on, so its
offset is the length of the text less theirs, and no step counts positions.

The dialect: blanks are space, tab, line feed and carriage return; `NaN`,
`Infinity` and `-Infinity` are numbers; of two members of one name the first
place and the last value stay; a whole number has at most 4300 digits; lists and
objects are nested no deeper than a limit that the caller sets.
-/

/-! ### Faults -/

/-- What is wrong at a place in the text. -/
inductive Complaint where
  | byteOrderMark
  | expectedValue
  | expectedName
  | expectedColon
  | expectedComma
  | extraData
  | unterminatedString
  | controlCharacter
  | badEscape
  | badUnicodeEscape
deriving Repr, Inhabited, DecidableEq

/-- The wording of a complaint. -/
def Complaint.message : Complaint → String
  | .byteOrderMark => "Unexpected UTF-8 BOM (decode using utf-8-sig)"
  | .expectedValue => "Expecting value"
  | .expectedName => "Expecting property name enclosed in double quotes"
  | .expectedColon => "Expecting ':' delimiter"
  | .expectedComma => "Expecting ',' delimiter"
  | .extraData => "Extra data"
  | .unterminatedString => "Unterminated string starting at"
  | .controlCharacter => "Invalid control character at"
  | .badEscape => "Invalid \\escape"
  | .badUnicodeEscape => "Invalid \\uXXXX escape"

/-- What holds other values. -/
inductive Container where
  | list
  | object
deriving Repr, Inhabited, DecidableEq

/-- A limit of the reader that a text goes beyond: the number of digits of a
whole number, or the nesting, with the container that would be one too deep. -/
inductive Limit where
  | digits (count : Nat)
  | nesting (container : Container)
deriving Repr, Inhabited, DecidableEq

/-- The wording of a limit. -/
def Limit.message : Limit → String
  | .digits count =>
      "Exceeds the limit (4300 digits) for integer string conversion: value has " ++
        toString count ++
        " digits; use sys.set_int_max_str_digits() to increase the limit"
  | .nesting container =>
      let name :=
        match container with
        | .list => "array"
        | .object => "object"
      "maximum recursion depth exceeded while decoding a JSON " ++ name ++
        " from a unicode string"

/-- Why a text is not read: it is malformed at a place, given by the characters
from there on, or it goes beyond a limit. -/
inductive Stop where
  | malformed (complaint : Complaint) (rest : List Char)
  | beyond (limit : Limit)
deriving Repr, Inhabited, DecidableEq

namespace Reading

/-- Stop at a place. -/
def stopAt {α : Type} (complaint : Complaint) (rest : List Char) : Except Stop α :=
  .error (.malformed complaint rest)

/-! ### Blanks and strings -/

/-- The blanks between the parts of a JSON text. -/
def isGap (c : Char) : Bool :=
  c == ' ' || c == '\t' || c == '\n' || c == '\r'

/-- Leave out leading blanks. -/
def skipGaps (cs : List Char) : List Char := cs.dropWhile isGap

/-- The value of four hexadecimal digits. -/
def hexUnit? (a b c d : Char) : Option Nat := do
  let a ← Text.hexValue? a
  let b ← Text.hexValue? b
  let c ← Text.hexValue? c
  let d ← Text.hexValue? d
  return ((a * 16 + b) * 16 + c) * 16 + d

/-- The character that a one-letter escape stands for. -/
def escaped? : Char → Option Char
  | '\x22' => some '\x22'
  | '\\' => some '\\'
  | '/' => some '/'
  | 'b' => some '\x08'
  | 'f' => some '\x0c'
  | 'n' => some '\n'
  | 'r' => some '\r'
  | 't' => some '\t'
  | _ => none

/-- One unit of a string's content: a character as such, or the number in a
hexadecimal escape, which may be half of a surrogate pair. -/
inductive StringUnit where
  | char (c : Char)
  | code (n : Nat)
deriving Repr, Inhabited, DecidableEq

/-- The glyphs of a string's content: two neighbouring escapes that are the halves
of a pair are one character. -/
def joinUnits : List StringUnit → List Glyph
  | [] => []
  | .char c :: rest => .char c :: joinUnits rest
  | .code n :: rest =>
      match rest with
      | .code m :: others =>
          if isHighHalf n && isLowHalf m then .ofHalves n m :: joinUnits others
          else .ofCode n :: joinUnits (.code m :: others)
      | others => .ofCode n :: joinUnits others

/-- The units of a string up to its closing quote.  `opening` is the text from
the opening quote on.  A hexadecimal escape is complete only if something
follows its four digits. -/
def stringUnits (opening : List Char) : List Char → Except Stop (List StringUnit × List Char)
  | [] => stopAt .unterminatedString opening
  | '\\' :: 'u' :: a :: b :: c :: d :: next :: rest =>
      match hexUnit? a b c d with
      | none => stopAt .badUnicodeEscape ('u' :: a :: b :: c :: d :: next :: rest)
      | some n => do
          let (units, left) ← stringUnits opening (next :: rest)
          return (.code n :: units, left)
  | '\\' :: 'u' :: rest => stopAt .badUnicodeEscape ('u' :: rest)
  | '\\' :: e :: rest =>
      match escaped? e with
      | none => stopAt .badEscape ('\\' :: e :: rest)
      | some c => do
          let (units, left) ← stringUnits opening rest
          return (.char c :: units, left)
  | ['\\'] => stopAt .unterminatedString opening
  | c :: rest =>
      if c = '\x22' then return ([], rest)
      else if c.toNat ≤ 0x1F then stopAt .controlCharacter (c :: rest)
      else do
        let (units, left) ← stringUnits opening rest
        return (.char c :: units, left)

/-- A string, its opening quote first. -/
def string (opening : List Char) (body : List Char) :
    Except Stop (Text × List Char) := do
  let (units, left) ← stringUnits opening body
  return (.ofList (joinUnits units), left)

/-! ### Numbers -/

/-- Greatest number of digits of a whole number. -/
def digitLimit : Nat := 4300

/-- The value of decimal digits, appended to a value in front of them. -/
def digitsValue (front : Nat) (digits : List Char) : Nat :=
  digits.foldl (fun value c => value * 10 + (c.toNat - '0'.toNat)) front

/-- The whole part of a number: one zero, or digits that do not start with
zero. -/
def wholeDigits? (cs : List Char) : Option (List Char × List Char) :=
  match cs with
  | '0' :: rest => some (['0'], rest)
  | c :: _ => if c.isDigit then some (cs.span Char.isDigit) else none
  | [] => none

/-- The digits behind a point, if a point and a digit come next. -/
def fractionDigits (cs : List Char) : List Char × List Char :=
  match cs with
  | '.' :: rest =>
      let (digits, left) := rest.span Char.isDigit
      if digits.isEmpty then ([], cs) else (digits, left)
  | _ => ([], cs)

/-- An exponent, if a mark, an optional sign and a digit come next. -/
def exponent? (cs : List Char) : Option (Int × List Char) :=
  match cs with
  | mark :: rest =>
      if mark == 'e' || mark == 'E' then
        let (negative, unsigned) :=
          match rest with
          | '-' :: more => (true, more)
          | '+' :: more => (false, more)
          | more => (false, more)
        let (digits, left) := unsigned.span Char.isDigit
        if digits.isEmpty then none
        else
          let size : Int := digitsValue 0 digits
          some (if negative then -size else size, left)
      else none
  | [] => none

/-- A number; its sign is already taken off.  `start` is the text from the sign
on. -/
def number (start : List Char) (negative : Bool) (cs : List Char) :
    Except Stop (Json × List Char) :=
  match wholeDigits? cs with
  | none => stopAt .expectedValue start
  | some (whole, afterWhole) =>
      let (fraction, afterFraction) := fractionDigits afterWhole
      let exponent := exponent? afterFraction
      if fraction.isEmpty && exponent.isNone then
        if digitLimit < whole.length then .error (.beyond (.digits whole.length))
        else
          let size : Int := digitsValue 0 whole
          .ok (.int (if negative then -size else size), afterWhole)
      else
        let digits := digitsValue 0 (whole ++ fraction)
        let (scale, left) := exponent.getD (0, afterFraction)
        .ok (.real (Decimal.Double.ofDecimal negative digits (scale - fraction.length)), left)

/-- A value that is neither a string nor a list nor an object. -/
def scalar (cs : List Char) : Except Stop (Json × List Char) :=
  match cs with
  | 'n' :: 'u' :: 'l' :: 'l' :: rest => .ok (.null, rest)
  | 't' :: 'r' :: 'u' :: 'e' :: rest => .ok (.bool true, rest)
  | 'f' :: 'a' :: 'l' :: 's' :: 'e' :: rest => .ok (.bool false, rest)
  | 'N' :: 'a' :: 'N' :: rest => .ok (.real .notANumber, rest)
  | 'I' :: 'n' :: 'f' :: 'i' :: 'n' :: 'i' :: 't' :: 'y' :: rest =>
      .ok (.real (.infinite false), rest)
  | '-' :: 'I' :: 'n' :: 'f' :: 'i' :: 'n' :: 'i' :: 't' :: 'y' :: rest =>
      .ok (.real (.infinite true), rest)
  | '-' :: rest => number cs true rest
  | _ => number cs false cs

/-! ### Values -/

mutual

/-- One value.  The first argument bounds the number of steps: a value is one,
and so is each item or member of it.  Every two steps take a character, so twice
the length of the text and one more is always enough.  The second argument is
how many containers may still be opened one inside the other. -/
def value : Nat → Nat → List Char → Except Stop (Json × List Char)
  | 0, _, cs => stopAt .expectedValue cs
  | steps + 1, levels, cs =>
      match cs, levels with
      | '\x22' :: rest, _ => do
          let (content, left) ← string cs rest
          return (.text content, left)
      | '[' :: _, 0 => .error (.beyond (.nesting .list))
      | '[' :: rest, levels + 1 =>
          match skipGaps rest with
          | ']' :: left => .ok (.array [], left)
          | first => do
              let (items, left) ← items steps levels first
              return (.array items, left)
      | '\x7b' :: _, 0 => .error (.beyond (.nesting .object))
      | '\x7b' :: rest, levels + 1 =>
          match skipGaps rest with
          | '\x7d' :: left => .ok (.object [], left)
          | first => do
              let (pairs, left) ← pairs steps levels first
              return (.object (Named.ofPairs pairs), left)
      | _, _ => scalar cs

/-- The items of a list up to its closing bracket. -/
def items : Nat → Nat → List Char → Except Stop (List Json × List Char)
  | 0, _, cs => stopAt .expectedValue cs
  | steps + 1, levels, cs => do
      let (item, left) ← value steps levels cs
      match skipGaps left with
      | ']' :: rest => return ([item], rest)
      | ',' :: rest => do
          let (others, left) ← items steps levels (skipGaps rest)
          return (item :: others, left)
      | rest => stopAt .expectedComma rest

/-- The members of an object up to its closing brace, as written. -/
def pairs : Nat → Nat → List Char →
    Except Stop (List (Text × Json) × List Char)
  | 0, _, cs => stopAt .expectedName cs
  | steps + 1, levels, cs =>
      match cs with
      | '\x22' :: rest => do
          let (name, left) ← string cs rest
          match skipGaps left with
          | ':' :: rest => do
              let (member, left) ← value steps levels (skipGaps rest)
              match skipGaps left with
              | '\x7d' :: rest => return ([(name, member)], rest)
              | ',' :: rest => do
                  let (others, left) ← pairs steps levels (skipGaps rest)
                  return ((name, member) :: others, left)
              | rest => stopAt .expectedComma rest
          | rest => stopAt .expectedColon rest
      | _ => stopAt .expectedName cs

end

/-- The value that a text is, with blanks allowed around it. -/
def document (levels : Nat) (cs : List Char) : Except Stop Json :=
  match cs with
  | '\uFEFF' :: _ => stopAt .byteOrderMark cs
  | _ => do
      let (result, left) ← value (2 * cs.length + 1) levels (skipGaps cs)
      match skipGaps left with
      | [] => return result
      | rest => stopAt .extraData rest

end Reading

/-! ### Places -/

/-- Why reading stopped, and where if the text is malformed, with the offset of
the place. -/
inductive Fault where
  | malformed (complaint : Complaint) (line column offset : Nat)
  | beyond (limit : Limit)
deriving Repr, Inhabited, DecidableEq

/-- The fault of a stop in a text.  Lines and columns count from one. -/
def Stop.toFault (cs : List Char) : Stop → Fault
  | .beyond limit => .beyond limit
  | .malformed complaint rest =>
      let offset := cs.length - rest.length
      let before := cs.take offset
      let column := (before.reverse.takeWhile (· != '\n')).length + 1
      .malformed complaint (before.count '\n' + 1) column offset

/-- The wording of a fault. -/
def Fault.message : Fault → String
  | .malformed complaint line column offset =>
      complaint.message ++ ": line " ++ toString line ++ " column " ++ toString column ++
        " (char " ++ toString offset ++ ")"
  | .beyond limit => limit.message

/-- Read a text whose containers are nested at most so many levels deep. -/
def readWithin (levels : Nat) (text : String) : Except Fault Json :=
  match Reading.document levels text.toList with
  | .ok result => .ok result
  | .error stop => .error (stop.toFault text.toList)

/-- How deep containers are nested at most. -/
def nestingLimit : Nat := 990

/-- Read a text. -/
def read (text : String) : Except Fault Json :=
  readWithin nestingLimit text

end ShellGloss.Json
