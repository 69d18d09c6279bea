/-
Module: ShellGloss.Style.Sgr
Purpose: Taking terminal styling out of a text.
Imports: ShellGloss.Text.Basic
Main exports:
  Sgr.Held, Sgr.strip, stripStyling
-/
import ShellGloss.Text.Basic

namespace ShellGloss

/-!
A styling sequence is an escape character, an opening bracket, any number of
digits and semicolons, and the letter `m`.  The text is passed once from left
to right.  Characters that may turn out to be the start of a sequence are held
back; a sequence that completes is dropped, and one that cannot complete is let
through as it stands.
-/

namespace Sgr

/-- The escape character that starts a sequence. -/
def escape : Glyph := '\x1b'

/-- The characters between the bracket and the final letter. -/
def isParameter (c : Glyph) : Bool := c.isDigit || c == ';'

/-- What is held back. -/
inductive Held where
  /-- Nothing. -/
  | nothing
  /-- An escape character. -/
  | escape
  /-- An escape character, a bracket and these parameters, last first. -/
  | opened (parameters : List Glyph)
deriving Repr, Inhabited, DecidableEq

/-- The characters that are held back. -/
def Held.chars : Held → List Glyph
  | .nothing => []
  | .escape => [Sgr.escape]
  | .opened parameters => Sgr.escape :: '[' :: parameters.reverse

/-- Whether a character goes on with what is held back. -/
def Held.next? (held : Held) (c : Glyph) : Option Held :=
  match held with
  | .nothing => none
  | .escape => if c = '[' then some (.opened []) else none
  | .opened parameters => if isParameter c then some (.opened (c :: parameters)) else none

/-- Whether a character completes a sequence. -/
def Held.completes (held : Held) (c : Glyph) : Bool :=
  match held with
  | .opened _ => c == 'm'
  | _ => false

/-- A text without its sequences, read from what is held back in front of it. -/
def strip (held : Held) : List Glyph → List Glyph
  | [] => held.chars
  | c :: rest =>
      if held.completes c then strip .nothing rest
      else
        match held.next? c with
        | some more => strip more rest
        | none =>
            if c = escape then held.chars ++ strip .escape rest
            else held.chars ++ c :: strip .nothing rest

end Sgr

/-- A text without its styling sequences. -/
def stripStyling (text : Text) : Text :=
  Text.ofList (Sgr.strip .nothing text.toList)

end ShellGloss
