/-
Module: ShellGloss.Lexeme
Purpose: The words and control operators of a command line, with their places.
Imports: ShellGloss.Text.Blank
Main exports:
  Lexeme, LexError, Lexeme.Scan.step, Lexeme.Scan.finish, lexemes
-/
import ShellGloss.Text.Blank

namespace ShellGloss

/-!
A command line is read one character at a time.  The scanner's state says what
the characters so far leave open: nothing, an operator that the next character
may double, or a word together with the quoting it stands in.  A character
never fails; only the end of the line can, when it comes inside a quote or
right behind an escape.

Operators are the longest of `&&`, `||`, `;`, `&` and `|`.  Inside a word `<&`
and `>&` belong together, so that `2>&1` is one word.  A backslash takes the
next character with it, except between single quotes.
-/

/-- A word or a control operator, with the offset of its first character. -/
structure Lexeme where
  text : Text
  start : Nat
  control : Bool
deriving Repr, Inhabited, DecidableEq

/-- The offset behind the last character. -/
def Lexeme.stop (lexeme : Lexeme) : Nat := lexeme.start + lexeme.text.length

/-- The same lexeme further to the right. -/
def Lexeme.shift (distance : Nat) (lexeme : Lexeme) : Lexeme :=
  { lexeme with start := lexeme.start + distance }

/-- Why a line has no lexemes: a quote that is never closed, at the opening
quote, or an escape with nothing behind it, at the backslash. -/
inductive LexError where
  | unterminatedQuote (offset : Nat)
  | trailingEscape (offset : Nat)
deriving Repr, Inhabited, DecidableEq

namespace LexError

/-- Where the error is reported. -/
def offset : LexError → Nat
  | .unterminatedQuote offset | .trailingEscape offset => offset

/-- The error's wording without its place. -/
def wording : LexError → Text
  | .unterminatedQuote _ => "Unterminated quote"
  | .trailingEscape _ => "Trailing escape character"

/-- The error's wording. -/
def message (error : LexError) : Text :=
  error.wording ++ " (at offset " ++ toString error.offset ++ ")"

/-- The same error further to the right. -/
def shift (distance : Nat) : LexError → LexError
  | .unterminatedQuote offset => .unterminatedQuote (offset + distance)
  | .trailingEscape offset => .trailingEscape (offset + distance)

end LexError

namespace Lexeme.Scan

/-- What the last character of a word leaves open. -/
inductive Mode where
  /-- Nothing. -/
  | plain
  /-- The last character redirects, so a following `&` belongs to the word. -/
  | redirect
  /-- A backslash, at this offset, that takes the next character. -/
  | escaped (offset : Nat)
  /-- A single quote opened at this offset. -/
  | single (opened : Nat)
  /-- A double quote opened at this offset. -/
  | double (opened : Nat)
  /-- A backslash inside a double quote opened at this offset. -/
  | doubleEscaped (opened : Nat)
deriving Repr, Inhabited, DecidableEq

/-- What the characters so far leave open. -/
inductive State where
  /-- Nothing. -/
  | between
  /-- The operator character `mark` at `start`, which may be doubled. -/
  | operator (mark : Glyph) (start : Nat)
  /-- A word from `start` on, its characters last first. -/
  | word (start : Nat) (read : List Glyph) (mode : Mode)
deriving Repr, Inhabited, DecidableEq

/-- The characters that control operators are made of. -/
def isControl (c : Glyph) : Bool := c == '&' || c == '|' || c == ';'

/-- A word from its characters, last first. -/
def wordOf (start : Nat) (read : List Glyph) : Lexeme :=
  ⟨Text.ofList read.reverse, start, false⟩

/-- An operator from its characters. -/
def operatorOf (start : Nat) (marks : List Glyph) : Lexeme :=
  ⟨Text.ofList marks, start, true⟩

/-- The mode of a word behind the unquoted character `c` at `offset`. -/
def modeAfter (offset : Nat) (c : Glyph) : Mode :=
  if c = '\\' then .escaped offset
  else if c = '\x27' then .single offset
  else if c = '\x22' then .double offset
  else if c = '<' ∨ c = '>' then .redirect
  else .plain

/-- Read a character with nothing open. -/
def enter (offset : Nat) (c : Glyph) : List Lexeme × State :=
  if Text.isBlank c then ([], .between)
  else if c = ';' then ([operatorOf offset [c]], .between)
  else if isControl c then ([], .operator c offset)
  else ([], .word offset [c] (modeAfter offset c))

/-- Read a character inside a word, outside quotes: blanks and operators end the
word, anything else goes on. -/
def extend (offset : Nat) (start : Nat) (read : List Glyph) (c : Glyph) :
    List Lexeme × State :=
  if Text.isBlank c || isControl c then
    let (out, next) := enter offset c
    (wordOf start read :: out, next)
  else
    ([], .word start (c :: read) (modeAfter offset c))

/-- Read one character: the lexemes it completes and the state behind it. -/
def step (offset : Nat) : State → Glyph → List Lexeme × State
  | .between, c => enter offset c
  | .operator mark start, c =>
      if c = mark then ([operatorOf start [mark, mark]], .between)
      else
        let (out, next) := enter offset c
        (operatorOf start [mark] :: out, next)
  | .word start read mode, c =>
      match mode with
      | .plain => extend offset start read c
      | .redirect =>
          if c = '&' then ([], .word start (c :: read) .plain)
          else extend offset start read c
      | .escaped _ => ([], .word start (c :: read) .plain)
      | .single opened =>
          ([], .word start (c :: read) (if c = '\x27' then .plain else .single opened))
      | .double opened =>
          ([], .word start (c :: read)
            (if c = '\x22' then .plain
             else if c = '\\' then .doubleEscaped opened
             else .double opened))
      | .doubleEscaped opened => ([], .word start (c :: read) (.double opened))

/-- What the end of the line makes of an open state. -/
def finish : State → Except LexError (List Lexeme)
  | .between => .ok []
  | .operator mark start => .ok [operatorOf start [mark]]
  | .word start read mode =>
      match mode with
      | .plain | .redirect => .ok [wordOf start read]
      | .escaped offset => .error (.trailingEscape offset)
      | .single opened | .double opened | .doubleEscaped opened =>
          .error (.unterminatedQuote opened)

/-- The lexemes of the characters from `offset` on, read from a state. -/
def run (offset : Nat) (state : State) : List Glyph → Except LexError (List Lexeme)
  | [] => finish state
  | c :: rest =>
      let (out, next) := step offset state c
      match run (offset + 1) next rest with
      | .ok others => .ok (out ++ others)
      | .error error => .error error

end Lexeme.Scan

/-- The lexemes of a command line. -/
def lexemes (query : Text) : Except LexError (List Lexeme) :=
  Lexeme.Scan.run 0 .between query.toList

end ShellGloss
