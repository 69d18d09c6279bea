/-
Module: ShellGloss.Json.Display
Purpose: JSON values as they are shown to a reader of the log.
Imports: ShellGloss.Decimal.Shortest, ShellGloss.Json.Basic,
  ShellGloss.Text.Quoted, ShellGloss.Text.Slice
Main exports:
  Json.literal, Json.display
-/
import ShellGloss.Decimal.Shortest
import ShellGloss.Json.Basic
import ShellGloss.Text.Quoted
import ShellGloss.Text.Slice

namespace ShellGloss.Json

/-- Shown doubles have the digits of written ones, with words of their own for
what is not a finite number. -/
def shownLayout : Decimal.Layout := ⟨-3, 16, "nan", "inf"⟩

mutual

/-- A value as a literal: texts are quoted, so nested values keep their
boundaries. -/
def literal : Json → Text
  | .null => "None"
  | .bool true => "True"
  | .bool false => "False"
  | .int n => toString n
  | .real d => shownLayout.text d
  | .text s => Text.quoted s
  | .array items => "[" ++ Text.joinWith ", " (literals items) ++ "]"
  | .object members => "\x7b" ++ Text.joinWith ", " (memberLiterals members) ++ "\x7d"

/-- The literals of a list of values. -/
def literals : List Json → List Text
  | [] => []
  | item :: rest => literal item :: literals rest

/-- The literals of members, name and value joined by a colon. -/
def memberLiterals : List (Text × Json) → List Text
  | [] => []
  | (name, item) :: rest => (Text.quoted name ++ ": " ++ literal item) :: memberLiterals rest

end

/-- A value as shown by itself: a text stands bare, all else is a literal. -/
def display : Json → Text
  | .text s => s
  | other => literal other

@[simp] theorem display_text (s : Text) : display (.text s) = s := rfl

end ShellGloss.Json
