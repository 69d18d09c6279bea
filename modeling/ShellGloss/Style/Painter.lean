/-
Module: ShellGloss.Style.Painter
Purpose: Styling texts by the kind of node they belong to.
Imports: ShellGloss.Node.Basic
Main exports:
  Palette, Palette.standard, Painter, Painter.paint, Painter.paintLeaf
-/
import ShellGloss.Node.Basic

namespace ShellGloss

/-- The style of each kind, as the text that switches it on; the empty text is
no style. -/
abbrev Palette := Kind → Text

namespace Palette

/-- Everything off again. -/
def reset : Text := "\x1b[0m"

/-- Bright, or bold, letters. -/
def bright : Text := "\x1b[1m"

/-- The standard styles. -/
def standard : Palette
  | .program => bright ++ "\x1b[32m"
  | .subcommand => bright ++ "\x1b[36m"
  | .sudo => bright ++ "\x1b[31m"
  | .option | .stickyOption => "\x1b[33m"
  | .assignment => "\x1b[35m"
  | .argument => "\x1b[34m"
  | .operator => bright ++ "\x1b[37m"
  | .pipe => bright ++ "\x1b[35m"

/-- The palette of some styles by the names of their kinds, or the first name
that is no kind's.  A kind without a style has none; of two styles the later
counts. -/
def ofNames : List (Text × Text) → Except Text Palette
  | [] => .ok fun _ => ""
  | (name, style) :: rest =>
      match Kind.ofName? name with
      | none => .error name
      | some kind =>
          match ofNames rest with
          | .error other => .error other
          | .ok later =>
              let named := rest.any (·.1 == name)
              .ok fun k => if k = kind ∧ !named then style else later k

end Palette

/-- Styles, and whether they are used at all. -/
structure Painter where
  palette : Palette := Palette.standard
  enabled : Bool := true

namespace Painter

/-- No styling. -/
def off : Painter := { enabled := false }

/-- A text in the style of a kind.  It stands as it is when styling is off, when
there is nothing to style and when the kind has no style. -/
def paint (painter : Painter) (kind : Kind) (text : Text) : Text :=
  let style := painter.palette kind
  if !painter.enabled || text.isEmpty || style.isEmpty then text
  else style ++ text ++ Palette.reset

/-- A text in the style of a leaf; strays have none. -/
def paintLeaf (painter : Painter) (text : Text) : Leaf → Text
  | .known node => painter.paint node.kind text
  | .stray => text

end Painter

end ShellGloss
