/-
Module: ShellGloss.Terminal
Purpose: What the program puts on the screen.
Imports: ShellGloss.Gloss, ShellGloss.Highlight, ShellGloss.Line
Main exports:
  Output, Screen, Screen.promptText, Screen.bannerText, Screen.render
-/
import ShellGloss.Gloss
import ShellGloss.Highlight
import ShellGloss.Line

namespace ShellGloss

/-- Text for the two output streams. -/
structure Output where
  out : Text := ""
  err : Text := ""
deriving Repr, Inhabited, DecidableEq

namespace Output

/-- Nothing. -/
def none : Output := {}

/-- One output after another, on each stream. -/
def andThen (first second : Output) : Output :=
  ⟨first.out ++ second.out, first.err ++ second.err⟩

instance : Append Output := ⟨andThen⟩

/-- A text as it stands. -/
def block (text : Text) : Output := { out := text }

/-- Lines; without any, one blank line. -/
def lines (list : List Text) : Output :=
  if list.isEmpty then block "\n" else block (Text.concat (list.map (· ++ "\n")))

/-- A blank line. -/
def blankLine : Output := lines []

/-- An error message. -/
def error (message : Text) : Output := { err := "ERROR: " ++ message ++ "\n" }

end Output

/-- The lines a session opens with. -/
def standardBanner : List Text :=
  ["cmdexplain - read a shell command piece by piece", "Type 'exit' or 'quit' to leave."]

/-- The mark that prompts start with. -/
def standardMark : Text := "💡"

/-- How a session looks: its styles, the mark of its prompts and its banner. -/
structure Screen where
  painter : Painter := {}
  mark : Text := standardMark
  banner : List Text := standardBanner

namespace Screen

/-- The text of a prompt; an empty mark leaves no blank in front of it. -/
def promptText (screen : Screen) : Text :=
  let message := "Explain a command: "
  if screen.mark.isEmpty then message else screen.mark ++ " " ++ message

/-- The banner and a blank line. -/
def bannerText (screen : Screen) : Output :=
  .block (Text.concat (screen.banner.map (· ++ "\n")) ++ "\n")

/-- Said when a query has no groups. -/
def noResult : Output := .error "No result"

/-- A response: the query with its parts styled and the help for them, between
blank lines. -/
def render (screen : Screen) (query : Text) (groups : Option (List (List Leaf))) : Output :=
  match groups with
  | none | some [] => .blankLine ++ noResult ++ .blankLine
  | some groups =>
      .blankLine ++ .lines ["  " ++ highlight screen.painter query groups] ++ .blankLine ++
        .block (helpText screen.painter groups) ++ .blankLine

/-- A response as it was read. -/
def renderResponse (screen : Screen) (response : Response) : Output :=
  screen.render response.query (response.groups.map Leaf.ofGroups)

end Screen

end ShellGloss
