/-
Module: ShellGloss.Gloss
Purpose: What is said about each part of a command line, and the lines it is
  said in.
Imports: ShellGloss.Style.Painter, ShellGloss.Text.Slice
Main exports:
  Gloss, optionLabel, Gloss.of, glosses, Gloss.line, helpText
-/
import ShellGloss.Style.Painter
import ShellGloss.Text.Slice

namespace ShellGloss

/-- A part's label and what is said about it.  Of operators without a known
meaning nothing is said. -/
structure Gloss where
  kind : Kind
  label : Text
  text : Option Text
deriving Repr, Inhabited, DecidableEq

/-- What stands between two aliases. -/
def aliasGap : Text := ", "

/-- The aliases of a group, or no label when it is missing or empty. -/
def groupLabel? (group : Option (List Text)) : Option Text :=
  match group with
  | none | some [] => none
  | some aliases => some (Text.joinWith aliasGap aliases)

/-- The short aliases, then the long ones. -/
def optionLabel (info : OptionInfo) : Text :=
  Text.joinWith aliasGap ([info.short, info.long].filterMap groupLabel?)

/-- What is said about a control operator. -/
def operatorText? (operator : Text) : Option Text :=
  if operator = "&&" then
    some "command2 is executed if, and only if, command1 returns an exit status of zero"
  else if operator = "||" then
    some "command2 is executed if and only if command1 returns a non-zero exit status"
  else none

/-- What is said about a node. -/
def Gloss.of (node : Node) : Gloss :=
  match node.content with
  | .program info => ⟨.program, info.name, some info.summary⟩
  | .subcommand info => ⟨.subcommand, info.name, some info.summary⟩
  | .sudo info => ⟨.sudo, "sudo", some info.summary⟩
  | .option info => ⟨.option, optionLabel info, some info.summary⟩
  | .stickyOption info => ⟨.stickyOption, optionLabel info, some info.summary⟩
  | .assignment word =>
      ⟨.assignment, word, some "A variable passed to the program process"⟩
  | .argument word => ⟨.argument, word, some "an argument"⟩
  | .pipe text =>
      ⟨.pipe, text,
        some "A pipe connects the STDOUT of the first process to the STDIN of the second"⟩
  | .operator text => ⟨.operator, text, operatorText? text⟩

/-- What is said about a leaf; about strays nothing can be. -/
def Gloss.ofLeaf? (leaf : Leaf) : Option Gloss := leaf.node?.map Gloss.of

/-- What is said about every node, in order. -/
def glosses (groups : List (List Leaf)) : List Gloss :=
  (Leaf.nodes groups).map Gloss.of

/-- A line of help.  A dash sets off what an operator means, a colon all
else. -/
def Gloss.line (painter : Painter) (gloss : Gloss) : Text :=
  let mark : Text := if gloss.kind = .operator then " - " else ": "
  "  " ++ painter.paint gloss.kind gloss.label ++ mark ++ gloss.text.getD "" ++ "\n"

/-- The lines of some glosses. -/
def glossLines (painter : Painter) (list : List Gloss) : Text :=
  Text.concat (list.map (Gloss.line painter))

/-- The help for some groups. -/
def helpText (painter : Painter) (groups : List (List Leaf)) : Text :=
  glossLines painter (glosses groups)

end ShellGloss
