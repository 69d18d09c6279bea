/-
Module: ShellGloss.Catalog.Basic
Purpose: What is known about commands: their summaries, options and
  subcommands, and how they are looked up.
Imports: ShellGloss.Text.Slice
Main exports:
  OptionEntry, CommandEntry, Catalog, CommandEntry.option?,
  CommandEntry.subcommand?, Catalog.command?
-/
import ShellGloss.Text.Slice

namespace ShellGloss

/-- An option: its aliases, such as `-l` and `--long`, and whether it takes a
value. -/
structure OptionEntry where
  summary : Text
  short : List Text := []
  long : List Text := []
  takesValue : Bool := false
deriving Repr, Inhabited, DecidableEq

/-- A command or a subcommand, with its options and subcommands in order. -/
structure CommandEntry where
  name : Text
  summary : Text
  options : List OptionEntry := []
  subcommands : List CommandEntry := []
deriving Repr, Inhabited

/-- All commands, in order. -/
structure Catalog where
  commands : List CommandEntry := []
deriving Repr, Inhabited

/-- Every alias of an option. -/
def OptionEntry.aliases (entry : OptionEntry) : List Text :=
  entry.short ++ entry.long

/-- Whether an option goes by an alias. -/
def OptionEntry.answersTo (entry : OptionEntry) (spelling : Text) : Bool :=
  entry.aliases.contains spelling

/-- The first option that goes by an alias. -/
def CommandEntry.option? (entry : CommandEntry) (spelling : Text) : Option OptionEntry :=
  entry.options.find? (·.answersTo spelling)

/-- The first subcommand of a name. -/
def CommandEntry.subcommand? (entry : CommandEntry) (name : Text) : Option CommandEntry :=
  entry.subcommands.find? (·.name == name)

/-- The part of a program's path behind its last slash. -/
def baseName (program : Text) : Text :=
  Text.ofList (Text.afterLast '/' program.toList)

/-- The first command with the base name of a program, so that `/usr/bin/ls` is
looked up as `ls`. -/
def Catalog.command? (catalog : Catalog) (program : Text) : Option CommandEntry :=
  catalog.commands.find? (·.name == baseName program)

end ShellGloss
