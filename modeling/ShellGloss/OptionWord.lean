/-
Module: ShellGloss.OptionWord
Purpose: A word that starts with a dash, taken apart into options by a table of
  known ones.
Imports: ShellGloss.Catalog.Basic, ShellGloss.Lexeme, ShellGloss.Node.Basic
Main exports:
  Table, OptionGroup, optionGroup
-/
import ShellGloss.Catalog.Basic
import ShellGloss.Lexeme
import ShellGloss.Node.Basic

namespace ShellGloss

/-- Said of commands and options that the catalog does not hold. -/
def unknownSummary : Text := "No description available"

/-- The span of a whole lexeme. -/
def Lexeme.span (lexeme : Lexeme) : Span := ⟨lexeme.start, lexeme.text.length⟩

/-- What is told about a command that may be known. -/
def CommandInfo.of (entry : Option CommandEntry) (name : Text) : CommandInfo :=
  match entry with
  | none => ⟨name, unknownSummary⟩
  | some entry => ⟨entry.name, entry.summary⟩

/-- A group of aliases, missing when it holds none. -/
def aliasGroup (aliases : List Text) : Option (List Text) :=
  if aliases.isEmpty then none else some aliases

/-- Whether a word starts with two dashes. -/
def startsLong (cs : List Glyph) : Bool :=
  match cs with
  | '-' :: '-' :: _ => true
  | _ => false

/-- What is told about an option that may be known.  An unknown one is listed by
the alias it was called by. -/
def OptionInfo.of (entry : Option OptionEntry) (spelling : Text) : OptionInfo :=
  match entry with
  | some entry => ⟨entry.summary, aliasGroup entry.short, aliasGroup entry.long⟩
  | none =>
      if startsLong spelling.toList then ⟨unknownSummary, none, some [spelling]⟩
      else ⟨unknownSummary, some [spelling], none⟩

/-- The entry whose options are in force, if the command is known. -/
abbrev Table := Option CommandEntry

/-- The option of an alias in a table. -/
def Table.option? (table : Table) (spelling : Text) : Option OptionEntry :=
  table.bind (·.option? spelling)

/-- Whether an option that may be known takes a value. -/
def takesValue (entry : Option OptionEntry) : Bool :=
  entry.any (·.takesValue)

/-- The parts of an option word, and whether its value is the next word. -/
structure OptionGroup where
  nodes : List Node
  needsValue : Bool
deriving Repr, Inhabited, DecidableEq

/-- The alias of one letter of a cluster. -/
def letterAlias (letter : Glyph) : Text := Text.ofList ['-', letter]

/-- The letters of a cluster such as `-la`, one node each.  `lead` characters in
front of the first letter belong to its node.  A letter that takes a value
swallows the letters behind it; with none behind it, the next word is the
value. -/
def clusterGroup (table : Table) : Nat → Nat → List Glyph → OptionGroup
  | _, _, [] => ⟨[], false⟩
  | lead, start, letter :: rest =>
      let spelling := letterAlias letter
      let entry := table.option? spelling
      let info := OptionInfo.of entry spelling
      if takesValue entry then
        if rest.isEmpty then
          ⟨[⟨⟨start, lead + 1⟩, .option info⟩], true⟩
        else
          ⟨[⟨⟨start, lead + 1 + rest.length⟩, .stickyOption info⟩], false⟩
      else
        let others := clusterGroup table 0 (start + lead + 1) rest
        ⟨⟨⟨start, lead + 1⟩, .option info⟩ :: others.nodes, others.needsValue⟩

/-- A word of two dashes and more: the part in front of the first equals sign is
the alias, and a value behind the sign means that none follows. -/
def longGroup (table : Table) (word : Lexeme) : OptionGroup :=
  let chars := word.text.toList
  let spelling := Text.ofList (Text.beforeFirst '=' chars)
  let entry := table.option? spelling
  ⟨[⟨word.span, .option (OptionInfo.of entry spelling)⟩],
    takesValue entry && !chars.contains '='⟩

/-- A word of one dash and more: an alias as a whole if the table has it, and
otherwise a cluster of letters. -/
def shortGroup (table : Table) (word : Lexeme) : OptionGroup :=
  match table.option? word.text with
  | some entry =>
      ⟨[⟨word.span, .option (OptionInfo.of (some entry) word.text)⟩], entry.takesValue⟩
  | none => clusterGroup table 1 word.start (word.text.toList.drop 1)

/-- The options of a word that starts with a dash. -/
def optionGroup (table : Table) (word : Lexeme) : OptionGroup :=
  if startsLong word.text.toList then longGroup table word else shortGroup table word

end ShellGloss
