/-
Module: ShellGloss.Line
Purpose: A command line as groups of nodes, one group for each lexeme.
Imports: ShellGloss.OptionWord
Main exports:
  Line.Stage, Line.Progress, Line.step, Line.groups, parse, Response
-/
import ShellGloss.OptionWord

namespace ShellGloss

/-!
Each lexeme gives one group.  Which group depends on how far the current simple
command has come, its `Progress`: the grammar is a stage (assignments, the
options of `sudo`, the environment it passes on, the tail behind the program)
and whether the option just read still waits for its value.  A control operator
starts the next simple command from the beginning, so nothing is carried across
it.
-/

namespace Line

/-- How much of a program's tail has been settled. -/
inductive TailMode where
  /-- Only options and subcommands so far: a subcommand may still come. -/
  | commands
  /-- An argument has come: the other words are options or arguments. -/
  | arguments
  /-- `--` has come: every other word is an argument. -/
  | ended
deriving Repr, Inhabited, DecidableEq

/-- The part of a simple command that the next word belongs to. -/
inductive Stage where
  /-- Nothing but assignments so far. -/
  | opening
  /-- Behind `sudo`, among its options. -/
  | sudoOptions (table : Table)
  /-- Behind the options of `sudo`: assignments, then the program. -/
  | environment
  /-- Behind the program. -/
  | tail (table : Table) (mode : TailMode)
deriving Repr, Inhabited

/-- How far a simple command has come. -/
structure Progress where
  stage : Stage
  /-- The option before takes the next word as its value. -/
  awaitsValue : Bool := false
deriving Repr, Inhabited

/-- Before the first word. -/
def Progress.initial : Progress := { stage := .opening }

/-- Whether a word assigns to a variable: a name of ASCII letters, digits and
underscores that starts with no digit, and an equals sign. -/
def isAssignment (cs : List Glyph) : Bool :=
  match cs with
  | [] => false
  | c :: rest =>
      (c.isAlpha || c == '_') &&
        (rest.dropWhile fun d : Glyph => d.isAlphanum || d == '_').head? == some (.char '=')

/-- Whether a word is read as options: a dash and more, `--` by itself apart. -/
def isOptionWord (word : Lexeme) : Bool :=
  match word.text.toList with
  | '-' :: _ :: _ => word.text != "--"
  | _ => false

/-- Whether a word ends the options. -/
def isEndOfOptions (word : Lexeme) : Bool := word.text == "--"

/-- A node over a whole lexeme. -/
def whole (word : Lexeme) (content : Content) : List Node := [⟨word.span, content⟩]

/-- A word as an argument. -/
def argument (word : Lexeme) : List Node := whole word (.argument word.text)

/-- A word as the program. -/
def program (catalog : Catalog) (word : Lexeme) : List Node × Progress :=
  let entry := catalog.command? word.text
  (whole word (.program (CommandInfo.of entry word.text)), { stage := .tail entry .commands })

/-- An assignment, which leaves the stage as it is, or the program. -/
def assignmentOrProgram (catalog : Catalog) (stage : Stage) (word : Lexeme) :
    List Node × Progress :=
  if isAssignment word.text.toList then
    (whole word (.assignment word.text), { stage := stage })
  else
    program catalog word

/-- The options of a word, which leave the stage as it is. -/
def options (table : Table) (stage : Stage) (word : Lexeme) : List Node × Progress :=
  let group := optionGroup table word
  (group.nodes, { stage := stage, awaitsValue := group.needsValue })

/-- A word of a program's tail. -/
def tailWord (table : Table) (mode : TailMode) (word : Lexeme) : List Node × Progress :=
  match mode with
  | .ended => (argument word, { stage := .tail table .ended })
  | mode =>
      if isEndOfOptions word then
        (argument word, { stage := .tail table .ended })
      else if isOptionWord word then
        options table (.tail table mode) word
      else
        match mode, table.bind (·.subcommand? word.text) with
        | .commands, some entry =>
            (whole word (.subcommand (CommandInfo.of (some entry) word.text)),
              { stage := .tail (some entry) .commands })
        | _, _ => (argument word, { stage := .tail table .arguments })

/-- A word that is no option's value. -/
def freeWord (catalog : Catalog) (stage : Stage) (word : Lexeme) : List Node × Progress :=
  match stage with
  | .opening =>
      if word.text == "sudo" then
        let entry := catalog.command? "sudo"
        (whole word (.sudo (CommandInfo.of entry "sudo")), { stage := .sudoOptions entry })
      else
        assignmentOrProgram catalog .opening word
  | .sudoOptions table =>
      if isEndOfOptions word then
        (argument word, { stage := .environment })
      else if isOptionWord word then
        options table (.sudoOptions table) word
      else
        assignmentOrProgram catalog .environment word
  | .environment => assignmentOrProgram catalog .environment word
  | .tail table mode => tailWord table mode word

/-- A word: the value of the option before it, or free. -/
def anyWord (catalog : Catalog) (progress : Progress) (word : Lexeme) :
    List Node × Progress :=
  if progress.awaitsValue then
    (argument word, { progress with awaitsValue := false })
  else
    freeWord catalog progress.stage word

/-- A control operator as a node. -/
def control (operator : Lexeme) : List Node :=
  whole operator (if operator.text == "|" then .pipe operator.text else .operator operator.text)

/-- One lexeme: its group and the progress behind it. -/
def step (catalog : Catalog) (progress : Progress) (lexeme : Lexeme) :
    List Node × Progress :=
  if lexeme.control then (control lexeme, .initial) else anyWord catalog progress lexeme

/-- The groups of some lexemes, one each. -/
def groups (catalog : Catalog) (progress : Progress) : List Lexeme → List (List Node)
  | [] => []
  | lexeme :: rest =>
      let (group, next) := step catalog progress lexeme
      group :: groups catalog next rest

/-- The progress behind some lexemes. -/
def advance (catalog : Catalog) (progress : Progress) : List Lexeme → Progress
  | [] => progress
  | lexeme :: rest => advance catalog (step catalog progress lexeme).2 rest

@[simp] theorem length_groups (catalog : Catalog) (progress : Progress)
    (list : List Lexeme) : (groups catalog progress list).length = list.length := by
  induction list generalizing progress with
  | nil => rfl
  | cons lexeme rest inductionHypothesis => simp [groups, inductionHypothesis]

/-- Reading on is reading from the progress reached. -/
theorem groups_append (catalog : Catalog) (progress : Progress)
    (first second : List Lexeme) :
    groups catalog progress (first ++ second) =
      groups catalog progress first ++
        groups catalog (advance catalog progress first) second := by
  induction first generalizing progress with
  | nil => rfl
  | cons lexeme rest inductionHypothesis =>
      simp [groups, advance, inductionHypothesis]

end Line

/-- The groups of a command line.  There are none when it has no lexemes, because
of a quote or an escape left open, or no word among them. -/
def parse (catalog : Catalog) (query : Text) : Option (List (List Node)) :=
  match lexemes query with
  | .error _ => none
  | .ok list =>
      if list.all (·.control) then none
      else some (Line.groups catalog .initial list)

/-- A command line has groups if it has lexemes and not only operators. -/
theorem parse_eq_some_iff {catalog : Catalog} {query : Text}
    {groups : List (List Node)} :
    parse catalog query = some groups ↔
      ∃ list, lexemes query = .ok list ∧ list.all (·.control) = false ∧
        Line.groups catalog .initial list = groups := by
  unfold parse
  cases lexemes query with
  | error error => simp
  | ok list => simp

/-- A query and the groups it was read as. -/
structure Response where
  query : Text
  groups : Option (List (List Node))
deriving Repr, Inhabited, DecidableEq

/-- The response to a query. -/
def respond (catalog : Catalog) (query : Text) : Response :=
  ⟨query, parse catalog query⟩

end ShellGloss
