/-
Module: ShellGloss.Proofs.TableScope
Purpose: Every way in which one lexeme can be read, and which table of options is in
  force where it stands.
Imports: ShellGloss.Line, ShellGloss.Proofs.LexicalGrammar
Main exports:
  Line.Reading, Line.step_reading, Line.Reading.step_eq, Node.text, Scope,
  scopeBehind, Line.Reading.agrees
-/
import ShellGloss.Line
import ShellGloss.Proofs.LexicalGrammar

namespace ShellGloss

namespace Line

/-! ### What one lexeme can be read as

The functions of a step ask one thing after another.  `Reading` lists what can come
out, each case with all that was asked on the way, so that a proof about steps goes
through these cases and not through the questions.
-/

/-- A word in front of the program: the stage in which it stands, and the stage that
an assignment leaves.  Behind the options of `sudo` there is no way back to them. -/
inductive Leads (word : Lexeme) : Stage → Stage → Prop where
  | opening (notSudo : word.text ≠ "sudo") : Leads word .opening .opening
  | sudoOptions (table : Table) (notEnd : isEndOfOptions word = false)
      (notOption : isOptionWord word = false) :
      Leads word (.sudoOptions table) .environment
  | environment : Leads word .environment .environment

/-- One lexeme: the progress in front of it, its group and the progress behind it. -/
inductive Reading (catalog : Catalog) (lexeme : Lexeme) :
    Progress → List Node → Progress → Prop where
  | control {progress : Progress} (isControl : lexeme.control = true) :
      Reading catalog lexeme progress (Line.control lexeme) .initial
  | value {stage : Stage} (isWord : lexeme.control = false) :
      Reading catalog lexeme ⟨stage, true⟩ (argument lexeme) ⟨stage, false⟩
  | callsSudo (isWord : lexeme.control = false) (spelled : lexeme.text = "sudo") :
      Reading catalog lexeme ⟨.opening, false⟩
        (whole lexeme (.sudo (CommandInfo.of (catalog.command? "sudo") "sudo")))
        ⟨.sudoOptions (catalog.command? "sudo"), false⟩
  | assignment {stage next : Stage} (isWord : lexeme.control = false)
      (leads : Leads lexeme stage next)
      (assigns : isAssignment lexeme.text.toList = true) :
      Reading catalog lexeme ⟨stage, false⟩ (whole lexeme (.assignment lexeme.text))
        ⟨next, false⟩
  | program {stage next : Stage} (isWord : lexeme.control = false)
      (leads : Leads lexeme stage next)
      (assignsNot : isAssignment lexeme.text.toList = false) :
      Reading catalog lexeme ⟨stage, false⟩
        (whole lexeme (.program (CommandInfo.of (catalog.command? lexeme.text) lexeme.text)))
        ⟨.tail (catalog.command? lexeme.text) .commands, false⟩
  | sudoOption {table : Table} (isWord : lexeme.control = false)
      (isOption : isOptionWord lexeme = true) :
      Reading catalog lexeme ⟨.sudoOptions table, false⟩ (optionGroup table lexeme).nodes
        ⟨.sudoOptions table, (optionGroup table lexeme).needsValue⟩
  | sudoEnd {table : Table} (isWord : lexeme.control = false)
      (ends : isEndOfOptions lexeme = true) :
      Reading catalog lexeme ⟨.sudoOptions table, false⟩ (argument lexeme)
        ⟨.environment, false⟩
  | tailEnded {table : Table} (isWord : lexeme.control = false) :
      Reading catalog lexeme ⟨.tail table .ended, false⟩ (argument lexeme)
        ⟨.tail table .ended, false⟩
  | tailEnd {table : Table} {mode : TailMode} (isWord : lexeme.control = false)
      (goesOn : mode ≠ .ended) (ends : isEndOfOptions lexeme = true) :
      Reading catalog lexeme ⟨.tail table mode, false⟩ (argument lexeme)
        ⟨.tail table .ended, false⟩
  | tailOption {table : Table} {mode : TailMode} (isWord : lexeme.control = false)
      (goesOn : mode ≠ .ended) (isOption : isOptionWord lexeme = true) :
      Reading catalog lexeme ⟨.tail table mode, false⟩ (optionGroup table lexeme).nodes
        ⟨.tail table mode, (optionGroup table lexeme).needsValue⟩
  | subcommand {table : Table} {entry : CommandEntry} (isWord : lexeme.control = false)
      (notEnd : isEndOfOptions lexeme = false) (notOption : isOptionWord lexeme = false)
      (known : table.bind (·.subcommand? lexeme.text) = some entry) :
      Reading catalog lexeme ⟨.tail table .commands, false⟩
        (whole lexeme (.subcommand (CommandInfo.of (some entry) lexeme.text)))
        ⟨.tail (some entry) .commands, false⟩
  | tailArgument {table : Table} {mode : TailMode} (isWord : lexeme.control = false)
      (goesOn : mode ≠ .ended) (notEnd : isEndOfOptions lexeme = false)
      (notOption : isOptionWord lexeme = false)
      (unknown : mode = .commands → table.bind (·.subcommand? lexeme.text) = none) :
      Reading catalog lexeme ⟨.tail table mode, false⟩ (argument lexeme)
        ⟨.tail table .arguments, false⟩

theorem assignmentOrProgram_reading (catalog : Catalog) {word : Lexeme} {stage next : Stage}
    (isWord : word.control = false) (leads : Leads word stage next) :
    Reading catalog word ⟨stage, false⟩ (assignmentOrProgram catalog next word).1
      (assignmentOrProgram catalog next word).2 := by
  unfold assignmentOrProgram
  split
  next assigns => exact .assignment isWord leads assigns
  next assignsNot => exact .program isWord leads (Bool.eq_false_iff.mpr assignsNot)

theorem tailWord_reading (catalog : Catalog) (table : Table) (mode : TailMode)
    {word : Lexeme} (isWord : word.control = false) :
    Reading catalog word ⟨.tail table mode, false⟩ (tailWord table mode word).1
      (tailWord table mode word).2 := by
  unfold tailWord
  split
  · exact .tailEnded isWord
  next goesOn =>
    split
    next ends => exact .tailEnd isWord goesOn ends
    next notEnd =>
      split
      next isOption => exact .tailOption isWord goesOn isOption
      next notOption =>
        rw [Bool.not_eq_true] at notEnd notOption
        split
        next entry known => exact .subcommand isWord notEnd notOption known
        next other =>
          refine .tailArgument isWord goesOn notEnd notOption ?_
          intro commands
          cases known : table.bind (·.subcommand? word.text) with
          | none => rfl
          | some entry => exact absurd known (other entry commands)

theorem freeWord_reading (catalog : Catalog) (stage : Stage) {word : Lexeme}
    (isWord : word.control = false) :
    Reading catalog word ⟨stage, false⟩ (freeWord catalog stage word).1
      (freeWord catalog stage word).2 := by
  cases stage with
  | opening =>
      simp only [freeWord]
      split
      next isSudo => exact .callsSudo isWord (eq_of_beq isSudo)
      next notSudo =>
        have spelled : word.text ≠ "sudo" := by simpa using notSudo
        exact assignmentOrProgram_reading catalog isWord (.opening spelled)
  | sudoOptions table =>
      simp only [freeWord]
      split
      next ends => exact .sudoEnd isWord ends
      next notEnd =>
        split
        next isOption => exact .sudoOption isWord isOption
        next notOption =>
          rw [Bool.not_eq_true] at notEnd notOption
          exact assignmentOrProgram_reading catalog isWord
            (.sudoOptions table notEnd notOption)
  | environment => exact assignmentOrProgram_reading catalog isWord .environment
  | tail table mode => exact tailWord_reading catalog table mode isWord

/-- A step reads its lexeme in one of these ways. -/
theorem step_reading (catalog : Catalog) (progress : Progress) (lexeme : Lexeme) :
    Reading catalog lexeme progress (step catalog progress lexeme).1
      (step catalog progress lexeme).2 := by
  obtain ⟨stage, awaits⟩ := progress
  unfold step
  split
  next isControl => exact .control isControl
  next isWord =>
    rw [Bool.not_eq_true] at isWord
    cases awaits with
    | true => exact .value isWord
    | false => exact freeWord_reading catalog stage isWord

theorem Leads.freeWord_eq (catalog : Catalog) {word : Lexeme} {stage next : Stage}
    (leads : Leads word stage next) :
    freeWord catalog stage word = assignmentOrProgram catalog next word := by
  cases leads with
  | opening notSudo => simp [freeWord, notSudo]
  | sudoOptions table notEnd notOption => simp [freeWord, notEnd, notOption]
  | environment => rfl

theorem isEndOfOptions_of_isOptionWord {word : Lexeme} (isOption : isOptionWord word = true) :
    isEndOfOptions word = false := by
  unfold isOptionWord at isOption
  split at isOption
  · simpa [isEndOfOptions] using isOption
  · cases isOption

/-- A lexeme is read in one way only: what a reading tells is what the step does. -/
theorem Reading.step_eq {catalog : Catalog} {lexeme : Lexeme} {progress next : Progress}
    {group : List Node} (reading : Reading catalog lexeme progress group next) :
    step catalog progress lexeme = (group, next) := by
  have free {stage : Stage} (isWord : lexeme.control = false) :
      step catalog ⟨stage, false⟩ lexeme = freeWord catalog stage lexeme := by
    simp [step, anyWord, isWord]
  cases reading with
  | control isControl => simp [step, isControl]
  | value isWord => simp [step, anyWord, isWord]
  | callsSudo isWord spelled => simp [free isWord, freeWord, spelled]
  | assignment isWord leads assigns =>
      simp [free isWord, leads.freeWord_eq, assignmentOrProgram, assigns]
  | program isWord leads assignsNot =>
      simp [free isWord, leads.freeWord_eq, assignmentOrProgram, assignsNot, Line.program]
  | sudoOption isWord isOption =>
      have notEnd := isEndOfOptions_of_isOptionWord isOption
      simp [free isWord, freeWord, notEnd, isOption, options]
  | sudoEnd isWord ends => simp [free isWord, freeWord, ends]
  | tailEnded isWord => simp [free isWord, freeWord, tailWord]
  | @tailEnd table mode isWord goesOn ends =>
      cases mode with
      | commands => simp [free isWord, freeWord, tailWord, ends]
      | arguments => simp [free isWord, freeWord, tailWord, ends]
      | ended => exact absurd rfl goesOn
  | @tailOption table mode isWord goesOn isOption =>
      have notEnd := isEndOfOptions_of_isOptionWord isOption
      cases mode with
      | commands => simp [free isWord, freeWord, tailWord, notEnd, isOption, options]
      | arguments => simp [free isWord, freeWord, tailWord, notEnd, isOption, options]
      | ended => exact absurd rfl goesOn
  | subcommand isWord notEnd notOption known =>
      simp [free isWord, freeWord, tailWord, notEnd, notOption, known]
  | @tailArgument table mode isWord goesOn notEnd notOption unknown =>
      cases mode with
      | commands => simp [free isWord, freeWord, tailWord, notEnd, notOption, unknown rfl]
      | arguments => simp [free isWord, freeWord, tailWord, notEnd, notOption]
      | ended => exact absurd rfl goesOn

end Line

/-! ### The table in force

Which table an option is looked up in is told from the nodes in front of it: that of the
nearest program or subcommand, or that of `sudo` where no program has come yet.  A control
operator leaves none.
-/

/-- What a query holds where a node stands. -/
def Node.text (query : Text) (node : Node) : Text :=
  Text.slice query node.span.start node.span.stop

/-- Whether a query holds a lexeme where the lexeme says. -/
def Lexeme.StandsIn (query : Text) (lexeme : Lexeme) : Prop :=
  Text.slice query lexeme.start lexeme.stop = lexeme.text

/-- Whose table is in force: that of `sudo`, or that of a program or subcommand. -/
inductive Scope where
  | ofSudo (table : Table)
  | ofCommand (table : Table)

/-- The table in force in a scope. -/
def Scope.table : Scope → Table
  | .ofSudo table | .ofCommand table => table

/-- The scope behind a node, from the one in front of it. -/
def scopeStep (catalog : Catalog) (query : Text) (before : Option Scope) (node : Node) :
    Option Scope :=
  match node.content with
  | .sudo _ => some (.ofSudo (catalog.command? "sudo"))
  | .program _ => some (.ofCommand (catalog.command? (node.text query)))
  | .subcommand _ =>
      match before with
      | some (.ofCommand table) =>
          some (.ofCommand (table.bind (·.subcommand? (node.text query))))
      | _ => none
  | .operator _ | .pipe _ => none
  | .option _ | .stickyOption _ | .assignment _ | .argument _ => before

/-- The scope behind some nodes, if a program or `sudo` is among them since the last control
operator. -/
def scopeBehind (catalog : Catalog) (query : Text) (nodes : List Node) : Option Scope :=
  nodes.foldl (scopeStep catalog query) none

theorem scopeBehind_append (catalog : Catalog) (query : Text)
    (before group : List Node) :
    scopeBehind catalog query (before ++ group) =
      group.foldl (scopeStep catalog query) (scopeBehind catalog query before) :=
  List.foldl_append

/-- The lexemes of a query stand in it. -/
theorem lexemes_standIn {query : Text} {list : List Lexeme}
    (closed : lexemes query = .ok list) : ∀ lexeme ∈ list, lexeme.StandsIn query := by
  obtain ⟨pieces, reads, rfl⟩ := Grammar.run_eq_ok_iff_reads.mp closed
  intro lexeme among
  have chars := reads.sliceChars_eq [] lexeme among
  rw [List.nil_append] at chars
  rw [Lexeme.StandsIn, Text.slice, chars, Text.ofList_toList]

/-- A node over a whole lexeme has its text. -/
theorem Lexeme.StandsIn.text_eq {query : Text} {lexeme : Lexeme}
    (stands : lexeme.StandsIn query) (content : Content) :
    Node.text query ⟨lexeme.span, content⟩ = lexeme.text := stands

/-! ### Options leave the scope as it is -/

/-- What the nodes of an option word are. -/
def Node.IsOption (node : Node) : Prop := node.kind = .option ∨ node.kind = .stickyOption

theorem clusterGroup_isOption (table : Table) (lead start : Nat) (letters : List Glyph) :
    ∀ node ∈ (clusterGroup table lead start letters).nodes, node.IsOption := by
  induction letters generalizing lead start with
  | nil => simp [clusterGroup]
  | cons letter rest inductionHypothesis =>
      simp only [clusterGroup]
      split
      · split
        · simp [Node.IsOption, Node.kind, Content.kind]
        · simp [Node.IsOption, Node.kind, Content.kind]
      · rw [List.forall_mem_cons]
        exact ⟨.inl rfl, inductionHypothesis 0 (start + lead + 1)⟩

theorem optionGroup_isOption (table : Table) (word : Lexeme) :
    ∀ node ∈ (optionGroup table word).nodes, node.IsOption := by
  unfold optionGroup
  split
  · simp [longGroup, Node.IsOption, Node.kind, Content.kind]
  · unfold shortGroup
    split
    · simp [Node.IsOption, Node.kind, Content.kind]
    · exact clusterGroup_isOption table 1 word.start _

theorem Node.IsOption.scopeStep_eq {node : Node} (isOption : node.IsOption)
    (catalog : Catalog) (query : Text) (before : Option Scope) :
    scopeStep catalog query before node = before := by
  obtain ⟨span, content⟩ := node
  cases content <;> simp_all [Node.IsOption, Node.kind, Content.kind, scopeStep]

theorem foldl_scopeStep_options {group : List Node}
    (areOptions : ∀ node ∈ group, node.IsOption) (catalog : Catalog) (query : Text)
    (before : Option Scope) : group.foldl (scopeStep catalog query) before = before := by
  induction group with
  | nil => rfl
  | cons node rest inductionHypothesis =>
      rw [List.forall_mem_cons] at areOptions
      rw [List.foldl_cons, areOptions.1.scopeStep_eq]
      exact inductionHypothesis areOptions.2

namespace Line

/-- The stages that hold a table hold the one in force. -/
def Stage.Agrees (scope : Option Scope) : Stage → Prop
  | .opening | .environment => True
  | .sudoOptions table => scope = some (.ofSudo table)
  | .tail table _ => scope = some (.ofCommand table)

/-- One lexeme: where the table of the stage was the one in force, it is so again behind
the lexeme's group. -/
theorem Reading.agrees {catalog : Catalog} {query : Text} {lexeme : Lexeme}
    {progress next : Progress} {group : List Node}
    (reading : Reading catalog lexeme progress group next)
    (stands : lexeme.StandsIn query) {before : List Node}
    (agrees : progress.stage.Agrees (scopeBehind catalog query before)) :
    next.stage.Agrees (scopeBehind catalog query (before ++ group)) := by
  have optionsKeep (table : Table) :
      scopeBehind catalog query (before ++ (optionGroup table lexeme).nodes) =
        scopeBehind catalog query before := by
    rw [scopeBehind_append]
    exact foldl_scopeStep_options (optionGroup_isOption table lexeme) catalog query _
  have argumentKeeps : scopeBehind catalog query (before ++ argument lexeme) =
      scopeBehind catalog query before := scopeBehind_append ..
  cases reading with
  | control => trivial
  | value =>
      rw [argumentKeeps]
      exact agrees
  | callsSudo => exact scopeBehind_append ..
  | assignment _ leads => cases leads <;> trivial
  | program =>
      show scopeBehind catalog query _ = _
      rw [scopeBehind_append]
      exact congrArg (fun text => some (Scope.ofCommand (catalog.command? text))) (stands.text_eq _)
  | sudoOption => exact (optionsKeep _).trans agrees
  | sudoEnd => trivial
  | tailEnded => exact argumentKeeps.trans agrees
  | tailEnd => exact argumentKeeps.trans agrees
  | tailOption => exact (optionsKeep _).trans agrees
  | @subcommand table entry _ _ _ known =>
      have scope : scopeBehind catalog query before = some (.ofCommand table) := agrees
      have here := stands.text_eq (.subcommand (CommandInfo.of (some entry) lexeme.text))
      show scopeBehind catalog query _ = _
      rw [scopeBehind_append, scope, ← known]
      exact congrArg (fun text =>
        some (Scope.ofCommand (table.bind (·.subcommand? text)))) here
  | tailArgument => exact argumentKeeps.trans agrees

end Line

end ShellGloss
