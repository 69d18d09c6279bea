/-
Module: ShellGloss.Proofs.TransparentOptions
Purpose: Options behind a program, with their values, are transparent: without them the other
  words of the simple command are read as they are with them.
Imports: ShellGloss.Catalog.Bundled, ShellGloss.Proofs.CommandGrammar
Main exports:
  Line.Reading.tail_of_program, Line.advance_tail, Line.Reading.options_inv,
  Line.LeavesNoTrace, Line.options_leaveNoTrace
-/
import ShellGloss.Catalog.Bundled
import ShellGloss.Proofs.CommandGrammar

namespace ShellGloss.Line

/-! ### The tail of a simple command -/

/-- Behind a program, words lead nowhere but to its tail. -/
theorem Reading.tail_of_tail {catalog : Catalog} {word : Lexeme} {table : Table}
    {mode : TailMode} {awaits : Bool} {group : List Node} {next : Progress}
    (reading : Reading catalog word ⟨.tail table mode, awaits⟩ group next)
    (isWord : word.control = false) :
    ∃ nextTable nextMode nextAwaits, next = ⟨.tail nextTable nextMode, nextAwaits⟩ := by
  cases reading with
  | control isControl =>
      rw [isWord] at isControl
      cases isControl
  | value => exact ⟨_, _, _, rfl⟩
  | assignment _ leads => cases leads
  | program _ leads => cases leads
  | tailEnded => exact ⟨_, _, _, rfl⟩
  | tailEnd => exact ⟨_, _, _, rfl⟩
  | tailOption => exact ⟨_, _, _, rfl⟩
  | subcommand => exact ⟨_, _, _, rfl⟩
  | tailArgument => exact ⟨_, _, _, rfl⟩

/-- A group that is a program begins a tail. -/
theorem Reading.tail_of_program {catalog : Catalog} {lexeme : Lexeme} {progress : Progress}
    {group : List Node} {next : Progress}
    (reading : Reading catalog lexeme progress group next)
    (isProgram : Part.Is .program ⟨lexeme, group⟩) :
    ∃ table, next = ⟨.tail table .commands, false⟩ := by
  have notOptions := isProgram.not_isOptions Kind.noConfusion Kind.noConfusion
  have notArgument {word : Lexeme} (same : Part.Is .program ⟨word, argument word⟩) : False :=
    Kind.noConfusion (same.unique (argument_is word))
  cases reading with
  | program => exact ⟨_, rfl⟩
  | control =>
      unfold Part.Is Line.control whole at isProgram
      split at isProgram
      · cases isProgram
      · cases isProgram
  | value => exact (notArgument isProgram).elim
  | callsSudo => cases isProgram
  | assignment => cases isProgram
  | sudoOption _ isOption => exact absurd (optionGroup_isOptions isOption _) notOptions
  | sudoEnd => exact (notArgument isProgram).elim
  | tailEnded => exact (notArgument isProgram).elim
  | tailEnd => exact (notArgument isProgram).elim
  | tailOption _ _ isOption => exact absurd (optionGroup_isOptions isOption _) notOptions
  | subcommand => cases isProgram
  | tailArgument => exact (notArgument isProgram).elim

theorem advance_tail (catalog : Catalog) {words : List Lexeme}
    (areWords : ∀ word ∈ words, word.control = false) (table : Table) (mode : TailMode)
    (awaits : Bool) :
    ∃ nextTable nextMode nextAwaits,
      advance catalog ⟨.tail table mode, awaits⟩ words =
        ⟨.tail nextTable nextMode, nextAwaits⟩ := by
  induction words generalizing table mode awaits with
  | nil => exact ⟨table, mode, awaits, rfl⟩
  | cons word rest inductionHypothesis =>
      obtain ⟨isWord, areWords⟩ := List.forall_mem_cons.mp areWords
      have reading := step_reading catalog ⟨.tail table mode, awaits⟩ word
      obtain ⟨nextTable, nextMode, nextAwaits, next⟩ := reading.tail_of_tail isWord
      rw [advance, next]
      exact inductionHypothesis areWords nextTable nextMode nextAwaits

/-- Behind words with a program among them, the next word belongs to its tail. -/
theorem advance_of_program {catalog : Catalog} {progress : Progress} {words : List Lexeme}
    (areWords : ∀ word ∈ words, word.control = false)
    (called : ∃ part ∈ readParts catalog progress words, part.Is .program) :
    ∃ table mode awaits, advance catalog progress words = ⟨.tail table mode, awaits⟩ := by
  induction words generalizing progress with
  | nil =>
      obtain ⟨part, among, -⟩ := called
      cases among
  | cons word rest inductionHypothesis =>
      obtain ⟨-, areWords⟩ := List.forall_mem_cons.mp areWords
      obtain ⟨part, among, isProgram⟩ := called
      rcases List.mem_cons.mp among with rfl | later
      · obtain ⟨table, next⟩ := (step_reading catalog progress word).tail_of_program isProgram
        rw [advance, next]
        exact advance_tail catalog areWords table .commands false
      · exact inductionHypothesis areWords ⟨part, later, isProgram⟩

/-! ### Options of a tail -/

/-- An option group of a tail comes from a free word in front of the first free `--`, and
leaves all as it is but for the value that it needs. -/
theorem Reading.options_inv {catalog : Catalog} {word : Lexeme} {table : Table}
    {mode : TailMode} {awaits : Bool} {group : List Node} {next : Progress}
    (reading : Reading catalog word ⟨.tail table mode, awaits⟩ group next)
    (isWord : word.control = false) (isOptions : Part.IsOptions ⟨word, group⟩) :
    awaits = false ∧ isOptionWord word = true ∧
      next = ⟨.tail table mode, (optionGroup table word).needsValue⟩ := by
  have notArgument := argument_not_isOptions word
  cases reading with
  | tailOption _ _ isOption => exact ⟨rfl, isOption, rfl⟩
  | control isControl =>
      rw [isWord] at isControl
      cases isControl
  | value => exact absurd isOptions notArgument
  | assignment _ leads => cases leads
  | program _ leads => cases leads
  | tailEnded => exact absurd isOptions notArgument
  | tailEnd => exact absurd isOptions notArgument
  | @subcommand _ entry =>
      have isSubcommand : Part.Is .subcommand
          ⟨word, whole word (.subcommand (CommandInfo.of (some entry) word.text))⟩ := rfl
      exact absurd isOptions (isSubcommand.not_isOptions Kind.noConfusion Kind.noConfusion)
  | tailArgument => exact absurd isOptions notArgument

/-- Words between others that could as well be missing: the others have the groups that they
have without them, and behind each of the others the simple command has come as far, with the
same table in force. -/
structure LeavesNoTrace (catalog : Catalog) (before removed kept : List Lexeme) : Prop where
  groups_eq : groups catalog .initial (before ++ kept) =
    (groups catalog .initial (before ++ removed ++ kept)).take before.length ++
      (groups catalog .initial (before ++ removed ++ kept)).drop
        (before.length + removed.length)
  stage_eq : ∀ first later, kept = first ++ later →
    (advance catalog .initial (before ++ first)).stage =
      (advance catalog .initial (before ++ removed ++ first)).stage

/-- The groups of a run without some words in its middle. -/
theorem groups_without_middle (catalog : Catalog) (before removed kept : List Lexeme) :
    (groups catalog .initial (before ++ removed ++ kept)).take before.length ++
        (groups catalog .initial (before ++ removed ++ kept)).drop
          (before.length + removed.length) =
      groups catalog .initial before ++
        groups catalog (advance catalog .initial (before ++ removed)) kept := by
  have taken : before.length = (groups catalog .initial before).length := by simp
  have skipped : before.length + removed.length =
      (groups catalog .initial (before ++ removed)).length := by simp
  congr 1
  · rw [List.append_assoc, groups_append, taken, List.take_left]
  · rw [groups_append, skipped, List.drop_left]

/-- Words that lead back to where they began leave no trace. -/
theorem leavesNoTrace_of_advance {catalog : Catalog} {before removed : List Lexeme}
    (unmoved : advance catalog .initial (before ++ removed) = advance catalog .initial before)
    (kept : List Lexeme) : LeavesNoTrace catalog before removed kept := by
  constructor
  · rw [groups_without_middle, unmoved, groups_append]
  · intro first later _
    rw [advance_append, advance_append, unmoved]

/-- At the end it is enough that they lead to the same stage. -/
theorem leavesNoTrace_at_end {catalog : Catalog} {before removed : List Lexeme}
    (sameStage : (advance catalog .initial (before ++ removed)).stage =
      (advance catalog .initial before).stage) : LeavesNoTrace catalog before removed [] := by
  constructor
  · rw [groups_without_middle, groups, List.append_nil, List.append_nil]
  · intro first later split
    obtain ⟨rfl, -⟩ := List.nil_eq_append_iff.mp split
    rw [List.append_nil, List.append_nil]
    exact sameStage.symm

/-- An option group behind the program of a simple command, alone if it needs no value or no
word is left for it, and otherwise together with its value, leaves no trace. -/
theorem options_leaveNoTrace (catalog : Catalog) {before after : List Lexeme} {word : Lexeme}
    {group : List Node} (areWords : ∀ lexeme ∈ before ++ word :: after, lexeme.control = false)
    (called : ∃ part ∈ readParts catalog .initial before, part.Is .program)
    (read : (groups catalog .initial (before ++ word :: after))[before.length]? = some group)
    (isOptions : Part.IsOptions ⟨word, group⟩) :
    ∃ table mode, advance catalog .initial before = ⟨.tail table mode, false⟩ ∧
      (¬ NeedsValue table word ∨ after = [] → LeavesNoTrace catalog before [word] after) ∧
      (∀ value rest, NeedsValue table word → after = value :: rest →
        LeavesNoTrace catalog before [word, value] rest) := by
  obtain ⟨wordsBefore, isWord, wordsAfter⟩ : (∀ lexeme ∈ before, lexeme.control = false) ∧
      word.control = false ∧ ∀ lexeme ∈ after, lexeme.control = false := by
    simpa [or_imp, forall_and] using areWords
  obtain ⟨table, mode, awaits, reached⟩ := advance_of_program wordsBefore called
  have here : (step catalog ⟨.tail table mode, awaits⟩ word).1 = group := by
    have place : before.length = (groups catalog .initial before).length := by simp
    rw [groups_append, reached, place, List.getElem?_append_right (Nat.le_refl _),
      Nat.sub_self] at read
    exact Option.some.inj read
  have reading := step_reading catalog ⟨.tail table mode, awaits⟩ word
  rw [here] at reading
  obtain ⟨rfl, isOption, next⟩ := reading.options_inv isWord isOptions
  have behind : advance catalog .initial (before ++ [word]) =
      ⟨.tail table mode, (optionGroup table word).needsValue⟩ := by
    rw [advance_append, reached, advance, next]
    rfl
  have needs := optionGroup_needsValue_iff isOption table
  refine ⟨table, mode, reached, ?_, ?_⟩
  · rintro (needsNone | rfl)
    · rw [← needs, Bool.not_eq_true] at needsNone
      rw [needsNone, ← reached] at behind
      exact leavesNoTrace_of_advance behind after
    · apply leavesNoTrace_at_end
      rw [behind, reached]
  · rintro value rest needed rfl
    have valueIsWord := wordsAfter value List.mem_cons_self
    apply leavesNoTrace_of_advance
    rw [← needs] at needed
    rw [needed] at behind
    rw [List.append_cons, advance_append, behind, reached, advance,
      (Reading.value valueIsWord).step_eq]
    rfl

/-- In `git -C -- log --oneline -n 3` the value of `-C` ends no options, and `log` is a
subcommand with it and without; `--oneline` needs no value. -/
theorem options_leaveNoTrace_git :
    LeavesNoTrace .bundled [⟨"git", 0, false⟩] [⟨"-C", 4, false⟩, ⟨"--", 7, false⟩]
        [⟨"log", 10, false⟩, ⟨"--oneline", 14, false⟩, ⟨"-n", 24, false⟩, ⟨"3", 27, false⟩] ∧
      LeavesNoTrace .bundled
        [⟨"git", 0, false⟩, ⟨"-C", 4, false⟩, ⟨"--", 7, false⟩, ⟨"log", 10, false⟩]
        [⟨"--oneline", 14, false⟩] [⟨"-n", 24, false⟩, ⟨"3", 27, false⟩] := by
  constructor
  · have areWords : ∀ lexeme ∈ [⟨"git", 0, false⟩] ++ ⟨"-C", 4, false⟩ ::
        ([⟨"--", 7, false⟩, ⟨"log", 10, false⟩, ⟨"--oneline", 14, false⟩, ⟨"-n", 24, false⟩,
          ⟨"3", 27, false⟩] : List Lexeme), lexeme.control = false := by decide
    have inForce : advance .bundled .initial [⟨"git", 0, false⟩] =
        ⟨.tail (some Catalog.Bundled.git) .commands, false⟩ := by rfl
    have needs : NeedsValue (some Catalog.Bundled.git) ⟨"-C", 4, false⟩ :=
      .known rfl ⟨_, rfl, rfl⟩
    obtain ⟨table, mode, reached, -, withValue⟩ := options_leaveNoTrace .bundled areWords
      ⟨_, List.mem_cons_self, rfl⟩ rfl (optionGroup_isOptions rfl (some Catalog.Bundled.git))
    cases inForce.symm.trans reached
    exact withValue _ _ needs rfl
  · have areWords : ∀ lexeme ∈ [⟨"git", 0, false⟩, ⟨"-C", 4, false⟩, ⟨"--", 7, false⟩,
        ⟨"log", 10, false⟩] ++ ⟨"--oneline", 14, false⟩ ::
        ([⟨"-n", 24, false⟩, ⟨"3", 27, false⟩] : List Lexeme), lexeme.control = false := by
      decide
    have inForce : advance .bundled .initial [⟨"git", 0, false⟩, ⟨"-C", 4, false⟩,
        ⟨"--", 7, false⟩, ⟨"log", 10, false⟩] =
        ⟨.tail (some Catalog.Bundled.gitLog) .commands, false⟩ := by rfl
    have isOption : isOptionWord ⟨"--oneline", 14, false⟩ = true := by decide
    have needsNone : ¬ NeedsValue (some Catalog.Bundled.gitLog) ⟨"--oneline", 14, false⟩ := by
      rw [← optionGroup_needsValue_iff isOption]
      decide
    obtain ⟨table, mode, reached, alone, -⟩ := options_leaveNoTrace .bundled areWords
      ⟨_, List.mem_cons_self, rfl⟩ rfl
      (optionGroup_isOptions isOption (some Catalog.Bundled.gitLog))
    cases inForce.symm.trans reached
    exact alone (.inl needsNone)

end ShellGloss.Line
