/-
Module: ShellGloss.Proofs.CommandSequence
Purpose: Two command lines joined by a control operator are explained as each is by
  itself: the groups only move with their line, and no progress is carried across.
Imports: ShellGloss.Catalog.Bundled, ShellGloss.Line, ShellGloss.Proofs.LexicalGrammar
Main exports:
  Line.step_shift, Line.groups_shift, Line.groups_control, lexemes_joined,
  parse_joined
-/
import ShellGloss.Catalog.Bundled
import ShellGloss.Line
import ShellGloss.Proofs.LexicalGrammar

namespace ShellGloss

/-! ### Groups move with their lexemes

A word's text decides what it is read as; its place only goes into the spans.
-/

/-- A group further to the right, with the progress behind it. -/
def shiftGroup {β : Type} (distance : Nat) (result : List Node × β) : List Node × β :=
  (result.1.map (Node.shift distance), result.2)

@[simp] theorem Lexeme.text_shift (distance : Nat) (lexeme : Lexeme) :
    (lexeme.shift distance).text = lexeme.text := rfl

@[simp] theorem Lexeme.control_shift (distance : Nat) (lexeme : Lexeme) :
    (lexeme.shift distance).control = lexeme.control := rfl

theorem clusterGroup_shift (table : Table) (distance lead start : Nat)
    (letters : List Glyph) :
    clusterGroup table lead (start + distance) letters =
      ⟨(clusterGroup table lead start letters).nodes.map (Node.shift distance),
        (clusterGroup table lead start letters).needsValue⟩ := by
  induction letters generalizing lead start with
  | nil => rfl
  | cons letter rest inductionHypothesis =>
      have places : start + distance + lead + 1 = start + lead + 1 + distance := by omega
      simp only [clusterGroup, places, inductionHypothesis]
      split
      · split <;> rfl
      · rfl

/-- The options of a word are those of the word elsewhere. -/
theorem optionGroup_shift (table : Table) (distance : Nat) (word : Lexeme) :
    optionGroup table (word.shift distance) =
      ⟨(optionGroup table word).nodes.map (Node.shift distance),
        (optionGroup table word).needsValue⟩ := by
  unfold optionGroup
  by_cases long : startsLong word.text.toList = true
  · rw [Lexeme.text_shift, if_pos long, if_pos long]
    rfl
  · rw [Lexeme.text_shift, if_neg long, if_neg long, shortGroup, shortGroup,
      Lexeme.text_shift]
    cases table.option? word.text with
    | some entry => rfl
    | none => exact clusterGroup_shift table distance 1 word.start _

namespace Line

theorem options_shift (table : Table) (stage : Stage) (distance : Nat) (word : Lexeme) :
    options table stage (word.shift distance) =
      shiftGroup distance (options table stage word) := by
  simp only [options, optionGroup_shift, shiftGroup]

theorem assignmentOrProgram_shift (catalog : Catalog) (stage : Stage) (distance : Nat)
    (word : Lexeme) :
    assignmentOrProgram catalog stage (word.shift distance) =
      shiftGroup distance (assignmentOrProgram catalog stage word) := by
  unfold assignmentOrProgram
  by_cases assigns : isAssignment word.text.toList = true
  · rw [Lexeme.text_shift, if_pos assigns, if_pos assigns]
    rfl
  · rw [Lexeme.text_shift, if_neg assigns, if_neg assigns]
    rfl

theorem tailWord_shift (table : Table) (mode : TailMode) (distance : Nat) (word : Lexeme) :
    tailWord table mode (word.shift distance) =
      shiftGroup distance (tailWord table mode word) := by
  have ends : isEndOfOptions (word.shift distance) = isEndOfOptions word := rfl
  have isOption : isOptionWord (word.shift distance) = isOptionWord word := rfl
  unfold tailWord
  split
  · rfl
  · rw [ends, isOption, Lexeme.text_shift]
    split
    · rfl
    split
    · exact options_shift table _ distance word
    split
    · rfl
    · rfl

theorem freeWord_shift (catalog : Catalog) (stage : Stage) (distance : Nat)
    (word : Lexeme) :
    freeWord catalog stage (word.shift distance) =
      shiftGroup distance (freeWord catalog stage word) := by
  have ends : isEndOfOptions (word.shift distance) = isEndOfOptions word := rfl
  have isOption : isOptionWord (word.shift distance) = isOptionWord word := rfl
  cases stage with
  | opening =>
      simp only [freeWord]
      by_cases isSudo : (word.text == "sudo") = true
      · rw [Lexeme.text_shift, if_pos isSudo, if_pos isSudo]
        rfl
      · rw [Lexeme.text_shift, if_neg isSudo, if_neg isSudo]
        exact assignmentOrProgram_shift catalog .opening distance word
  | sudoOptions table =>
      simp only [freeWord, ends, isOption]
      split
      · rfl
      split
      · exact options_shift table _ distance word
      · exact assignmentOrProgram_shift catalog .environment distance word
  | environment => exact assignmentOrProgram_shift catalog .environment distance word
  | tail table mode => exact tailWord_shift table mode distance word

/-- A lexeme further to the right gives its group further to the right and leads to
the same progress. -/
theorem step_shift (catalog : Catalog) (progress : Progress) (distance : Nat)
    (lexeme : Lexeme) :
    step catalog progress (lexeme.shift distance) =
      shiftGroup distance (step catalog progress lexeme) := by
  unfold step
  by_cases isControl : lexeme.control = true
  · rw [Lexeme.control_shift, if_pos isControl, if_pos isControl]
    rfl
  · rw [Lexeme.control_shift, if_neg isControl, if_neg isControl]
    unfold anyWord
    split
    · rfl
    · exact freeWord_shift catalog progress.stage distance lexeme

/-- Groups move with their lexemes, whatever the progress in front of them. -/
theorem groups_shift (catalog : Catalog) (progress : Progress) (distance : Nat)
    (list : List Lexeme) :
    groups catalog progress (list.map (Lexeme.shift distance)) =
      (groups catalog progress list).map (List.map (Node.shift distance)) := by
  induction list generalizing progress with
  | nil => rfl
  | cons lexeme rest inductionHypothesis =>
      simp only [List.map_cons, groups, step_shift, shiftGroup, inductionHypothesis]

/-- Behind a control operator everything is read from the beginning. -/
theorem groups_control {operator : Lexeme} (isControl : operator.control = true)
    (catalog : Catalog) (progress : Progress) (rest : List Lexeme) :
    groups catalog progress (operator :: rest) =
      control operator :: groups catalog .initial rest := by
  rw [groups, step, if_pos isControl]

end Line

/-! ### The lexemes of a joined line -/

theorem lexemes_operator {operator : Text} (listed : operator.toList ∈ Grammar.operators) :
    lexemes operator = .ok [⟨operator, 0, true⟩] := by
  have longest : Grammar.Operator operator.toList [] := by
    refine ⟨listed, ?_⟩
    intro other _ starts
    rw [List.append_nil] at starts
    exact starts.length_le
  have reads := Grammar.Reads.operator longest .nil
  rw [List.append_nil] at reads
  rw [lexemes, reads.run_eq, Grammar.located, Grammar.located, Text.ofList_toList]

/-- Two lines joined by an operator between blanks: no quote, escape or redirection of
the first reaches the operator, and the second is read as if it stood alone. -/
theorem lexemes_joined {operator : Text} (listed : operator.toList ∈ Grammar.operators)
    {first second : Text} {firstList secondList : List Lexeme}
    (firstClosed : lexemes first = .ok firstList)
    (secondClosed : lexemes second = .ok secondList) :
    lexemes (first ++ " " ++ operator ++ " " ++ second) =
      .ok (firstList ++ ⟨operator, first.length + 1, true⟩ ::
        secondList.map (Lexeme.shift (first.length + operator.length + 2))) := by
  have space : Text.isBlank ' ' = true := by decide
  have operatorClosed := lexemes_operator listed
  have behind : lexemes (operator ++ " " ++ second) =
      .ok (⟨operator, 0, true⟩ ::
        secondList.map (Lexeme.shift (operator.length + 1))) := by
    have joined := lexemes_append_blank operatorClosed space second
    rw [secondClosed] at joined
    exact joined
  have whole := lexemes_append_blank firstClosed space (operator ++ " " ++ second)
  rw [behind] at whole
  have regroup : first ++ " " ++ operator ++ " " ++ second =
      first ++ Text.singleton ' ' ++ (operator ++ " " ++ second) := by
    simp only [Text.append_assoc]
    rfl
  have places : operator.length + 1 + (first.length + 1) =
      first.length + operator.length + 2 := by
    omega
  rw [regroup, whole]
  simp [Lexeme.Scan.shiftAnswer, Except.map, Lexeme.shift, places, Nat.add_assoc]

/-- Two command lines joined by a control operator: the groups of the first, the operator
as a group of its own, and the groups of the second, which only move to where it now
stands. -/
theorem parse_joined {catalog : Catalog} {operator : Text}
    (listed : operator.toList ∈ Grammar.operators) {first second : Text}
    {firstGroups secondGroups : List (List Node)}
    (firstParsed : parse catalog first = some firstGroups)
    (secondParsed : parse catalog second = some secondGroups) :
    parse catalog (first ++ " " ++ operator ++ " " ++ second) =
      some (firstGroups ++
        [⟨⟨first.length + 1, operator.length⟩,
          if operator = "|" then .pipe operator else .operator operator⟩] ::
        secondGroups.map
          (List.map (Node.shift (first.length + operator.length + 2)))) := by
  obtain ⟨firstList, firstClosed, notOnlyControl, rfl⟩ := parse_eq_some_iff.mp firstParsed
  obtain ⟨secondList, secondClosed, -, rfl⟩ := parse_eq_some_iff.mp secondParsed
  refine parse_eq_some_iff.mpr ⟨_, lexemes_joined listed firstClosed secondClosed, ?_, ?_⟩
  · rw [List.all_append, notOnlyControl]
    rfl
  · rw [Line.groups_append, Line.groups_control rfl, Line.groups_shift]
    simp [Line.control, Line.whole, Lexeme.span]

theorem parse_joined_pending_value :
    ∃ firstGroups secondGroups, parse Catalog.bundled "sudo tar -f" = some firstGroups ∧
      parse Catalog.bundled "ls -la" = some secondGroups ∧
      parse Catalog.bundled ("sudo tar -f" ++ " " ++ "|" ++ " " ++ "ls -la") =
        some (firstGroups ++
          [⟨⟨12, 1⟩, .pipe "|"⟩] :: secondGroups.map (List.map (Node.shift 14))) := by
  have firstAnswered : (parse Catalog.bundled "sudo tar -f").isSome = true := by decide +kernel
  have secondAnswered : (parse Catalog.bundled "ls -la").isSome = true := by decide +kernel
  obtain ⟨firstGroups, firstParsed⟩ := Option.isSome_iff_exists.mp firstAnswered
  obtain ⟨secondGroups, secondParsed⟩ := Option.isSome_iff_exists.mp secondAnswered
  have listed : ("|" : Text).toList ∈ Grammar.operators := by decide
  exact ⟨firstGroups, secondGroups, firstParsed, secondParsed,
    parse_joined listed firstParsed secondParsed⟩

end ShellGloss
