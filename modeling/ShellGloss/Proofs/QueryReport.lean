/-
Module: ShellGloss.Proofs.QueryReport
Purpose: What is returned, shown and logged of one query tells the same: that it has no words,
  or how it was read.
Imports: Mathlib.Data.List.TFAE, ShellGloss.Proofs.DocumentOrder,
  ShellGloss.Proofs.SessionRun
Main exports:
  Wordless, parse_eq_none_iff, Explained.Refused, Explained.Rendered, explain_cases,
  explain_consistent
-/
import Mathlib.Data.List.TFAE
import ShellGloss.Proofs.DocumentOrder
import ShellGloss.Proofs.SessionRun

namespace ShellGloss

/-! ### Queries without words -/

/-- A query in which no word is found: it has no lexemes, or operators alone. -/
def Wordless (query : Text) : Prop :=
  (∃ error, lexemes query = .error error) ∨
    ∃ list, lexemes query = .ok list ∧ ∀ lexeme ∈ list, lexeme.control = true

/-- A query has no groups exactly if it has no words. -/
theorem parse_eq_none_iff {catalog : Catalog} {query : Text} :
    parse catalog query = none ↔ Wordless query := by
  unfold parse Wordless
  cases lexemes query with
  | error error => simp
  | ok list => simp

/-- Groups are never missing altogether, and none of them is empty. -/
theorem parse_ne_nil {catalog : Catalog} {query : Text} {groups : List (List Node)}
    (parsed : parse catalog query = some groups) : groups ≠ [] ∧ ∀ group ∈ groups, group ≠ [] := by
  obtain ⟨list, lexed, hasWord, rfl⟩ := parse_eq_some_iff.mp parsed
  have fill := Line.groups_fill_lexemes catalog lexed
  constructor
  · intro nothing
    rw [nothing] at fill
    cases fill
    cases hasWord
  · have present := fill.flip.imp fun group lexeme fills => And.intro fills.1 fills
    exact ((List.forall₂_and_left _ _).mp present).1

/-! ### What comes of a query -/

/-- That a query was asked for. -/
def requestEvent (query : Text) : Event :=
  { name := "explain_request", fields := [("query", .text query)] }

/-- A query that was refused: nothing is shown of it but an error. -/
structure Explained.Refused (explained : Explained) (query : Text) : Prop where
  response : explained.response = ⟨query, none⟩
  events : explained.events =
    [requestEvent query, { name := "parse_failed", fields := [("query", .text query)] }]
  out : explained.output.out = "\n\n"
  err : explained.output.err = "ERROR: No result\n"

/-- A query that was read as groups, of which it is shown and logged how many there are. -/
structure Explained.Rendered (explained : Explained) (painter : Painter) (query : Text)
    (list : List Lexeme) (groups : List (List Node)) : Prop where
  response : explained.response = ⟨query, some groups⟩
  events : explained.events =
    [requestEvent query,
      { name := "explain_rendered"
        fields :=
          [("query", .text query), ("units", .int list.length),
            ("nodes", .int (glosses (Leaf.ofGroups groups)).length)] }]
  out : explained.output.out =
    "\n  " ++ highlight painter query (Leaf.ofGroups groups) ++ "\n\n" ++
      helpText painter (Leaf.ofGroups groups) ++ "\n"
  err : explained.output.err = ""

theorem Output.out_blankLine : blankLine.out = "\n" := rfl

theorem Output.out_line (text : Text) : (lines [text]).out = text ++ "\n" := by
  simp [lines, block, Text.concat]

theorem Screen.render_of_ne_nil (screen : Screen) (query : Text) {groups : List (List Leaf)}
    (hasGroups : groups ≠ []) :
    screen.render query (some groups) =
      ⟨"\n  " ++ highlight screen.painter query groups ++ "\n\n" ++
        helpText screen.painter groups ++ "\n", ""⟩ := by
  cases groups with
  | nil => exact absurd rfl hasGroups
  | cons group rest =>
      have indent : ("\n  " : Text) = "\n" ++ "  " := rfl
      have gap : ("\n\n" : Text) = "\n" ++ "\n" := rfl
      apply Output.ext_streams
      · simp only [Screen.render, Output.out_append, Output.out_blankLine, Output.out_line,
          Output.block, indent, gap, Text.append_assoc]
      · rfl

theorem explain_eq (screen : Screen) {catalog : Catalog} {query : Text}
    {groups : Option (List (List Node))} (parsed : parse catalog query = groups) :
    explain screen catalog query =
      ⟨⟨query, groups⟩, screen.render query (groups.map Leaf.ofGroups),
        queryEvents query groups⟩ := by
  simp only [explain, respond, parsed, Screen.renderResponse]

/-- A query is refused if it has no words, and rendered otherwise. -/
theorem explain_cases (screen : Screen) (catalog : Catalog) (query : Text) :
    (Wordless query ∧ (explain screen catalog query).Refused query) ∨
    ∃ list groups, ¬ Wordless query ∧ lexemes query = .ok list ∧
      parse catalog query = some groups ∧
      (explain screen catalog query).Rendered screen.painter query list groups := by
  cases parsed : parse catalog query with
  | none =>
      refine .inl ⟨parse_eq_none_iff.mp parsed, ?_⟩
      rw [explain_eq screen parsed]
      exact ⟨rfl, rfl, rfl, rfl⟩
  | some groups =>
      obtain ⟨list, lexed, -, isReading⟩ := parse_eq_some_iff.mp parsed
      have hasWord : ¬ Wordless query := by
        intro wordless
        have refused : parse catalog query = none := parse_eq_none_iff.mpr wordless
        exact Option.some_ne_none groups (parsed.symm.trans refused)
      have hasGroups : Leaf.ofGroups groups ≠ [] := by
        simpa [Leaf.ofGroups] using (parse_ne_nil parsed).1
      have units : groups.length = list.length := by
        rw [← isReading, Line.length_groups]
      have nodes : groups.flatten.length = (glosses (Leaf.ofGroups groups)).length := by
        rw [glosses, Leaf.nodes_ofGroups, List.length_map]
      refine .inr ⟨list, groups, hasWord, lexed, rfl, ?_⟩
      rw [explain_eq screen parsed, Option.map_some, screen.render_of_ne_nil query hasGroups]
      refine ⟨rfl, ?_, rfl, rfl⟩
      simp only [queryEvents, units, nodes]
      rfl

/-- What is returned of a query, its words, the log, the errors and the text on the screen
agree on whether it has a result.  If it has one, its groups are there and not empty, nothing
goes to the errors, the log tells how many lexemes and explanations there are, and the screen
shows the query in its styles and the help. -/
theorem explain_consistent (screen : Screen) (catalog : Catalog) (query : Text) :
    let explained := explain screen catalog query
    [explained.response.groups = none, Wordless query,
      explained.events[1]?.map Event.name = some "parse_failed",
      explained.output.err = "ERROR: No result\n", explained.output.out = "\n\n"].TFAE ∧
    ∀ groups, explained.response.groups = some groups →
      groups ≠ [] ∧ (∀ group ∈ groups, group ≠ []) ∧
        ∃ list, lexemes query = .ok list ∧
          explained.Rendered screen.painter query list groups := by
  intro explained
  rcases explain_cases screen catalog query with
    ⟨wordless, refused⟩ | ⟨list, groups, hasWord, lexed, parsed, rendered⟩
  · replace refused : explained.Refused query := refused
    constructor
    · apply List.tfae_of_forall True
      simp [refused.response, refused.events, refused.out, refused.err, wordless]
    · simp [refused.response]
  · replace rendered : explained.Rendered screen.painter query list groups := rendered
    have shown : explained.output.out ≠ "\n\n" := by
      rw [rendered.out]
      intro same
      simpa using congrArg Text.toList same
    constructor
    · apply List.tfae_of_forall False
      simp [rendered.response, rendered.events, rendered.err, shown, hasWord]
    · rw [rendered.response]
      rintro _ ⟨⟩
      exact ⟨(parse_ne_nil parsed).1, (parse_ne_nil parsed).2, list, lexed, rendered⟩

/-- Operators alone have no result; two programs with a pipe between them have one. -/
theorem explain_consistent_pipe :
    (explain {} Catalog.bundled "&& ;").response.groups = none ∧
      (explain {} Catalog.bundled "&& ;").output.out = "\n\n" ∧
      ∃ groups, (explain {} Catalog.bundled "ls -la|wc").response.groups = some groups ∧
        groups ≠ [] ∧
        ∃ list, lexemes "ls -la|wc" = .ok list ∧
          (explain {} Catalog.bundled "ls -la|wc").Rendered {} "ls -la|wc" list groups := by
  have refused : (explain {} Catalog.bundled "&& ;").response.groups = none := by decide +kernel
  have answered : (explain {} Catalog.bundled "ls -la|wc").response.groups.isSome = true := by
    decide +kernel
  obtain ⟨groups, isReading⟩ := Option.isSome_iff_exists.mp answered
  have agree := (explain_consistent {} Catalog.bundled "&& ;").1
  obtain ⟨hasGroups, -, rendered⟩ :=
    (explain_consistent {} Catalog.bundled "ls -la|wc").2 groups isReading
  exact ⟨refused, (agree.out 0 4).mp refused, groups, isReading, hasGroups, rendered⟩

end ShellGloss
