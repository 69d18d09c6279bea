/-
Module: ShellGloss.Proofs.ColourTransparency
Purpose: Styles change nothing but the styling: a session with styles strips to the session
  without, and both read, log and end alike.
Imports: ShellGloss.Catalog.Bundled, ShellGloss.Proofs.AbsentCharacter,
  ShellGloss.Proofs.SessionRun, ShellGloss.Proofs.StyledText
Main exports:
  Output.Shows, Highlight.weave_off, Gloss.line_shows, helpText_shows, explain_shows,
  Session.responses, Session.run_shows, run_colour_transparent
-/
import ShellGloss.Catalog.Bundled
import ShellGloss.Proofs.AbsentCharacter
import ShellGloss.Proofs.SessionRun
import ShellGloss.Proofs.StyledText

namespace ShellGloss

/-! ### Outputs that differ in styling only

The errors have to be the same.  What is printed has to show the plain text wherever it
stands, so that outputs can be joined: stripping goes over the joined text as one.
-/

/-- An output with styles and the one without. -/
structure Output.Shows (styled plain : Output) : Prop where
  out : Sgr.Shows styled.out.toList plain.out.toList
  err : styled.err = plain.err

namespace Output

theorem Shows.append {one two onePlain twoPlain : Output} (first : one.Shows onePlain)
    (second : two.Shows twoPlain) : (one ++ two).Shows (onePlain ++ twoPlain) := by
  refine ⟨?_, ?_⟩
  · simp only [out_append, Text.toList_append]
    exact first.out.append second.out
  · rw [err_append, err_append, first.err, second.err]

theorem Shows.refl {output : Output} (noEscape : Sgr.escape ∉ output.out.toList) :
    output.Shows output :=
  ⟨.of_escape_not_mem noEscape, rfl⟩

theorem Shows.concat {styled plain : Text → Output} {queries : List Text}
    (each : ∀ query ∈ queries, (styled query).Shows (plain query)) :
    (Output.concat (queries.map styled)).Shows (Output.concat (queries.map plain)) := by
  induction queries with
  | nil => exact .refl List.not_mem_nil
  | cons query rest inductionHypothesis =>
      obtain ⟨here, others⟩ := List.forall_mem_cons.mp each
      exact here.append (inductionHypothesis others)

theorem Shows.strip_eq {styled plain : Output} (shown : styled.Shows plain) :
    stripStyling styled.out = plain.out := by
  rw [stripStyling, shown.out.strip_eq, Text.ofList_toList]

theorem err_block (text : Text) : (block text).err = "" := rfl

theorem Shows.block {styled plain : Text} (shown : Sgr.Shows styled.toList plain.toList) :
    (Output.block styled).Shows (Output.block plain) :=
  ⟨shown, (err_block styled).trans (err_block plain).symm⟩

/-- A single line. -/
theorem Shows.line {styled plain : Text} (shown : Sgr.Shows styled.toList plain.toList) :
    (Output.lines [styled]).Shows (Output.lines [plain]) := by
  refine .block ?_
  simp only [Text.concat, List.map_cons, List.map_nil, Text.toList_append]
  exact (shown.append (.of_escape_not_mem (by decide))).append (.of_escape_not_mem (by decide))

theorem blankLine_shows : blankLine.Shows blankLine := .refl (by decide)

end Output

/-! ### The two painted places -/

theorem Painter.paint_off {painter : Painter} (off : painter.enabled = false) (kind : Kind)
    (text : Text) : painter.paint kind text = text := by
  simp [paint, off]

/-- Without styles a query stands as it is. -/
theorem Highlight.weave_off {painter : Painter} (off : painter.enabled = false)
    (size cursor : Nat) (left : List Glyph) (nodes : List Node) :
    weave painter size cursor left nodes = left := by
  induction nodes generalizing cursor left with
  | nil => rfl
  | cons node rest inductionHypothesis =>
      have proper : min node.span.start size ≤ min node.span.stop size := by
        have ordered := node.span.start_le_stop
        omega
      simp only [weave, Painter.paint_off off, inductionHypothesis, Text.toList_ofList]
      -- A span is passed over, or the three parts around it are joined again.
      split
      · rfl
      next ahead =>
        rw [List.append_assoc]
        exact take_append_take_append_drop left (Nat.le_of_not_lt ahead) proper

section

variable {styled plain : Painter}

theorem highlight_shows (sequences : styled.palette.Styled) (off : plain.enabled = false)
    {query : Text} (noEscape : Sgr.escape ∉ query.toList) (groups : List (List Leaf)) :
    Sgr.Shows (highlight styled query groups).toList (highlight plain query groups).toList := by
  simp only [highlight, Text.toList_ofList, Highlight.weave_off off]
  exact Highlight.weave_shows sequences query.length 0 noEscape _

/-- A line of help shows itself, also where its label is empty or its kind has no style. -/
theorem Gloss.line_shows (sequences : styled.palette.Styled) (off : plain.enabled = false)
    {gloss : Gloss} (lacks : Lacks Sgr.escape gloss.texts) :
    Sgr.Shows (gloss.line styled).toList (gloss.line plain).toList := by
  obtain ⟨label, rest⟩ := lacks_cons.mp lacks
  obtain ⟨text, -⟩ := lacks_cons.mp rest
  have mark : Sgr.escape ∉
      (if gloss.kind = .operator then (" - " : Text) else ": ").toList := by
    split <;> decide
  have indent : Sgr.escape ∉ ("  " : Text).toList := by decide
  have lineEnd : Sgr.escape ∉ ("\n" : Text).toList := by decide
  simp only [line, Painter.paint_off off, Text.toList_append]
  -- Only the label is painted; the four other parts stand as they are.
  exact ((((Sgr.Shows.of_escape_not_mem indent).append
    (Painter.paint_shows sequences gloss.kind label)).append (.of_escape_not_mem mark)).append
      (.of_escape_not_mem text)).append (.of_escape_not_mem lineEnd)

theorem glossLines_shows (sequences : styled.palette.Styled) (off : plain.enabled = false)
    {list : List Gloss} (lack : ∀ gloss ∈ list, Lacks Sgr.escape gloss.texts) :
    Sgr.Shows (glossLines styled list).toList (glossLines plain list).toList := by
  induction list with
  | nil => exact .of_escape_not_mem List.not_mem_nil
  | cons gloss rest inductionHypothesis =>
      obtain ⟨here, others⟩ := List.forall_mem_cons.mp lack
      simp only [glossLines, List.map_cons, Text.concat, Text.toList_append]
      exact (Gloss.line_shows sequences off here).append (inductionHypothesis others)

theorem helpText_shows (sequences : styled.palette.Styled) (off : plain.enabled = false)
    {groups : List (List Node)}
    (lack : ∀ node ∈ groups.flatten, Lacks Sgr.escape node.content.texts) :
    Sgr.Shows (helpText styled (Leaf.ofGroups groups)).toList
      (helpText plain (Leaf.ofGroups groups)).toList := by
  refine glossLines_shows sequences off ?_
  rw [glosses, Leaf.nodes_ofGroups, List.forall_mem_map]
  intro node among
  exact Gloss.of_lacks (by decide) (lack node among)

/-! ### One query and a session -/

theorem Text.not_mem_lines {lines : List Text} (lacks : Lacks Sgr.escape lines) :
    Sgr.escape ∉ (Text.concat (lines.map (· ++ "\n"))).toList := by
  induction lines with
  | nil => exact List.not_mem_nil
  | cons line rest inductionHypothesis =>
      obtain ⟨here, others⟩ := lacks_cons.mp lacks
      have lineEnd : Sgr.escape ∉ ("\n" : Text).toList := by decide
      simp only [List.map_cons, Text.concat, Text.toList_append, List.mem_append, not_or]
      exact ⟨⟨here, lineEnd⟩, inductionHypothesis others⟩

theorem Screen.bannerText_shows {screen : Screen} (noEscape : Lacks Sgr.escape screen.banner) :
    screen.bannerText.Shows screen.bannerText := by
  have lineEnd : Sgr.escape ∉ ("\n" : Text).toList := by decide
  refine .refl ?_
  simp only [bannerText, Output.block, Text.toList_append, List.mem_append, not_or]
  exact ⟨Text.not_mem_lines noEscape, lineEnd⟩

theorem Text.mem_of_mem_trim {c : Glyph} {text : Text} (held : c ∈ (Text.trim text).toList) :
    c ∈ text.toList := by
  rw [Text.trim, Text.toList_ofList, Text.trimWith, List.mem_reverse] at held
  have front := List.dropWhile_subset _ held
  rw [List.mem_reverse] at front
  exact List.dropWhile_subset _ front

theorem Screen.render_shows (screen : Screen) (sequences : styled.palette.Styled)
    (off : plain.enabled = false) {query : Text} (noEscape : Sgr.escape ∉ query.toList)
    {groups : Option (List (List Node))}
    (lack : ∀ list, groups = some list →
      ∀ node ∈ list.flatten, Lacks Sgr.escape node.content.texts) :
    (render { screen with painter := styled } query (groups.map Leaf.ofGroups)).Shows
      (render { screen with painter := plain } query (groups.map Leaf.ofGroups)) := by
  have blank := Output.blankLine_shows
  have failed : (Output.blankLine ++ noResult ++ Output.blankLine).Shows
      (Output.blankLine ++ noResult ++ Output.blankLine) :=
    (blank.append (.refl (by decide))).append blank
  cases groups with
  | none => exact failed
  | some list =>
      cases list with
      | nil => exact failed
      | cons group rest =>
          have line : (Output.lines
              ["  " ++ highlight styled query (Leaf.ofGroups (group :: rest))]).Shows
                (Output.lines ["  " ++ highlight plain query (Leaf.ofGroups (group :: rest))]) := by
            refine .line ?_
            rw [Text.toList_append, Text.toList_append]
            exact (Sgr.Shows.of_escape_not_mem (by decide)).append
              (highlight_shows sequences off noEscape _)
          have help := Output.Shows.block (helpText_shows sequences off (lack _ rfl))
          exact (((blank.append line).append blank).append help).append blank

/-- One query, explained with styles and without. -/
theorem explain_shows (screen : Screen) (sequences : styled.palette.Styled)
    (off : plain.enabled = false) {catalog : Catalog}
    (known : Lacks Sgr.escape catalog.texts) {query : Text}
    (noEscape : Sgr.escape ∉ query.toList) :
    (explain { screen with painter := styled } catalog query).output.Shows
      (explain { screen with painter := plain } catalog query).output := by
  refine screen.render_shows sequences off noEscape ?_
  intro list parsed
  exact nodes_lack (by decide) known noEscape parsed

namespace Session

/-- The responses of a session, one for each query it explains. -/
def responses (screen : Screen) (catalog : Catalog) (script : List PromptOutcome) :
    List Response :=
  (queries script).map fun query => (explain screen catalog query).response

/-- What is read does not depend on how it is shown. -/
theorem responses_eq (screen : Screen) (catalog : Catalog) (script : List PromptOutcome) :
    responses screen catalog script = (queries script).map (respond catalog) := rfl

/-- A session logs its responses and nothing else. -/
theorem events_run (screen : Screen) (catalog : Catalog) (script : List PromptOutcome) :
    (run screen catalog script).events =
      (responses screen catalog script).flatMap fun response =>
        queryEvents response.query response.groups := by
  rw [run, events_runFrom, responses, List.flatMap_map]
  rfl

theorem parting_shows (script : List PromptOutcome) :
    (parting script).Shows (parting script) := by
  induction script with
  | nil => exact Output.blankLine_shows
  | cons outcome rest inductionHypothesis =>
      rw [parting]
      split
      · exact inductionHypothesis
      · exact inductionHypothesis
      · exact Output.blankLine_shows
      all_goals exact .refl List.not_mem_nil

/-- A whole session with styles and without. -/
theorem run_shows {screen : Screen} (bannerPlain : Lacks Sgr.escape screen.banner)
    (sequences : styled.palette.Styled) (off : plain.enabled = false) {catalog : Catalog}
    (known : Lacks Sgr.escape catalog.texts) {script : List PromptOutcome}
    (typed : ∀ raw, .line raw ∈ script → Sgr.escape ∉ raw.toList) :
    (run { screen with painter := styled } catalog script).output.Shows
      (run { screen with painter := plain } catalog script).output := by
  have each : ∀ query ∈ queries script,
      (explain { screen with painter := styled } catalog query).output.Shows
        (explain { screen with painter := plain } catalog query).output := by
    intro query among
    obtain ⟨raw, listed, rfl⟩ := exists_line_of_mem_queries among
    refine explain_shows screen sequences off known ?_
    intro held
    exact typed raw listed (Text.mem_of_mem_trim held)
  rw [run, run, output_runFrom, output_runFrom]
  exact (Screen.bannerText_shows bannerPlain).append
    ((Output.Shows.concat each).append (parting_shows script))

end Session

end

/-- Where no escape character is in the banner, the catalog or what is typed, a session
with styles strips to the session without.  Both write the same errors, read and log the same
and end alike.  The same holds of one query that is explained by itself.  The standard banner
and the standard styles are of this kind. -/
theorem run_colour_transparent :
    Lacks Sgr.escape standardBanner ∧ Palette.standard.Styled ∧
      ∀ (screen : Screen) (styled plain : Painter) (catalog : Catalog),
        Lacks Sgr.escape screen.banner → styled.palette.Styled → plain.enabled = false →
          Lacks Sgr.escape catalog.texts →
            let colours : Screen := { screen with painter := styled }
            let bare : Screen := { screen with painter := plain }
            (∀ script : List PromptOutcome,
              (∀ raw, .line raw ∈ script → Sgr.escape ∉ raw.toList) →
                let one := Session.run colours catalog script
                let two := Session.run bare catalog script
                stripStyling one.output.out = two.output.out ∧
                  one.output.err = two.output.err ∧
                  Session.responses colours catalog script =
                    Session.responses bare catalog script ∧
                  one.events = two.events ∧
                  (two.events = (Session.responses bare catalog script).flatMap fun response =>
                    queryEvents response.query response.groups) ∧
                  one.failure = two.failure ∧ one.unread = two.unread) ∧
            ∀ query : Text, Sgr.escape ∉ query.toList →
              let one := explain colours catalog query
              let two := explain bare catalog query
              stripStyling one.output.out = two.output.out ∧
                one.output.err = two.output.err ∧ one.response = two.response ∧
                one.events = two.events := by
  refine ⟨by decide +kernel, Palette.standard_styled, ?_⟩
  intro screen styled plain catalog bannerPlain sequences off known colours bare
  refine ⟨?_, ?_⟩
  · intro script typed one two
    have shown := Session.run_shows bannerPlain sequences off known typed
    have sameEnd := (Session.ending_runFrom colours catalog colours.bannerText script).trans
      (Session.ending_runFrom bare catalog bare.bannerText script).symm
    have logged := Session.events_run bare catalog script
    have sameResponses := (Session.responses_eq colours catalog script).trans
      (Session.responses_eq bare catalog script).symm
    refine ⟨shown.strip_eq, shown.err, sameResponses, ?_, logged, congrArg Prod.fst sameEnd,
      congrArg Prod.snd sameEnd⟩
    rw [Session.events_run colours catalog script, sameResponses, logged]
  · intro query noEscape one two
    have shown := explain_shows screen sequences off known noEscape
    -- Neither looks at the painter.
    have read (screen : Screen) : (explain screen catalog query).response =
        respond catalog query := rfl
    have logged (screen : Screen) : (explain screen catalog query).events =
        queryEvents query (respond catalog query).groups := rfl
    exact ⟨shown.strip_eq, shown.err, (read colours).trans (read bare).symm,
      (logged colours).trans (logged bare).symm⟩

/-- A session of two queries, one of them with a quote left open, and an interrupt, with
styles for all but arguments. -/
theorem run_colour_transparent_interrupted :
    let styles : Palette := fun kind => if kind = .argument then "" else Palette.standard kind
    let catalog : Catalog := { commands := [Catalog.Bundled.ls] }
    let script : List PromptOutcome :=
      [.line " ls -la [1m && x", .line "", .line "ls 'x", .failed { kind := .interrupt },
        .line "ls"]
    styles.Styled ∧ Lacks Sgr.escape catalog.texts ∧
      (∀ raw, .line raw ∈ script → Sgr.escape ∉ raw.toList) ∧
      stripStyling (Session.run { painter := { palette := styles } } catalog script).output.out =
        (Session.run { painter := .off } catalog script).output.out ∧
      (Session.run { painter := { palette := styles } } catalog script).output.err =
        (Session.run { painter := .off } catalog script).output.err := by
  intro styles catalog script
  have sequences : styles.Styled := by
    intro kind
    simp only [styles]
    split
    · exact .nil
    · exact Palette.standard_styled kind
  have known : Lacks Sgr.escape catalog.texts := by decide +kernel
  have typed : ∀ raw, .line raw ∈ script → Sgr.escape ∉ raw.toList := by
    intro raw among
    simp only [script, List.mem_cons, PromptOutcome.line.injEq, reduceCtorEq, List.not_mem_nil,
      or_false, false_or] at among
    rcases among with rfl | rfl | rfl | rfl <;> decide
  obtain ⟨bannerPlain, -, transparent⟩ := run_colour_transparent
  obtain ⟨strips, errors, -⟩ :=
    (transparent {} { palette := styles } .off catalog bannerPlain sequences rfl known).1
      script typed
  exact ⟨sequences, known, typed, strips, errors⟩

end ShellGloss
