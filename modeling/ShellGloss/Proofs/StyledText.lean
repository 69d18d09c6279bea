/-
Module: ShellGloss.Proofs.StyledText
Purpose: What styling adds to a text, stripping takes away again, and nothing else:
  a highlighted query strips to the query.
Imports: ShellGloss.Highlight, ShellGloss.Style.Sgr
Main exports:
  Sgr.Sequences, Sgr.Shows, Palette.Styled, Painter.paint_shows,
  Highlight.weave_shows, stripStyling_highlight
-/
import ShellGloss.Highlight
import ShellGloss.Style.Sgr

namespace ShellGloss

/-!
Stripping reads from left to right and may hold characters back, so what it makes
of a text can depend on the text in front.  `Shows` leaves that out: the characters
are read with nothing held back, and whatever stands behind them is read with
nothing held back again.  Such stretches can be joined.

A stretch without escape characters shows itself, also where it looks like the
inside of a sequence, since nothing is held back when it begins.
-/

namespace Sgr

/-- Any number of styling sequences one behind the other. -/
inductive Sequences : List Glyph → Prop where
  | nil : Sequences []
  | cons {parameters rest : List Glyph} (allowed : ∀ c ∈ parameters, isParameter c = true)
      (more : Sequences rest) : Sequences (escape :: '[' :: (parameters ++ .char 'm' :: rest))

/-- Characters that strip to `shown`, whatever stands behind them. -/
def Shows (chars shown : List Glyph) : Prop :=
  ∀ rest, strip .nothing (chars ++ rest) = shown ++ strip .nothing rest

theorem Shows.strip_eq {chars shown : List Glyph} (drawn : Shows chars shown) :
    strip .nothing chars = shown := by
  have alone := drawn []
  rw [List.append_nil] at alone
  rw [alone]
  exact List.append_nil shown

theorem Shows.append {one two oneShown twoShown : List Glyph} (first : Shows one oneShown)
    (second : Shows two twoShown) : Shows (one ++ two) (oneShown ++ twoShown) := by
  intro rest
  rw [List.append_assoc, first, second, List.append_assoc]

/-- Text without escape characters stands as it is. -/
theorem Shows.of_escape_not_mem {text : List Glyph} (noEscape : escape ∉ text) :
    Shows text text := by
  intro rest
  induction text with
  | nil => rfl
  | cons c others inductionHypothesis =>
      rw [List.mem_cons, not_or] at noEscape
      have passed : strip .nothing (c :: (others ++ rest)) =
          c :: strip .nothing (others ++ rest) := if_neg (Ne.symm noEscape.1)
      rw [List.cons_append, passed, inductionHypothesis noEscape.2, List.cons_append]

/-- A sequence that has been opened is dropped once it completes. -/
theorem strip_opened {parameters : List Glyph}
    (allowed : ∀ c ∈ parameters, isParameter c = true) (seen rest : List Glyph) :
    strip (.opened seen) (parameters ++ .char 'm' :: rest) = strip .nothing rest := by
  induction parameters generalizing seen with
  | nil => rfl
  | cons c others inductionHypothesis =>
      rw [List.forall_mem_cons] at allowed
      have notFinal : (c == 'm') = false := by
        rw [beq_eq_false_iff_ne]
        rintro rfl
        exact absurd allowed.1 (by decide)
      have held : strip (.opened seen) (c :: (others ++ .char 'm' :: rest)) =
          strip (.opened (c :: seen)) (others ++ .char 'm' :: rest) := by
        rw [strip, Held.completes, Held.next?, notFinal, allowed.1]
        rfl
      rw [List.cons_append, held, inductionHypothesis allowed.2]

/-- Sequences show nothing. -/
theorem Sequences.shows_nil {style : List Glyph} (sequences : Sequences style) :
    Shows style [] := by
  intro rest
  induction sequences with
  | nil => rfl
  | @cons parameters others allowed more inductionHypothesis =>
      have opened :
          strip .nothing (escape :: '[' :: (parameters ++ .char 'm' :: (others ++ rest))) =
            strip (.opened []) (parameters ++ .char 'm' :: (others ++ rest)) := rfl
      rw [List.cons_append, List.cons_append, List.append_assoc, List.cons_append, opened,
        strip_opened allowed, inductionHypothesis]

theorem Sequences.append {one two : List Glyph} (first : Sequences one)
    (second : Sequences two) : Sequences (one ++ two) := by
  induction first with
  | nil => exact second
  | cons allowed more inductionHypothesis =>
      rw [List.cons_append, List.cons_append, List.append_assoc, List.cons_append]
      exact .cons allowed inductionHypothesis

theorem Sequences.of_spelled {style : Text} (parameters : List Glyph)
    (spelled : style.toList = escape :: '[' :: (parameters ++ [.char 'm']))
    (allowed : parameters.all isParameter = true) : Sequences style.toList := by
  rw [spelled]
  exact .cons (List.all_eq_true.mp allowed) .nil

end Sgr

/-- A palette whose styles are styling sequences and nothing else. -/
def Palette.Styled (palette : Palette) : Prop :=
  ∀ kind, Sgr.Sequences (palette kind).toList

theorem Palette.reset_sequences : Sgr.Sequences Palette.reset.toList :=
  .of_spelled ['0'] rfl rfl

theorem Palette.standard_styled : Palette.standard.Styled := by
  intro kind
  have brightly {style : Text} (plain : Sgr.Sequences style.toList) :
      Sgr.Sequences (Palette.bright ++ style).toList := by
    rw [Text.toList_append]
    exact (Sgr.Sequences.of_spelled ['1'] rfl rfl).append plain
  cases kind with
  | program => exact brightly (.of_spelled ['3', '2'] rfl rfl)
  | subcommand => exact brightly (.of_spelled ['3', '6'] rfl rfl)
  | «sudo» => exact brightly (.of_spelled ['3', '1'] rfl rfl)
  | option => exact .of_spelled ['3', '3'] rfl rfl
  | stickyOption => exact .of_spelled ['3', '3'] rfl rfl
  | assignment => exact .of_spelled ['3', '5'] rfl rfl
  | argument => exact .of_spelled ['3', '4'] rfl rfl
  | operator => exact brightly (.of_spelled ['3', '7'] rfl rfl)
  | pipe => exact brightly (.of_spelled ['3', '5'] rfl rfl)

/-- A painted text shows the text, painted or not. -/
theorem Painter.paint_shows {painter : Painter} (styled : painter.palette.Styled)
    (kind : Kind) {text : Text} (noEscape : Sgr.escape ∉ text.toList) :
    Sgr.Shows (painter.paint kind text).toList text.toList := by
  have plain := Sgr.Shows.of_escape_not_mem noEscape
  unfold Painter.paint
  dsimp only
  split
  · exact plain
  · have around := ((styled kind).shows_nil.append plain).append
      Palette.reset_sequences.shows_nil
    rw [List.nil_append, List.append_nil] at around
    rw [Text.toList_append, Text.toList_append]
    exact around

namespace Highlight

/-- What is left of the query is cut in three at a span that lies ahead. -/
theorem take_append_take_append_drop (left : List Glyph) {cursor start stop : Nat}
    (ahead : cursor ≤ start) (proper : start ≤ stop) :
    left.take (start - cursor) ++
        ((left.drop (start - cursor)).take (stop - start) ++ left.drop (stop - cursor)) =
      left := by
  have places : stop - cursor = (start - cursor) + (stop - start) := by omega
  rw [places, ← List.drop_drop, List.take_append_drop, List.take_append_drop]

/-- Whatever spans are styled, skipped or cut off at the end, what is left of the
query still shows itself. -/
theorem weave_shows {painter : Painter} (styled : painter.palette.Styled)
    (size cursor : Nat) {left : List Glyph} (noEscape : Sgr.escape ∉ left)
    (nodes : List Node) : Sgr.Shows (weave painter size cursor left nodes) left := by
  -- The cursor and what is left change together; the text in front is done with.
  induction nodes generalizing cursor left with
  | nil => exact .of_escape_not_mem noEscape
  | cons node rest inductionHypothesis =>
      have proper : min node.span.start size ≤ min node.span.stop size := by
        have ordered := node.span.start_le_stop
        omega
      simp only [weave]
      -- Clipping keeps the two ends in order; nothing else about them matters.
      generalize min node.span.start size = start at proper ⊢
      generalize min node.span.stop size = stop at proper ⊢
      split
      · exact inductionHypothesis cursor noEscape
      next ahead =>
        have gap : Sgr.escape ∉ left.take (start - cursor) := by
          intro among
          exact noEscape (List.mem_of_mem_take among)
        have body : Sgr.escape ∉
            (Text.ofList ((left.drop (start - cursor)).take (stop - start))).toList := by
          rw [Text.toList_ofList]
          intro among
          exact noEscape (List.mem_of_mem_drop (List.mem_of_mem_take among))
        have behind : Sgr.escape ∉ left.drop (stop - cursor) := by
          intro among
          exact noEscape (List.mem_of_mem_drop among)
        have joined := ((Sgr.Shows.of_escape_not_mem gap).append
          (Painter.paint_shows styled node.kind body)).append
            (inductionHypothesis stop behind)
        rw [Text.toList_ofList, List.append_assoc _ _ (left.drop _),
          take_append_take_append_drop left (Nat.le_of_not_lt ahead) proper] at joined
        exact joined

end Highlight

/-- A highlighted query strips to the query, whatever its groups hold, when the query
has no escape characters and the styles are nothing but styling sequences, as the
standard ones are. -/
theorem stripStyling_highlight :
    Palette.standard.Styled ∧
      ∀ (painter : Painter) (query : Text) (groups : List (List Leaf)),
        painter.palette.Styled → Sgr.escape ∉ query.toList →
          stripStyling (highlight painter query groups) = query := by
  refine ⟨Palette.standard_styled, ?_⟩
  intro painter query groups styled noEscape
  have shown := Highlight.weave_shows styled query.length 0 noEscape
    (sortBy (fun a b => a.span.le b.span) (Leaf.nodes groups))
  rw [stripStyling, highlight, Text.toList_ofList, shown.strip_eq, Text.ofList_toList]

theorem stripStyling_highlight_overlapping :
    Sgr.escape ∉ ("ls [0mx" : Text).toList ∧
      stripStyling
        (highlight {} "ls [0mx"
          [[.known ⟨⟨3, 40⟩, .argument "[0mx"⟩, .stray],
            [.known ⟨⟨0, 2⟩, .program ⟨"ls", "list"⟩⟩, .known ⟨⟨1, 4⟩, .pipe "|"⟩]]) =
        "ls [0mx" := by
  have noEscape : Sgr.escape ∉ ("ls [0mx" : Text).toList := by decide
  exact ⟨noEscape, stripStyling_highlight.2 {} _ _ Palette.standard_styled noEscape⟩

end ShellGloss
