/-
Module: ShellGloss.Proofs.SpacedLine
Purpose: A command line and its lexemes with single blanks between them are read alike:
  the lexemes are the same, and the groups only move with them.
Imports: Mathlib.Data.List.Forall2, ShellGloss.Catalog.Bundled,
  ShellGloss.Proofs.CommandSequence
Main exports:
  Grammar.Reads.lexemes_alone, Lexeme.spaced, lexemes_joinWith, Node.MovedBy,
  Line.step_movedBy, Line.groups_movedBy, parse_spaced
-/
import Mathlib.Data.List.Forall2
import ShellGloss.Catalog.Bundled
import ShellGloss.Proofs.CommandSequence

namespace ShellGloss

/-! ### Each lexeme by itself

What stands behind a word can change how its last characters are read only if it is an `&`,
which a redirection sign at the end would take in.  Neither a blank nor the end of the line
is one.
-/

namespace Grammar

/-- An atom keeps its reading when what follows it begins alike or without an `&`. -/
theorem Atom.in_front_of {text more rest other : List Glyph} (atom : Atom text (more ++ rest))
    (different : other.head? ≠ some (.char '&')) : Atom text (more ++ other) := by
  generalize behind : more ++ rest = follow at atom
  cases atom with
  | duplicate redirects => exact .duplicate redirects _
  | escaped c => exact .escaped c _
  | single closed => exact .single closed _
  | double closed => exact .double closed _
  | plain notBlank notReserved alone =>
      refine .plain notBlank notReserved ?_
      rintro ⟨redirects, follows⟩
      cases more with
      | nil => exact different follows
      | cons c tail =>
          subst behind
          exact alone ⟨redirects, follows⟩

theorem Atoms.in_front_of {text rest other : List Glyph} (atoms : Atoms text rest)
    (different : other.head? ≠ some (.char '&')) : Atoms text other := by
  induction atoms with
  | nil => exact .nil other
  | cons head tail inductionHypothesis =>
      exact .cons (head.in_front_of different) inductionHypothesis

/-- A word of a line is a word at the end of one. -/
theorem Word.at_end {text rest : List Glyph} (word : Word text rest) : Word text [] := by
  have ends : Ends [] := by
    intro c first
    cases first
  exact ⟨word.nonempty, word.atoms.in_front_of (by simp), ends.no_atom⟩

/-- A line of one word. -/
theorem Word.lexemes_eq {text rest : List Glyph} (word : Word text rest) :
    lexemes (Text.ofList text) = .ok [⟨Text.ofList text, 0, false⟩] := by
  have apart : StartsApart [] := by
    rintro text others ⟨⟩
  have reads := Reads.word word.at_end apart .nil
  rw [List.append_nil] at reads
  rw [lexemes, Text.toList_ofList, reads.run_eq]
  rfl

/-- Every lexeme of a line is the only one of its own text. -/
theorem Reads.lexemes_alone {chars : List Glyph} {pieces : List Piece}
    (reads : Reads chars pieces) (offset : Nat) :
    ∀ lexeme ∈ located offset pieces,
      lexemes lexeme.text = .ok [⟨lexeme.text, 0, lexeme.control⟩] := by
  induction reads generalizing offset with
  | nil => simp [located]
  | blank blank more inductionHypothesis => exact inductionHypothesis (offset + 1)
  | @operator text rest pieces operator more inductionHypothesis =>
      have listed : (Text.ofList text).toList ∈ operators := by
        rw [Text.toList_ofList]
        exact operator.listed
      exact List.forall_mem_cons.mpr
        ⟨lexemes_operator listed, inductionHypothesis (offset + text.length)⟩
  | @word text rest pieces word apart more inductionHypothesis =>
      exact List.forall_mem_cons.mpr
        ⟨word.lexemes_eq, inductionHypothesis (offset + text.length)⟩

end Grammar

/-! ### The lexemes with single blanks between them -/

/-- The same lexemes from an offset on, one blank between neighbours. -/
def Lexeme.spaced (offset : Nat) : List Lexeme → List Lexeme
  | [] => []
  | lexeme :: rest =>
      { lexeme with start := offset } :: spaced (offset + lexeme.text.length + 1) rest

theorem Lexeme.map_shift_spaced (distance offset : Nat) (list : List Lexeme) :
    (spaced offset list).map (Lexeme.shift distance) = spaced (offset + distance) list := by
  induction list generalizing offset with
  | nil => rfl
  | cons lexeme rest inductionHypothesis =>
      have places : offset + lexeme.text.length + 1 + distance =
          offset + distance + lexeme.text.length + 1 := by omega
      rw [spaced, List.map_cons, inductionHypothesis, places]
      rfl

theorem Lexeme.map_spaced (offset : Nat) (list : List Lexeme) :
    ((spaced offset list).map fun lexeme => (lexeme.text, lexeme.control)) =
      list.map fun lexeme => (lexeme.text, lexeme.control) := by
  induction list generalizing offset with
  | nil => rfl
  | cons lexeme rest inductionHypothesis =>
      rw [spaced, List.map_cons, List.map_cons, inductionHypothesis]

theorem Lexeme.all_control_spaced (offset : Nat) (list : List Lexeme) :
    (spaced offset list).all (·.control) = list.all (·.control) := by
  have controls := congrArg (List.all · Prod.snd) (map_spaced offset list)
  simpa only [List.all_map, Function.comp_def] using controls

/-- Texts that are one lexeme each, with single blanks between them, are these lexemes. -/
theorem lexemes_joinWith {list : List Lexeme}
    (alone : ∀ lexeme ∈ list, lexemes lexeme.text = .ok [⟨lexeme.text, 0, lexeme.control⟩]) :
    lexemes (Text.joinWith " " (list.map Lexeme.text)) = .ok (Lexeme.spaced 0 list) := by
  induction list with
  | nil => rfl
  | cons lexeme rest inductionHypothesis =>
      obtain ⟨here, others⟩ := List.forall_mem_cons.mp alone
      cases rest with
      | nil => exact here
      | cons next rest =>
          have space : Text.isBlank ' ' = true := by decide
          have joined := lexemes_append_blank here space
            (Text.joinWith " " ((next :: rest).map Lexeme.text))
          rw [inductionHypothesis others] at joined
          refine joined.trans ?_
          simp only [Lexeme.Scan.shiftAnswer, Except.map, Lexeme.map_shift_spaced]
          simp [Lexeme.spaced, Nat.add_assoc, Nat.add_comm 1]

/-! ### Groups move with their lexemes -/

/-- The same text and kind of lexeme, perhaps elsewhere. -/
def Lexeme.Alike (one two : Lexeme) : Prop := one.text = two.text ∧ one.control = two.control

/-- A node that says the same of a span of the same length, further on by a distance that may
be negative. -/
def Node.MovedBy (distance : Int) (one two : Node) : Prop :=
  two.content = one.content ∧ two.span.length = one.span.length ∧
    (two.span.start : Int) = one.span.start + distance

theorem Node.shift_movedBy (here there : Nat) (node : Node) :
    Node.MovedBy ((there : Int) - here) (node.shift here) (node.shift there) := by
  refine ⟨rfl, rfl, ?_⟩
  simp only [Node.shift, Span.shift]
  omega

theorem Lexeme.spaced_alike (offset : Nat) (list : List Lexeme) :
    List.Forall₂ Lexeme.Alike list (Lexeme.spaced offset list) := by
  induction list generalizing offset with
  | nil => exact .nil
  | cons lexeme rest inductionHypothesis => exact .cons ⟨rfl, rfl⟩ (inductionHypothesis _)

namespace Line

/-- One lexeme in two places: its group moves by the way between them, and the progress
behind it is the same. -/
theorem step_movedBy (catalog : Catalog) (progress : Progress) {one two : Lexeme}
    (alike : one.Alike two) :
    List.Forall₂ (Node.MovedBy ((two.start : Int) - one.start))
        (step catalog progress one).1 (step catalog progress two).1 ∧
      (step catalog progress one).2 = (step catalog progress two).2 := by
  -- Both are the lexeme at the beginning of a line, moved to its place.
  let first : Lexeme := { one with start := 0 }
  have oneMoved : one = first.shift one.start := by
    simp [first, Lexeme.shift]
  have twoMoved : two = first.shift two.start := by
    obtain ⟨sameText, sameControl⟩ := alike
    simp [first, Lexeme.shift, sameText, sameControl]
  have oneStep := step_shift catalog progress one.start first
  have twoStep := step_shift catalog progress two.start first
  rw [← oneMoved] at oneStep
  rw [← twoMoved] at twoStep
  rw [oneStep, twoStep]
  refine ⟨?_, rfl⟩
  simp only [shiftGroup, List.forall₂_map_left_iff, List.forall₂_map_right_iff]
  rw [List.forall₂_same]
  intro node _
  exact node.shift_movedBy one.start two.start

/-- Lexemes that are alike one by one: each group moves with its lexeme. -/
theorem groups_movedBy (catalog : Catalog) {progress : Progress} {first second : List Lexeme}
    (alike : List.Forall₂ Lexeme.Alike first second) {index : Nat} {one two : Lexeme}
    {oneGroup twoGroup : List Node} (oneAt : first[index]? = some one)
    (twoAt : second[index]? = some two)
    (oneGroupAt : (groups catalog progress first)[index]? = some oneGroup)
    (twoGroupAt : (groups catalog progress second)[index]? = some twoGroup) :
    List.Forall₂ (Node.MovedBy ((two.start : Int) - one.start)) oneGroup twoGroup := by
  induction alike generalizing progress index with
  | nil => cases oneAt
  | cons here others inductionHypothesis =>
      obtain ⟨moved, next⟩ := step_movedBy catalog progress here
      cases index with
      | zero =>
          cases oneAt
          cases twoAt
          cases oneGroupAt
          cases twoGroupAt
          exact moved
      | succ index =>
          rw [groups, List.getElem?_cons_succ] at oneGroupAt twoGroupAt
          rw [← next] at twoGroupAt
          exact inductionHypothesis oneAt twoAt oneGroupAt twoGroupAt

end Line

/-- The texts of a line's lexemes with single blanks between them have the same lexemes and
the same groups, each moved with its lexeme. -/
theorem parse_spaced {query : Text} {list : List Lexeme} (closed : lexemes query = .ok list) :
    ∃ spaced,
      lexemes (Text.joinWith " " (list.map Lexeme.text)) = .ok spaced ∧
      (spaced.map fun lexeme => (lexeme.text, lexeme.control)) =
        (list.map fun lexeme => (lexeme.text, lexeme.control)) ∧
      ∀ catalog,
        (parse catalog (Text.joinWith " " (list.map Lexeme.text)) = none ↔
          parse catalog query = none) ∧
        ∀ groups, parse catalog query = some groups →
          groups.length = list.length ∧
          ∃ moved, parse catalog (Text.joinWith " " (list.map Lexeme.text)) = some moved ∧
            moved.length = groups.length ∧
            ∀ (index : Nat) (one two : Lexeme) (oneGroup twoGroup : List Node),
              list[index]? = some one → spaced[index]? = some two →
                groups[index]? = some oneGroup → moved[index]? = some twoGroup →
                  List.Forall₂ (Node.MovedBy ((two.start : Int) - one.start)) oneGroup
                    twoGroup := by
  have alone : ∀ lexeme ∈ list,
      lexemes lexeme.text = .ok [⟨lexeme.text, 0, lexeme.control⟩] := by
    obtain ⟨pieces, reads, rfl⟩ := Grammar.run_eq_ok_iff_reads.mp closed
    exact reads.lexemes_alone 0
  have spacedClosed := lexemes_joinWith alone
  have alike := Lexeme.spaced_alike 0 list
  have sameControls := Lexeme.all_control_spaced 0 list
  refine ⟨Lexeme.spaced 0 list, spacedClosed, Lexeme.map_spaced 0 list, fun catalog => ⟨?_, ?_⟩⟩
  · simp only [parse, closed, spacedClosed, sameControls]
    split
    · exact iff_of_true rfl rfl
    · exact iff_of_false (Option.some_ne_none _) (Option.some_ne_none _)
  · intro groups parsed
    obtain ⟨_, closed', notOnlyControl, rfl⟩ := parse_eq_some_iff.mp parsed
    cases closed.symm.trans closed'
    refine ⟨Line.length_groups .., _,
      parse_eq_some_iff.mpr ⟨_, spacedClosed, sameControls.trans notOnlyControl, rfl⟩, ?_, ?_⟩
    · rw [Line.length_groups, Line.length_groups, alike.length_eq]
    · intro index one two oneGroup twoGroup oneAt twoAt oneGroupAt twoGroupAt
      exact Line.groups_movedBy catalog alike oneAt twoAt oneGroupAt twoGroupAt

/-- The sign at the end of the first word would take in an `&` behind it, and the value of
`-xf` ends in an escaped blank.  The last group moves by the three blanks in front of it
that the line did not have. -/
theorem parse_spaced_tight_operators :
    ∃ list,
      lexemes "ls<||tar  -xf 'a b'\\ &x" = .ok list ∧
      Text.joinWith " " (list.map Lexeme.text) = "ls< || tar -xf 'a b'\\  & x" ∧
      ∃ spaced,
        lexemes "ls< || tar -xf 'a b'\\  & x" = .ok spaced ∧
        (spaced.map fun lexeme => (lexeme.text, lexeme.control)) =
          (list.map fun lexeme => (lexeme.text, lexeme.control)) ∧
        ∃ groups moved, parse Catalog.bundled "ls<||tar  -xf 'a b'\\ &x" = some groups ∧
          parse Catalog.bundled "ls< || tar -xf 'a b'\\  & x" = some moved ∧
          moved.length = groups.length ∧
          ∀ oneGroup twoGroup, groups[6]? = some oneGroup → moved[6]? = some twoGroup →
            List.Forall₂ (Node.MovedBy 3) oneGroup twoGroup := by
  have closed : lexemes "ls<||tar  -xf 'a b'\\ &x" =
      .ok [⟨"ls<", 0, false⟩, ⟨"||", 3, true⟩, ⟨"tar", 5, false⟩, ⟨"-xf", 10, false⟩,
        ⟨"'a b'\\ ", 14, false⟩, ⟨"&", 21, true⟩, ⟨"x", 22, false⟩] := by rfl
  have apart : lexemes "ls< || tar -xf 'a b'\\  & x" =
      .ok [⟨"ls<", 0, false⟩, ⟨"||", 4, true⟩, ⟨"tar", 7, false⟩, ⟨"-xf", 11, false⟩,
        ⟨"'a b'\\ ", 15, false⟩, ⟨"&", 23, true⟩, ⟨"x", 25, false⟩] := by rfl
  have answered : (parse Catalog.bundled "ls<||tar  -xf 'a b'\\ &x").isSome = true := by
    decide +kernel
  obtain ⟨groups, parsed⟩ := Option.isSome_iff_exists.mp answered
  obtain ⟨spaced, spacedClosed, sameTexts, read⟩ := parse_spaced closed
  obtain ⟨-, moved, movedParsed, sameLength, movedBy⟩ := (read Catalog.bundled).2 groups parsed
  cases apart.symm.trans spacedClosed
  refine ⟨_, closed, rfl, _, apart, sameTexts, groups, moved, parsed, movedParsed, sameLength, ?_⟩
  intro oneGroup twoGroup oneAt twoAt
  exact movedBy 6 _ _ _ _ rfl rfl oneAt twoAt

end ShellGloss
