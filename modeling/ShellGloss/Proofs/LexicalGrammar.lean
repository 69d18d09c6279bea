/-
Module: ShellGloss.Proofs.LexicalGrammar
Purpose: The lexical grammar of command lines, told by what may stand at a place
  and not by scanning, and the proof that the lexemes of a line are its only
  reading.
Imports: ShellGloss.Proofs.ScanRun, ShellGloss.Text.Slice
Main exports:
  Grammar.Atom, Grammar.Word, Grammar.Operator, Grammar.Reads, Grammar.located,
  Grammar.run_eq_ok_iff_reads, Grammar.Reads.unique,
  Grammar.lexemes_eq_ok_iff_only_reading
-/
import ShellGloss.Proofs.ScanRun
import ShellGloss.Text.Slice

namespace ShellGloss.Grammar

open Lexeme.Scan

/-!
Where a word goes on can depend on the character behind it: a redirection sign
stands for itself unless an `&` follows.  Every notion below is therefore one of
a text in front of `rest`, the other characters of the line.

A line is read as pieces: blanks, operators and words.  The pieces say nothing of
offsets; `located` counts them off.
-/

/-- The characters that never stand for themselves: those that operators are made
of, the escape and the quotes. -/
def reserved : List Glyph := ['&', '|', ';', '\\', '\x27', '\x22']

/-- The inside of a double-quoted run: a backslash takes the next character with
it. -/
inductive QuotedBody : List Glyph → Prop where
  | nil : QuotedBody []
  | escaped (c : Glyph) {rest : List Glyph} (more : QuotedBody rest) :
      QuotedBody ('\\' :: c :: rest)
  | plain {c : Glyph} {rest : List Glyph} (notQuote : c ≠ '\x22') (notEscape : c ≠ '\\')
      (more : QuotedBody rest) : QuotedBody (c :: rest)

/-- The atoms that words are made of. -/
inductive Atom : List Glyph → List Glyph → Prop where
  /-- `<&` or `>&`. -/
  | duplicate {c : Glyph} (redirects : c = '<' ∨ c = '>') (rest : List Glyph) :
      Atom [c, '&'] rest
  | escaped (c : Glyph) (rest : List Glyph) : Atom ['\\', c] rest
  | single {body : List Glyph} (closed : Glyph.char '\x27' ∉ body) (rest : List Glyph) :
      Atom ('\x27' :: (body ++ [.char '\x27'])) rest
  | double {body : List Glyph} (closed : QuotedBody body) (rest : List Glyph) :
      Atom ('\x22' :: (body ++ [.char '\x22'])) rest
  | plain {c : Glyph} {rest : List Glyph} (notBlank : Text.isBlank c = false)
      (notReserved : c ∉ reserved)
      (alone : ¬ ((c = '<' ∨ c = '>') ∧ rest.head? = some (.char '&'))) : Atom [c] rest

/-- Atoms one behind the other. -/
inductive Atoms : List Glyph → List Glyph → Prop where
  | nil (rest : List Glyph) : Atoms [] rest
  | cons {atom more rest : List Glyph} (head : Atom atom (more ++ rest))
      (tail : Atoms more rest) : Atoms (atom ++ more) rest

/-- A word: at least one atom, and no other atom right behind. -/
structure Word (text rest : List Glyph) : Prop where
  nonempty : text ≠ []
  atoms : Atoms text rest
  maximal : ∀ atom after, rest = atom ++ after → ¬ Atom atom after

/-- The control operators. -/
def operators : List (List Glyph) := [['&', '&'], ['|', '|'], [';'], ['&'], ['|']]

/-- An operator: the longest one at its place. -/
structure Operator (text rest : List Glyph) : Prop where
  listed : text ∈ operators
  longest : ∀ other ∈ operators, other <+: text ++ rest → other.length ≤ text.length

/-- What a line is read as. -/
inductive Piece where
  | blank (c : Glyph)
  | operator (text : List Glyph)
  | word (text : List Glyph)
deriving Repr, DecidableEq

/-- Pieces that do not begin with a word. -/
def StartsApart (pieces : List Piece) : Prop :=
  ∀ text others, pieces ≠ .word text :: others

/-- A line as pieces, each in its place and no two words side by side. -/
inductive Reads : List Glyph → List Piece → Prop where
  | nil : Reads [] []
  | blank {c : Glyph} {rest : List Glyph} {pieces : List Piece}
      (blank : Text.isBlank c = true) (more : Reads rest pieces) :
      Reads (c :: rest) (.blank c :: pieces)
  | operator {text rest : List Glyph} {pieces : List Piece} (operator : Operator text rest)
      (more : Reads rest pieces) : Reads (text ++ rest) (.operator text :: pieces)
  | word {text rest : List Glyph} {pieces : List Piece} (word : Word text rest)
      (apart : StartsApart pieces) (more : Reads rest pieces) :
      Reads (text ++ rest) (.word text :: pieces)

/-- The words and operators among some pieces, with the offsets at which they
stand. -/
def located (offset : Nat) : List Piece → List Lexeme
  | [] => []
  | .blank _ :: rest => located (offset + 1) rest
  | .operator text :: rest =>
      ⟨Text.ofList text, offset, true⟩ :: located (offset + text.length) rest
  | .word text :: rest =>
      ⟨Text.ofList text, offset, false⟩ :: located (offset + text.length) rest

/-- The piece of a word or an operator. -/
def Piece.ofLexeme (control : Bool) (text : List Glyph) : Piece :=
  if control then .operator text else .word text

theorem located_ofLexeme (offset : Nat) (control : Bool) (text : List Glyph)
    (others : List Piece) :
    located offset (.ofLexeme control text :: others) =
      ⟨Text.ofList text, offset, control⟩ :: located (offset + text.length) others := by
  cases control <;> rfl

/-! ### How pieces begin -/

/-- Characters at which no word goes on. -/
def Ends (rest : List Glyph) : Prop :=
  ∀ c ∈ rest.head?, Text.isBlank c = true ∨ isControl c = true

theorem isControl_eq_false {c : Glyph} (notReserved : c ∉ reserved) : isControl c = false := by
  simp only [reserved, List.mem_cons, not_or] at notReserved
  simp [isControl, notReserved]

/-- An atom begins with a character at which a word can go on. -/
theorem Atom.begins {text rest : List Glyph} (atom : Atom text rest) :
    ∃ c tail, text = c :: tail ∧ Text.isBlank c = false ∧ isControl c = false := by
  cases atom with
  | duplicate redirects =>
      refine ⟨_, _, rfl, ?_⟩
      rcases redirects with rfl | rfl <;> decide
  | escaped c => exact ⟨_, _, rfl, by decide⟩
  | single closed => exact ⟨_, _, rfl, by decide⟩
  | double closed => exact ⟨_, _, rfl, by decide⟩
  | plain notBlank notReserved alone =>
      exact ⟨_, _, rfl, notBlank, isControl_eq_false notReserved⟩

theorem not_ends_cons {c : Glyph} {tail : List Glyph} (notBlank : Text.isBlank c = false)
    (notControl : isControl c = false) : ¬ Ends (c :: tail) := by
  intro ends
  have first := ends c rfl
  simp [notBlank, notControl] at first

theorem Ends.no_atom {rest : List Glyph} (ends : Ends rest) :
    ∀ atom after, rest = atom ++ after → ¬ Atom atom after := by
  rintro atom after rfl isAtom
  obtain ⟨c, tail, rfl, notBlank, notControl⟩ := isAtom.begins
  exact not_ends_cons notBlank notControl ends

/-- A word begins as its first atom does. -/
theorem Word.begins {text rest : List Glyph} (word : Word text rest) :
    ∃ c tail, text = c :: tail ∧ Text.isBlank c = false ∧ isControl c = false := by
  cases word.atoms with
  | nil => exact absurd rfl word.nonempty
  | cons head tail =>
      obtain ⟨c, others, rfl, begins⟩ := head.begins
      exact ⟨c, _, rfl, begins⟩

theorem Operator.begins {text rest : List Glyph} (operator : Operator text rest) :
    ∃ c tail, text = c :: tail ∧ Text.isBlank c = false ∧ isControl c = true := by
  have listed := operator.listed
  simp only [operators, List.mem_cons, List.not_mem_nil, or_false] at listed
  rcases listed with rfl | rfl | rfl | rfl | rfl <;> exact ⟨_, _, rfl, by decide⟩

/-- Where a reading does not begin with a word, a word in front of it ends. -/
theorem Reads.ends {rest : List Glyph} {pieces : List Piece} (reads : Reads rest pieces)
    (apart : StartsApart pieces) : Ends rest := by
  intro c first
  cases reads with
  | nil => cases first
  | blank blank more =>
      cases first
      exact .inl blank
  | operator operator more =>
      obtain ⟨mark, tail, rfl, -, control⟩ := operator.begins
      cases first
      exact .inr control
  | word word _ more => exact absurd rfl (apart _ _)

/-- Where a word ends, a reading does not begin with one. -/
theorem Reads.startsApart {rest : List Glyph} {pieces : List Piece}
    (reads : Reads rest pieces) (ends : Ends rest) : StartsApart pieces := by
  rintro text others rfl
  cases reads with
  | word word _ more =>
      obtain ⟨c, tail, rfl, notBlank, notControl⟩ := word.begins
      exact not_ends_cons notBlank notControl ends

/-! ### The scanner accepts only what the grammar reads

`Owed` says of each state what the rest of the line must be like for the run to
succeed, and with which lexemes.  One character is the step lemma: what is owed
behind it, together with what it completes, is what was owed before.
-/

/-- What is still missing of a word in front of `rest`, by the mode it is in. -/
def Completes : Mode → List Glyph → List Glyph → Prop
  | .plain, more, rest => Atoms more rest
  | .redirect, more, rest =>
      (∃ tail, more = Glyph.char '&' :: tail ∧ Atoms tail rest) ∨
        ((more ++ rest).head? ≠ some (.char '&') ∧ Atoms more rest)
  | .escaped _, more, rest => ∃ c tail, more = c :: tail ∧ Atoms tail rest
  | .single _, more, rest =>
      ∃ body tail, more = body ++ .char '\x27' :: tail ∧ Glyph.char '\x27' ∉ body ∧ Atoms tail rest
  | .double _, more, rest =>
      ∃ body tail, more = body ++ .char '\x22' :: tail ∧ QuotedBody body ∧ Atoms tail rest
  | .doubleEscaped _, more, rest =>
      ∃ c body tail, more = c :: (body ++ .char '\x22' :: tail) ∧ QuotedBody body ∧ Atoms tail rest

/-- What is owed in a state at `offset` for the run to give `list`. -/
def Owed (offset : Nat) : State → List Glyph → List Lexeme → Prop
  | .between, chars, list => ∃ pieces, Reads chars pieces ∧ located offset pieces = list
  | .operator mark start, chars, list =>
      ∃ pieces, Reads (mark :: chars) pieces ∧ located start pieces = list
  | .word start read mode, chars, list =>
      ∃ more rest pieces, chars = more ++ rest ∧ Completes mode more rest ∧
        Reads rest pieces ∧ Ends rest ∧
        wordOf start (more.reverse ++ read) :: located (offset + more.length) pieces = list

/-- The first character of an atom, and what its mode still lacks. -/
theorem Completes.atoms {offset : Nat} {c : Glyph} {more rest : List Glyph}
    (notBlank : Text.isBlank c = false) (notControl : isControl c = false)
    (completes : Completes (modeAfter offset c) more rest) : Atoms (c :: more) rest := by
  unfold modeAfter at completes
  split at completes
  next isEscape =>
    obtain ⟨next, tail, rfl, atoms⟩ := completes
    subst isEscape
    exact .cons (.escaped next _) atoms
  split at completes
  next isSingle =>
    obtain ⟨body, tail, rfl, closed, atoms⟩ := completes
    subst isSingle
    have whole := Atoms.cons (.single closed _) atoms
    rwa [List.cons_append, List.append_assoc] at whole
  split at completes
  next isDouble =>
    obtain ⟨body, tail, rfl, closed, atoms⟩ := completes
    subst isDouble
    have whole := Atoms.cons (.double closed _) atoms
    rwa [List.cons_append, List.append_assoc] at whole
  next notEscape notSingle notDouble =>
    have notReserved : c ∉ reserved := by
      simp only [isControl, Bool.or_eq_false_iff, beq_eq_false_iff_ne] at notControl
      simp [reserved, notControl, notEscape, notSingle, notDouble]
    split at completes
    next redirects =>
      rcases completes with ⟨tail, rfl, atoms⟩ | ⟨different, atoms⟩
      · exact .cons (.duplicate redirects _) atoms
      · have alone : Atom [c] (more ++ rest) := by
          apply Atom.plain notBlank notReserved
          rintro ⟨-, follows⟩
          exact different follows
        exact .cons alone atoms
    next redirectsNot =>
      have alone : Atom [c] (more ++ rest) := by
        apply Atom.plain notBlank notReserved
        rintro ⟨redirects, -⟩
        exact redirectsNot redirects
      exact .cons alone completes

/-- Every operator but the doubled ones has one character. -/
theorem length_le_one_of_mem {other : List Glyph} (listed : other ∈ operators)
    (notAnd : other ≠ [Glyph.char '&', '&']) (notOr : other ≠ [Glyph.char '|', '|']) :
    other.length ≤ 1 := by
  simp only [operators, List.mem_cons, List.not_mem_nil, or_false, notAnd, notOr,
    false_or] at listed
  rcases listed with rfl | rfl | rfl <;> exact Nat.le_refl 1

theorem length_le_two_of_mem {other : List Glyph} (listed : other ∈ operators) :
    other.length ≤ 2 := by
  simp only [operators, List.mem_cons, List.not_mem_nil, or_false] at listed
  rcases listed with rfl | rfl | rfl | rfl | rfl <;> decide

theorem Operator.semicolon (rest : List Glyph) : Operator [';'] rest := by
  constructor
  · decide
  · intro other listed starts
    apply length_le_one_of_mem listed
    · rintro rfl
      simp at starts
    · rintro rfl
      simp at starts

theorem Operator.doubled {mark : Glyph} (doubles : mark = '&' ∨ mark = '|')
    (rest : List Glyph) : Operator [mark, mark] rest := by
  constructor
  · rcases doubles with rfl | rfl <;> decide
  · intro other listed _
    exact length_le_two_of_mem listed

/-- An operator character that is not doubled stands alone. -/
theorem Operator.undoubled {mark : Glyph} (doubles : mark = '&' ∨ mark = '|')
    {rest : List Glyph} (different : rest.head? ≠ some mark) : Operator [mark] rest := by
  constructor
  · rcases doubles with rfl | rfl <;> decide
  · intro other listed starts
    obtain ⟨tail, whole⟩ := starts
    apply length_le_one_of_mem listed
    · rintro rfl
      cases whole
      exact different rfl
    · rintro rfl
      cases whole
      exact different rfl

/-- What is owed behind a character read with nothing open. -/
theorem Owed.of_enter {offset : Nat} {c : Glyph} {chars : List Glyph} {others : List Lexeme}
    (owed : Owed (offset + 1) (enter offset c).2 chars others) :
    Owed offset .between (c :: chars) ((enter offset c).1 ++ others) := by
  rcases char_cases c with blank | rfl | doubles | ⟨notBlank, notControl⟩
  · rw [enter_blank blank] at owed ⊢
    obtain ⟨pieces, reads, rfl⟩ := owed
    exact ⟨.blank c :: pieces, .blank blank reads, rfl⟩
  · rw [enter_semicolon] at owed ⊢
    obtain ⟨pieces, reads, rfl⟩ := owed
    exact ⟨.operator [';'] :: pieces, .operator (.semicolon chars) reads, rfl⟩
  · rw [enter_mark doubles] at owed ⊢
    exact owed
  · rw [enter_char notBlank notControl] at owed ⊢
    obtain ⟨more, rest, pieces, rfl, completes, reads, ends, rfl⟩ := owed
    have atoms := completes.atoms notBlank notControl
    have word : Word (c :: more) rest := ⟨List.cons_ne_nil _ _, atoms, ends.no_atom⟩
    refine ⟨.word (c :: more) :: pieces, .word word (reads.startsApart ends) reads, ?_⟩
    simp [located, wordOf, Nat.add_assoc, Nat.add_comm 1]

/-- What is owed behind a character read inside a word, outside quotes. -/
theorem Owed.of_extend {offset start : Nat} {read : List Glyph} {c : Glyph}
    {chars : List Glyph} {others : List Lexeme}
    (owed : Owed (offset + 1) (extend offset start read c).2 chars others) :
    Owed offset (.word start read .plain) (c :: chars)
      ((extend offset start read c).1 ++ others) := by
  by_cases ends : Text.isBlank c = true ∨ isControl c = true
  · rw [extend_end ends] at owed ⊢
    obtain ⟨pieces, reads, located⟩ := owed.of_enter
    have endsHere : Ends (c :: chars) := by
      intro first isFirst
      cases isFirst
      exact ends
    refine ⟨[], c :: chars, pieces, rfl, .nil _, reads, endsHere, ?_⟩
    rw [List.cons_append, ← located]
    rfl
  · rw [not_or, Bool.not_eq_true, Bool.not_eq_true] at ends
    rw [extend_char ends.1 ends.2] at owed ⊢
    obtain ⟨more, rest, pieces, rfl, completes, reads, endsThere, rfl⟩ := owed
    refine ⟨c :: more, rest, pieces, rfl, completes.atoms ends.1 ends.2, reads, endsThere, ?_⟩
    simp [Nat.add_assoc, Nat.add_comm 1]

/-- A redirection sign that no `&` follows leaves nothing open. -/
theorem Owed.redirect {offset start : Nat} {read chars : List Glyph} {list : List Lexeme}
    (owed : Owed offset (.word start read .plain) chars list)
    (different : chars.head? ≠ some (.char '&')) :
    Owed offset (.word start read .redirect) chars list := by
  obtain ⟨more, rest, pieces, rfl, atoms, others⟩ := owed
  exact ⟨more, rest, pieces, rfl, .inr ⟨different, atoms⟩, others⟩

/-- One more character of an open word, when nothing is completed by it. -/
theorem Owed.of_word {offset start : Nat} {read : List Glyph} {mode next : Mode} {c : Glyph}
    {chars : List Glyph} {list : List Lexeme}
    (owed : Owed (offset + 1) (.word start (c :: read) next) chars list)
    (goesOn : ∀ more rest, Completes next more rest → Completes mode (c :: more) rest) :
    Owed offset (.word start read mode) (c :: chars) list := by
  obtain ⟨more, rest, pieces, rfl, completes, reads, ends, rfl⟩ := owed
  refine ⟨c :: more, rest, pieces, rfl, goesOn more rest completes, reads, ends, ?_⟩
  simp [Nat.add_assoc, Nat.add_comm 1]

/-- What is owed behind a character, and what it completes, was owed in front of
it. -/
theorem Owed.of_step {offset : Nat} {state : State} (sound : state.Sound offset) {c : Glyph}
    {chars : List Glyph} {others : List Lexeme}
    (owed : Owed (offset + 1) (step offset state c).2 chars others) :
    Owed offset state (c :: chars) ((step offset state c).1 ++ others) := by
  cases state with
  | between => exact owed.of_enter
  | operator mark start =>
      obtain ⟨doubles, rfl⟩ := sound
      simp only [step] at owed ⊢
      split at owed
      next same =>
        obtain ⟨pieces, reads, rfl⟩ := owed
        subst same
        rw [if_pos rfl]
        exact ⟨.operator [c, c] :: pieces, .operator (.doubled doubles chars) reads, rfl⟩
      next different =>
        obtain ⟨pieces, reads, placed⟩ := owed.of_enter
        rw [if_neg different]
        have alone : Operator [mark] (c :: chars) := by
          apply Operator.undoubled doubles
          intro first
          exact different (Option.some.inj first)
        refine ⟨.operator [mark] :: pieces, .operator alone reads, ?_⟩
        rw [List.cons_append, ← placed]
        rfl
  | word start read mode =>
      cases mode with
      | plain => exact owed.of_extend
      | redirect =>
          simp only [step] at owed ⊢
          split at owed
          next same =>
            subst same
            rw [if_pos rfl]
            apply owed.of_word
            intro more rest atoms
            exact .inl ⟨more, rfl, atoms⟩
          next different =>
            rw [if_neg different]
            apply owed.of_extend.redirect
            intro first
            exact different (Option.some.inj first)
      | escaped escape =>
          apply owed.of_word
          intro more rest atoms
          exact ⟨c, more, rfl, atoms⟩
      | single opened =>
          simp only [step] at owed ⊢
          apply owed.of_word
          intro more rest completes
          split at completes
          next closes =>
            subst closes
            exact ⟨[], more, rfl, List.not_mem_nil, completes⟩
          next inside =>
            obtain ⟨body, tail, rfl, closed, atoms⟩ := completes
            refine ⟨c :: body, tail, rfl, ?_, atoms⟩
            rintro (_ | ⟨_, among⟩)
            · exact inside rfl
            · exact closed among
      | double opened =>
          simp only [step] at owed ⊢
          apply owed.of_word
          intro more rest completes
          split at completes
          next closes =>
            subst closes
            exact ⟨[], more, rfl, .nil, completes⟩
          split at completes
          next escapes =>
            subst escapes
            obtain ⟨next, body, tail, rfl, closed, atoms⟩ := completes
            exact ⟨'\\' :: next :: body, tail, rfl, .escaped next closed, atoms⟩
          next notQuote notEscape =>
            obtain ⟨body, tail, rfl, closed, atoms⟩ := completes
            exact ⟨c :: body, tail, rfl, .plain notQuote notEscape closed, atoms⟩
      | doubleEscaped opened =>
          apply owed.of_word
          intro more rest completes
          obtain ⟨body, tail, rfl, closed, atoms⟩ := completes
          exact ⟨c, body, tail, rfl, closed, atoms⟩

/-- At the end of the line nothing more is owed. -/
theorem Owed.of_finish {offset : Nat} {state : State} (sound : state.Sound offset)
    {list : List Lexeme} (settled : finish state = .ok list) :
    Owed offset state [] list := by
  have endsHere : Ends [] := by
    intro c first
    cases first
  cases state with
  | between =>
      cases settled
      exact ⟨[], .nil, rfl⟩
  | operator mark start =>
      cases settled
      have alone : Operator [mark] [] := .undoubled sound.1 (by simp)
      exact ⟨[.operator [mark]], .operator alone .nil, rfl⟩
  | word start read mode =>
      cases mode with
      | plain =>
          cases settled
          exact ⟨[], [], [], rfl, .nil [], .nil, endsHere, rfl⟩
      | redirect =>
          cases settled
          have plain : Owed offset (.word start read .plain) [] [wordOf start read] :=
            ⟨[], [], [], rfl, .nil [], .nil, endsHere, rfl⟩
          exact plain.redirect (by simp)
      | escaped escape => cases settled
      | single opened => cases settled
      | double opened => cases settled
      | doubleEscaped opened => cases settled

/-- A run that succeeds has been given what its state owed. -/
theorem Owed.of_run {offset : Nat} {state : State} (sound : state.Sound offset)
    {chars : List Glyph} {list : List Lexeme} (closed : run offset state chars = .ok list) :
    Owed offset state chars list := by
  induction chars generalizing offset state list with
  | nil => exact .of_finish sound closed
  | cons c rest inductionHypothesis =>
      rw [run_cons] at closed
      rcases behind : run (offset + 1) (step offset state c).2 rest with error | others
      · rw [behind] at closed
        cases closed
      · rw [behind] at closed
        cases closed
        exact (inductionHypothesis (step_sound offset state c) behind).of_step sound

/-! ### The scanner accepts all that the grammar reads -/

theorem run_blank {c : Glyph} (blank : Text.isBlank c = true) (offset : Nat)
    (rest : List Glyph) :
    run offset .between (c :: rest) = run (offset + 1) .between rest := by
  have entered : step offset .between c = ([], .between) := enter_blank blank offset
  exact run_cons_of_silent entered rest

theorem run_mark {mark : Glyph} (doubles : mark = '&' ∨ mark = '|') (offset : Nat)
    (rest : List Glyph) :
    run offset .between (mark :: rest) = run (offset + 1) (.operator mark offset) rest := by
  have entered : step offset .between mark = ([], .operator mark offset) :=
    enter_mark doubles offset
  exact run_cons_of_silent entered rest

theorem run_doubled {mark : Glyph} (doubles : mark = '&' ∨ mark = '|') (offset : Nat)
    (rest : List Glyph) :
    run offset .between (mark :: mark :: rest) =
      (run (offset + 2) .between rest).map (operatorOf offset [mark, mark] :: ·) := by
  have stepped : step (offset + 1) (.operator mark offset) mark =
      ([operatorOf offset [mark, mark]], .between) := if_pos rfl
  rw [run_mark doubles, run_cons, stepped]
  rfl

theorem run_undoubled {mark : Glyph} (doubles : mark = '&' ∨ mark = '|')
    {rest : List Glyph} (different : rest.head? ≠ some mark) (offset : Nat) :
    run offset .between (mark :: rest) =
      (run (offset + 1) .between rest).map (operatorOf offset [mark] :: ·) := by
  rw [run_mark doubles]
  cases rest with
  | nil => rfl
  | cons c tail =>
      have notMark : c ≠ mark := by
        rintro rfl
        exact different rfl
      have stepped : step (offset + 1) (.operator mark offset) c =
          (operatorOf offset [mark] :: (enter (offset + 1) c).1, (enter (offset + 1) c).2) :=
        if_neg notMark
      have entered : step (offset + 1) .between c = enter (offset + 1) c := rfl
      rw [run_cons, run_cons, stepped, entered]
      cases run (offset + 1 + 1) (enter (offset + 1) c).2 tail with
      | error error => rfl
      | ok others => rfl

/-- The longest operator is not followed by a character that would double it. -/
theorem Operator.different {mark : Glyph} {rest : List Glyph} (operator : Operator [mark] rest)
    (listed : [mark, mark] ∈ operators) : rest.head? ≠ some mark := by
  intro same
  obtain ⟨tail, rfl⟩ := List.head?_eq_some_iff.mp same
  have shorter := operator.longest [mark, mark] listed (List.prefix_append [mark, mark] tail)
  exact absurd shorter (by simp)

/-- An operator is read up to its end. -/
theorem run_operator {text rest : List Glyph} (operator : Operator text rest) (offset : Nat) :
    run offset .between (text ++ rest) =
      (run (offset + text.length) .between rest).map (operatorOf offset text :: ·) := by
  have listed := operator.listed
  simp only [operators, List.mem_cons, List.not_mem_nil, or_false] at listed
  rcases listed with rfl | rfl | rfl | rfl | rfl
  · exact run_doubled (.inl rfl) offset rest
  · exact run_doubled (.inr rfl) offset rest
  · exact run_cons offset .between ';' rest
  · exact run_undoubled (.inl rfl) (operator.different (by decide)) offset
  · exact run_undoubled (.inr rfl) (operator.different (by decide)) offset

/-- A redirection sign that no `&` follows leaves nothing open. -/
theorem run_redirect {rest : List Glyph} (different : rest.head? ≠ some (.char '&'))
    (offset start : Nat) (read : List Glyph) :
    run offset (.word start read .redirect) rest = run offset (.word start read .plain) rest := by
  cases rest with
  | nil => rfl
  | cons c tail =>
      have notAmpersand : c ≠ '&' := by
        rintro rfl
        exact different rfl
      have stepped : step offset (.word start read .redirect) c =
          step offset (.word start read .plain) c := if_neg notAmpersand
      rw [run_cons, run_cons, stepped]

/-- Single quotes are read up to the closing quote. -/
theorem run_single {body : List Glyph} (closed : Glyph.char '\x27' ∉ body)
    (offset start opened : Nat) (read rest : List Glyph) :
    run offset (.word start read (.single opened)) (body ++ .char '\x27' :: rest) =
      run (offset + body.length + 1)
        (.word start ('\x27' :: (body.reverse ++ read)) .plain) rest := by
  induction body generalizing offset read with
  | nil => exact run_cons_of_silent rfl rest
  | cons c others inductionHypothesis =>
      rw [List.mem_cons, not_or] at closed
      have inside : step offset (.word start read (.single opened)) c =
          ([], .word start (c :: read) (.single opened)) := by
        simp only [step, if_neg (Ne.symm closed.1)]
      rw [List.cons_append, run_cons_of_silent inside, inductionHypothesis closed.2]
      simp [Nat.add_assoc, Nat.add_comm 1]

/-- Double quotes are read up to the closing quote. -/
theorem run_double {body : List Glyph} (closed : QuotedBody body) (offset start opened : Nat)
    (read rest : List Glyph) :
    run offset (.word start read (.double opened)) (body ++ .char '\x22' :: rest) =
      run (offset + body.length + 1)
        (.word start ('\x22' :: (body.reverse ++ read)) .plain) rest := by
  induction closed generalizing offset read with
  | nil => exact run_cons_of_silent rfl rest
  | @escaped c others more inductionHypothesis =>
      have escapes : step offset (.word start read (.double opened)) '\\' =
          ([], .word start ('\\' :: read) (.doubleEscaped opened)) := rfl
      have inside : step (offset + 1) (.word start ('\\' :: read) (.doubleEscaped opened)) c =
          ([], .word start (c :: '\\' :: read) (.double opened)) := rfl
      rw [List.cons_append, List.cons_append, run_cons_of_silent escapes,
        run_cons_of_silent inside, inductionHypothesis]
      have places : offset + 1 + 1 + others.length = offset + (others.length + 1 + 1) := by
        omega
      simp [places]
  | @plain c _ notQuote notEscape more inductionHypothesis =>
      have inside : step offset (.word start read (.double opened)) c =
          ([], .word start (c :: read) (.double opened)) := by
        simp only [step, if_neg notQuote, if_neg notEscape]
      rw [List.cons_append, run_cons_of_silent inside, inductionHypothesis]
      simp [Nat.add_assoc, Nat.add_comm 1]

theorem modeAfter_of_not_mem_reserved {c : Glyph} (notReserved : c ∉ reserved)
    (offset : Nat) : modeAfter offset c = if c = '<' ∨ c = '>' then .redirect else .plain := by
  simp only [reserved, List.mem_cons, not_or] at notReserved
  simp [modeAfter, notReserved]

/-- An atom extends an open word by its characters and leaves nothing open. -/
theorem run_atom {text rest : List Glyph} (atom : Atom text rest) (offset start : Nat)
    (read : List Glyph) :
    run offset (.word start read .plain) (text ++ rest) =
      run (offset + text.length) (.word start (text.reverse ++ read) .plain) rest := by
  cases atom with
  | @duplicate c redirects =>
      have opens : step offset (.word start read .plain) c =
          ([], .word start (c :: read) .redirect) := by
        rcases redirects with rfl | rfl <;> rfl
      rw [List.cons_append, run_cons_of_silent opens]
      exact run_cons_of_silent rfl rest
  | escaped c =>
      rw [List.cons_append, run_cons_of_silent rfl]
      exact run_cons_of_silent rfl rest
  | @single body closed =>
      have places : offset + 1 + body.length + 1 = offset + (body.length + 1 + 1) := by omega
      rw [List.cons_append, List.append_assoc, run_cons_of_silent rfl]
      exact (run_single closed (offset + 1) start offset _ rest).trans (by simp [places])
  | @double body closed =>
      have places : offset + 1 + body.length + 1 = offset + (body.length + 1 + 1) := by omega
      rw [List.cons_append, List.append_assoc, run_cons_of_silent rfl]
      exact (run_double closed (offset + 1) start offset _ rest).trans (by simp [places])
  | @plain c rest notBlank notReserved alone =>
      have stepped : step offset (.word start read .plain) c =
          ([], .word start (c :: read) (modeAfter offset c)) :=
        extend_char notBlank (isControl_eq_false notReserved) offset start read
      rw [List.cons_append, run_cons_of_silent stepped,
        modeAfter_of_not_mem_reserved notReserved]
      split
      next redirects =>
        apply run_redirect
        intro follows
        exact alone ⟨redirects, follows⟩
      · rfl

theorem run_atoms {text rest : List Glyph} (atoms : Atoms text rest) (offset start : Nat)
    (read : List Glyph) :
    run offset (.word start read .plain) (text ++ rest) =
      run (offset + text.length) (.word start (text.reverse ++ read) .plain) rest := by
  induction atoms generalizing offset read with
  | nil => rfl
  | cons head tail inductionHypothesis =>
      rw [List.append_assoc, run_atom head, inductionHypothesis]
      simp [Nat.add_assoc]

/-- Where a word ends, it is completed and what follows is read with nothing
open. -/
theorem run_ends {rest : List Glyph} (ends : Ends rest) (offset start : Nat)
    (read : List Glyph) :
    run offset (.word start read .plain) rest =
      (run offset .between rest).map (wordOf start read :: ·) := by
  cases rest with
  | nil => rfl
  | cons c tail =>
      have stepped : step offset (.word start read .plain) c =
          (wordOf start read :: (enter offset c).1, (enter offset c).2) :=
        extend_end (ends c rfl) offset start read
      have entered : step offset .between c = enter offset c := rfl
      rw [run_cons, run_cons, stepped, entered]
      cases run (offset + 1) (enter offset c).2 tail with
      | error error => rfl
      | ok others => rfl

/-- With nothing open, a word is read as the rest of an empty one. -/
theorem run_word {text rest : List Glyph} (word : Word text rest) (ends : Ends rest)
    (offset : Nat) :
    run offset .between (text ++ rest) =
      (run (offset + text.length) .between rest).map
        (⟨Text.ofList text, offset, false⟩ :: ·) := by
  have opened : run offset .between (text ++ rest) =
      run offset (.word offset [] .plain) (text ++ rest) := by
    obtain ⟨c, tail, rfl, notBlank, notControl⟩ := word.begins
    have stepped : step offset (.word offset [] .plain) c = step offset .between c :=
      (extend_char notBlank notControl offset offset []).trans
        (enter_char notBlank notControl offset).symm
    rw [List.cons_append, run_cons, run_cons, stepped]
  rw [opened, run_atoms word.atoms, run_ends ends, wordOf, List.append_nil,
    List.reverse_reverse]

/-- A line that the grammar reads has the lexemes of its pieces. -/
theorem Reads.run_eq {chars : List Glyph} {pieces : List Piece} (reads : Reads chars pieces)
    (offset : Nat) : run offset .between chars = .ok (located offset pieces) := by
  induction reads generalizing offset with
  | nil => rfl
  | blank blank more inductionHypothesis =>
      rw [run_blank blank, inductionHypothesis]
      rfl
  | operator operator more inductionHypothesis =>
      rw [run_operator operator, inductionHypothesis]
      rfl
  | word word apart more inductionHypothesis =>
      rw [run_word word (more.ends apart), inductionHypothesis]
      rfl

/-- The scanner succeeds on the lines that the grammar reads, with their lexemes. -/
theorem run_eq_ok_iff_reads {offset : Nat} {chars : List Glyph} {list : List Lexeme} :
    run offset .between chars = .ok list ↔
      ∃ pieces, Reads chars pieces ∧ located offset pieces = list := by
  constructor
  · intro closed
    have fresh : State.between.Sound offset := trivial
    exact Owed.of_run fresh closed
  · rintro ⟨pieces, reads, rfl⟩
    exact reads.run_eq offset

/-! ### A line has one reading

Two readings of one line have the same lexemes, because both tell what the
scanner answers.  So they agree on the first word or operator, and the blanks in
front of it are plain to see.
-/

theorem Reads.located_eq {chars : List Glyph} {one two : List Piece}
    (first : Reads chars one) (second : Reads chars two) (offset : Nat) :
    located offset one = located offset two :=
  Except.ok.inj ((first.run_eq offset).symm.trans (second.run_eq offset))

theorem Reads.nil_inv {pieces : List Piece} (reads : Reads [] pieces) : pieces = [] := by
  generalize nothing : [] = chars at reads
  cases reads with
  | nil => rfl
  | blank _ more => cases nothing
  | operator operator more =>
      obtain ⟨mark, tail, rfl, -⟩ := operator.begins
      cases nothing
  | word word _ more =>
      obtain ⟨c, tail, rfl, -⟩ := word.begins
      cases nothing

/-- Only a blank reads as a blank. -/
theorem Reads.blank_inv {c : Glyph} {rest : List Glyph} {pieces : List Piece}
    (reads : Reads (c :: rest) pieces) (blank : Text.isBlank c = true) :
    ∃ others, pieces = .blank c :: others ∧ Reads rest others := by
  generalize whole : c :: rest = chars at reads
  cases reads with
  | nil => cases whole
  | blank _ more =>
      cases whole
      exact ⟨_, rfl, more⟩
  | operator operator more =>
      obtain ⟨mark, tail, rfl, notBlank, -⟩ := operator.begins
      cases whole
      rw [blank] at notBlank
      cases notBlank
  | word word _ more =>
      obtain ⟨first, tail, rfl, notBlank, -⟩ := word.begins
      cases whole
      rw [blank] at notBlank
      cases notBlank

/-- Any other character begins a word or an operator. -/
theorem Reads.lexeme_inv {c : Glyph} {tail : List Glyph} {pieces : List Piece}
    (reads : Reads (c :: tail) pieces) (notBlank : Text.isBlank c = false) :
    ∃ control text rest others, c :: tail = text ++ rest ∧
      pieces = .ofLexeme control text :: others ∧ Reads rest others := by
  generalize whole : c :: tail = chars at reads
  cases reads with
  | nil => cases whole
  | blank blank more =>
      cases whole
      rw [blank] at notBlank
      cases notBlank
  | operator operator more => exact ⟨true, _, _, _, rfl, rfl, more⟩
  | word word _ more => exact ⟨false, _, _, _, rfl, rfl, more⟩

/-- No line has two readings. -/
theorem Reads.unique {chars : List Glyph} {one two : List Piece} (first : Reads chars one)
    (second : Reads chars two) : one = two := by
  induction one generalizing chars two with
  | nil =>
      cases first
      exact second.nil_inv.symm
  | cons piece pieces inductionHypothesis =>
      cases chars with
      | nil => cases first.nil_inv
      | cons c tail =>
          cases blank : Text.isBlank c with
          | true =>
              obtain ⟨_, here, moreHere⟩ := first.blank_inv blank
              obtain ⟨others, rfl, more⟩ := second.blank_inv blank
              cases here
              rw [inductionHypothesis moreHere more]
          | false =>
              have placed := first.located_eq second 0
              obtain ⟨control, text, rest, _, whole, here, moreHere⟩ := first.lexeme_inv blank
              obtain ⟨sameControl, same, sameRest, others, sameWhole, rfl, more⟩ :=
                second.lexeme_inv blank
              cases here
              rw [located_ofLexeme, located_ofLexeme] at placed
              obtain ⟨sameLexeme, -⟩ := List.cons.inj placed
              obtain ⟨sameText, -, rfl⟩ := Lexeme.mk.inj sameLexeme
              obtain rfl : text = same := Text.ofList_inj.mp sameText
              obtain rfl : rest = sameRest :=
                List.append_cancel_left (whole.symm.trans sameWhole)
              rw [inductionHypothesis moreHere more]

/-! ### Places in the line -/

/-- Induction over a reading in which words and operators need not be told apart:
each is some text, not empty, in front of the rest. -/
theorem Reads.layout {motive : (chars : List Glyph) → (pieces : List Piece) →
      Reads chars pieces → Prop}
    (nil : motive [] [] .nil)
    (blank : ∀ {c rest pieces} (isBlank : Text.isBlank c = true) (more : Reads rest pieces),
      motive rest pieces more → motive (c :: rest) (.blank c :: pieces) (.blank isBlank more))
    (lexeme : ∀ {control text rest pieces}
      (whole : Reads (text ++ rest) (.ofLexeme control text :: pieces))
      (more : Reads rest pieces), text ≠ [] → motive rest pieces more →
      motive (text ++ rest) (.ofLexeme control text :: pieces) whole)
    {chars : List Glyph} {pieces : List Piece} (reads : Reads chars pieces) :
    motive chars pieces reads := by
  induction reads with
  | nil => exact nil
  | blank isBlank more inductionHypothesis => exact blank isBlank more inductionHypothesis
  | operator operator more inductionHypothesis =>
      obtain ⟨mark, tail, rfl, -⟩ := operator.begins
      have whole : Reads _ (.ofLexeme true (mark :: tail) :: _) := .operator operator more
      exact lexeme whole more (List.cons_ne_nil mark tail) inductionHypothesis
  | @word text _ _ word apart more inductionHypothesis =>
      have whole : Reads _ (.ofLexeme false text :: _) := .word word apart more
      exact lexeme whole more word.nonempty inductionHypothesis

/-- Each lexeme is what the line holds from its start to its stop. -/
theorem Reads.sliceChars_eq {chars : List Glyph} {pieces : List Piece}
    (reads : Reads chars pieces) (front : List Glyph) :
    ∀ lexeme ∈ located front.length pieces,
      Text.sliceChars (front ++ chars) lexeme.start lexeme.stop = lexeme.text.toList := by
  -- `front` is what has been read; each piece goes over to it.
  induction reads using Reads.layout generalizing front with
  | nil =>
      intro lexeme among
      cases among
  | @blank c rest pieces isBlank more inductionHypothesis =>
      have behind := inductionHypothesis (front ++ [c])
      simpa [located] using behind
  | @lexeme control text rest pieces whole more nonempty inductionHypothesis =>
      have behind := inductionHypothesis (front ++ text)
      rw [List.append_assoc, List.length_append] at behind
      rw [located_ofLexeme, List.forall_mem_cons]
      refine ⟨?_, behind⟩
      simp [Text.sliceChars, Lexeme.stop, List.take_append]

/-- The lexemes of a line are the words and operators of its only reading: they
exist if the grammar reads the line, they stand in their order and at their
offsets, and their texts are what the line holds there. -/
theorem lexemes_eq_ok_iff_only_reading (query : Text) :
    (∀ list, lexemes query = .ok list ↔
      ∃ pieces, Reads query.toList pieces ∧ located 0 pieces = list) ∧
    (∀ one two, Reads query.toList one → Reads query.toList two → one = two) ∧
    (∀ list, lexemes query = .ok list →
      ∀ lexeme ∈ list, lexeme.text = Text.slice query lexeme.start lexeme.stop) := by
  refine ⟨?_, ?_, ?_⟩
  · intro list
    exact run_eq_ok_iff_reads
  · intro one two first second
    exact first.unique second
  · intro list closed lexeme among
    obtain ⟨pieces, reads, rfl⟩ := run_eq_ok_iff_reads.mp closed
    have slice := reads.sliceChars_eq [] lexeme among
    rw [Text.slice, ← List.nil_append query.toList, slice, Text.ofList_toList]

theorem only_reading_redirect :
    ∃ pieces, Reads ("a 2>&1&&'b c'" : Text).toList pieces ∧
      located 0 pieces =
        [⟨"a", 0, false⟩, ⟨"2>&1", 2, false⟩, ⟨"&&", 6, true⟩, ⟨"'b c'", 8, false⟩] := by
  have closed : lexemes "a 2>&1&&'b c'" =
      .ok [⟨"a", 0, false⟩, ⟨"2>&1", 2, false⟩, ⟨"&&", 6, true⟩, ⟨"'b c'", 8, false⟩] := rfl
  exact ((lexemes_eq_ok_iff_only_reading "a 2>&1&&'b c'").1 _).mp closed

end ShellGloss.Grammar
