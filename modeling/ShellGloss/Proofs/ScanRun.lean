/-
Module: ShellGloss.Proofs.ScanRun
Purpose: Laws of a run of the scanner: how it goes on behind a first part, how it
  moves with the line, and what a separator makes of an open state.
Imports: ShellGloss.Lexeme
Main exports:
  Lexeme.Scan.run_cons, Lexeme.Scan.feed, Lexeme.Scan.run_append,
  Lexeme.Scan.run_shift, Lexeme.Scan.step_separator, lexemes_append_separator,
  lexemes_append_blank
-/
import ShellGloss.Lexeme

namespace ShellGloss

namespace Lexeme.Scan

/-!
A run ends in the lexemes of the whole line or in an error.  To talk about the
first part of a line alone, `feed` keeps what its characters complete apart from
the state that they leave, so a line in two parts is two runs with the state
handed over.  Offsets enter a run only by addition, hence the same line further
to the right gives the same lexemes further to the right.
-/

/-- A run is the run behind its first character, with the lexemes that this
character completes in front. -/
theorem run_cons (offset : Nat) (state : State) (c : Glyph) (rest : List Glyph) :
    run offset state (c :: rest) =
      (run (offset + 1) (step offset state c).2 rest).map
        ((step offset state c).1 ++ ·) := by
  rw [run]
  rcases step offset state c with ⟨out, next⟩
  dsimp only
  cases run (offset + 1) next rest with
  | error error => rfl
  | ok others => rfl

/-- A character that completes nothing only changes the state. -/
theorem run_cons_of_silent {offset : Nat} {state next : State} {c : Glyph}
    (silent : step offset state c = ([], next)) (rest : List Glyph) :
    run offset state (c :: rest) = run (offset + 1) next rest := by
  rw [run_cons, silent]
  cases run (offset + 1) next rest with
  | error error => rfl
  | ok others => rfl

/-! ### One character, by what it is -/

/-- Every character separates words, is an operator by itself, may be doubled, or
belongs to a word. -/
theorem char_cases (c : Glyph) :
    Text.isBlank c = true ∨ c = ';' ∨ (c = '&' ∨ c = '|') ∨
      (Text.isBlank c = false ∧ isControl c = false) := by
  cases blank : Text.isBlank c with
  | true => exact .inl rfl
  | false =>
      cases control : isControl c with
      | true =>
          simp only [isControl, Bool.or_eq_true, beq_iff_eq] at control
          rcases control with marks | semicolon
          · exact .inr (.inr (.inl marks))
          · exact .inr (.inl semicolon)
      | false => exact .inr (.inr (.inr ⟨rfl, rfl⟩))

theorem enter_blank {c : Glyph} (blank : Text.isBlank c = true) (offset : Nat) :
    enter offset c = ([], .between) := by
  simp [enter, blank]

theorem enter_semicolon (offset : Nat) :
    enter offset ';' = ([operatorOf offset [';']], .between) := rfl

theorem enter_mark {mark : Glyph} (doubles : mark = '&' ∨ mark = '|') (offset : Nat) :
    enter offset mark = ([], .operator mark offset) := by
  rcases doubles with rfl | rfl <;> rfl

theorem enter_char {c : Glyph} (notBlank : Text.isBlank c = false)
    (notControl : isControl c = false) (offset : Nat) :
    enter offset c = ([], .word offset [c] (modeAfter offset c)) := by
  have notSemicolon : c ≠ ';' := by
    rintro rfl
    exact absurd notControl (by decide)
  simp [enter, notBlank, notControl, notSemicolon]

theorem extend_end {c : Glyph} (ends : Text.isBlank c = true ∨ isControl c = true)
    (offset start : Nat) (read : List Glyph) :
    extend offset start read c =
      (wordOf start read :: (enter offset c).1, (enter offset c).2) := by
  simp [extend, ends]

theorem extend_char {c : Glyph} (notBlank : Text.isBlank c = false)
    (notControl : isControl c = false) (offset start : Nat) (read : List Glyph) :
    extend offset start read c = ([], .word start (c :: read) (modeAfter offset c)) := by
  simp [extend, notBlank, notControl]

/-! ### A line in two parts -/

/-- The lexemes that some characters complete, and the state behind them. -/
def feed (offset : Nat) (state : State) : List Glyph → List Lexeme × State
  | [] => ([], state)
  | c :: rest =>
      let (out, next) := step offset state c
      let (others, last) := feed (offset + 1) next rest
      (out ++ others, last)

/-- Reading on is reading from the state that the first part leaves. -/
theorem run_append (offset : Nat) (state : State) (first second : List Glyph) :
    run offset state (first ++ second) =
      (run (offset + first.length) (feed offset state first).2 second).map
        ((feed offset state first).1 ++ ·) := by
  induction first generalizing offset state with
  | nil =>
      rw [List.nil_append, feed, List.length_nil, Nat.add_zero]
      cases run offset state second with
      | error error => rfl
      | ok others => rfl
  | cons c rest inductionHypothesis =>
      rw [List.cons_append, run_cons, inductionHypothesis, feed, List.length_cons,
        Nat.add_assoc offset 1, Nat.add_comm 1]
      cases run (offset + (rest.length + 1))
          (feed (offset + 1) (step offset state c).2 rest).2 second with
      | error error => rfl
      | ok others =>
          exact congrArg Except.ok (List.append_assoc _ _ _).symm

/-- At the end of the line the state that is left open is settled. -/
theorem run_eq_finish_feed (offset : Nat) (state : State) (chars : List Glyph) :
    run offset state chars =
      (finish (feed offset state chars).2).map ((feed offset state chars).1 ++ ·) := by
  have whole := run_append offset state chars []
  rw [List.append_nil] at whole
  exact whole

/-! ### A line further to the right -/

/-- The same mode further to the right. -/
def Mode.shift (distance : Nat) : Mode → Mode
  | .plain => .plain
  | .redirect => .redirect
  | .escaped offset => .escaped (offset + distance)
  | .single opened => .single (opened + distance)
  | .double opened => .double (opened + distance)
  | .doubleEscaped opened => .doubleEscaped (opened + distance)

/-- The same state further to the right. -/
def State.shift (distance : Nat) : State → State
  | .between => .between
  | .operator mark start => .operator mark (start + distance)
  | .word start read mode => .word (start + distance) read (mode.shift distance)

theorem modeAfter_shift (distance offset : Nat) (c : Glyph) :
    modeAfter (offset + distance) c = (modeAfter offset c).shift distance := by
  unfold modeAfter
  split
  · rfl
  split
  · rfl
  split
  · rfl
  split
  · rfl
  · rfl

theorem enter_shift (distance offset : Nat) (c : Glyph) :
    enter (offset + distance) c =
      ((enter offset c).1.map (Lexeme.shift distance), (enter offset c).2.shift distance) := by
  unfold enter
  split
  · rfl
  split
  · rfl
  split
  · rfl
  · rw [modeAfter_shift]
    rfl

theorem extend_shift (distance offset start : Nat) (read : List Glyph) (c : Glyph) :
    extend (offset + distance) (start + distance) read c =
      ((extend offset start read c).1.map (Lexeme.shift distance),
        (extend offset start read c).2.shift distance) := by
  unfold extend
  split
  · rw [enter_shift]
    rfl
  · rw [modeAfter_shift]
    rfl

/-- One character moves with the line. -/
theorem step_shift (distance offset : Nat) (state : State) (c : Glyph) :
    step (offset + distance) (state.shift distance) c =
      ((step offset state c).1.map (Lexeme.shift distance),
        (step offset state c).2.shift distance) := by
  cases state with
  | between => exact enter_shift distance offset c
  | operator mark start =>
      simp only [State.shift, step]
      split
      · rfl
      · rw [enter_shift]
        rfl
  | word start read mode =>
      cases mode with
      | plain => exact extend_shift distance offset start read c
      | redirect =>
          simp only [State.shift, Mode.shift, step]
          split
          · rfl
          · exact extend_shift distance offset start read c
      | escaped escape => rfl
      | single opened =>
          simp only [State.shift, Mode.shift, step]
          split <;> rfl
      | double opened =>
          simp only [State.shift, Mode.shift, step]
          split
          · rfl
          split <;> rfl
      | doubleEscaped opened => rfl

/-- An answer further to the right, be it lexemes or an error. -/
def shiftAnswer (distance : Nat) :
    Except LexError (List Lexeme) → Except LexError (List Lexeme)
  | .ok list => .ok (list.map (Lexeme.shift distance))
  | .error error => .error (error.shift distance)

theorem finish_shift (distance : Nat) (state : State) :
    finish (state.shift distance) = shiftAnswer distance (finish state) := by
  cases state with
  | between => rfl
  | operator mark start => rfl
  | word start read mode => cases mode <;> rfl

/-- A run moves with the line. -/
theorem run_shift (distance offset : Nat) (state : State) (chars : List Glyph) :
    run (offset + distance) (state.shift distance) chars =
      shiftAnswer distance (run offset state chars) := by
  induction chars generalizing offset state with
  | nil => exact finish_shift distance state
  | cons c rest inductionHypothesis =>
      have behind := inductionHypothesis (offset + 1) (step offset state c).2
      rw [Nat.add_right_comm] at behind
      rw [run_cons, run_cons, step_shift, behind]
      cases run (offset + 1) (step offset state c).2 rest with
      | error error => rfl
      | ok others => exact congrArg Except.ok List.map_append.symm

/-! ### A separator settles what is open -/

/-- Of a state at `offset`: only `&` and `|` wait to be doubled, and only right
behind themselves. -/
def State.Sound (offset : Nat) : State → Prop
  | .operator mark start => (mark = '&' ∨ mark = '|') ∧ start + 1 = offset
  | _ => True

theorem enter_sound (offset : Nat) (c : Glyph) : (enter offset c).2.Sound (offset + 1) := by
  rcases char_cases c with blank | rfl | doubles | ⟨notBlank, notControl⟩
  · rw [enter_blank blank]
    trivial
  · trivial
  · rw [enter_mark doubles]
    exact ⟨doubles, rfl⟩
  · rw [enter_char notBlank notControl]
    trivial

theorem extend_sound (offset start : Nat) (read : List Glyph) (c : Glyph) :
    (extend offset start read c).2.Sound (offset + 1) := by
  unfold extend
  split
  · exact enter_sound offset c
  · trivial

/-- One character leads to a sound state, whatever the state was before. -/
theorem step_sound (offset : Nat) (state : State) (c : Glyph) :
    (step offset state c).2.Sound (offset + 1) := by
  cases state with
  | between => exact enter_sound offset c
  | operator mark start =>
      simp only [step]
      split
      · trivial
      · exact enter_sound offset c
  | word start read mode =>
      cases mode with
      | plain => exact extend_sound offset start read c
      | redirect =>
          simp only [step]
          split
          · trivial
          · exact extend_sound offset start read c
      | escaped escape => trivial
      | single opened => trivial
      | double opened => trivial
      | doubleEscaped opened => trivial

/-- So every state that a run comes to is sound. -/
theorem feed_sound {offset : Nat} {state : State} (sound : state.Sound offset)
    (chars : List Glyph) :
    (feed offset state chars).2.Sound (offset + chars.length) := by
  induction chars generalizing offset state with
  | nil => exact sound
  | cons c rest inductionHypothesis =>
      have behind := inductionHypothesis (step_sound offset state c)
      rw [Nat.add_assoc, Nat.add_comm 1] at behind
      exact behind

/-- Blanks and `;` end what is open, and leave nothing open themselves. -/
def Separates (c : Glyph) : Prop := Text.isBlank c = true ∨ c = ';'

theorem enter_separator {c : Glyph} (separates : Separates c) (offset : Nat) :
    (enter offset c).2 = .between := by
  rcases separates with blank | rfl
  · rw [enter_blank blank]
  · rfl

/-- Where the line could end, a separator completes the same lexemes and leaves
nothing open. -/
theorem step_separator {offset : Nat} {state : State} (sound : state.Sound offset)
    {last : List Lexeme} (settled : finish state = .ok last) {c : Glyph}
    (separates : Separates c) :
    step offset state c = (last ++ (enter offset c).1, .between) := by
  have leavesNone := enter_separator separates offset
  have extended (start : Nat) (read : List Glyph) :
      extend offset start read c = ([wordOf start read] ++ (enter offset c).1, .between) := by
    have ends : Text.isBlank c = true ∨ isControl c = true := by
      rcases separates with blank | rfl
      · exact .inl blank
      · exact .inr rfl
    rw [extend_end ends, leavesNone]
    rfl
  have undoubled {mark : Glyph} (doubles : mark = '&' ∨ mark = '|') : c ≠ mark := by
    rintro rfl
    rcases separates with blank | rfl
    · rcases doubles with rfl | rfl <;> exact absurd blank (by decide)
    · rcases doubles with same | same <;> exact absurd same (by decide)
  cases state with
  | between =>
      cases settled
      exact Prod.ext rfl leavesNone
  | operator mark start =>
      cases settled
      simp [step, undoubled sound.1, leavesNone]
  | word start read mode =>
      cases mode with
      | plain =>
          cases settled
          exact extended start read
      | redirect =>
          cases settled
          simp only [step, if_neg (undoubled (.inl rfl))]
          exact extended start read
      | escaped escape => cases settled
      | single opened => cases settled
      | double opened => cases settled
      | doubleEscaped opened => cases settled

/-- A first part that could be a line of its own keeps its lexemes in front of a
separator, and what comes behind the separator is read afresh. -/
theorem run_append_separator {offset : Nat} {state : State} (sound : state.Sound offset)
    {first : List Glyph} {list : List Lexeme} (closed : run offset state first = .ok list)
    {c : Glyph} (separates : Separates c) (second : List Glyph) :
    run offset state (first ++ c :: second) =
      (run (offset + first.length + 1) .between second).map
        (list ++ (enter (offset + first.length) c).1 ++ ·) := by
  rw [run_eq_finish_feed] at closed
  rcases settled : finish (feed offset state first).2 with error | last
  · rw [settled] at closed
    cases closed
  · rw [settled] at closed
    obtain rfl : (feed offset state first).1 ++ last = list := Except.ok.inj closed
    rw [run_append, run_cons, step_separator (feed_sound sound first) settled separates]
    cases run (offset + first.length + 1) .between second with
    | error error => rfl
    | ok others =>
        refine congrArg Except.ok ?_
        simp only [List.append_assoc]

end Lexeme.Scan

/-- A line whose lexemes are known, a separator and another line: the lexemes of the
first, the separator if it is an operator, then the answer to the second further to the
right. -/
theorem lexemes_append_separator {first : Text} {list : List Lexeme}
    (closed : lexemes first = .ok list) {c : Glyph} (separates : Lexeme.Scan.Separates c)
    (second : Text) :
    lexemes (first ++ Text.singleton c ++ second) =
      (Lexeme.Scan.shiftAnswer (first.length + 1) (lexemes second)).map
        (list ++ (Lexeme.Scan.enter first.length c).1 ++ ·) := by
  have parts : (first ++ Text.singleton c ++ second).toList =
      first.toList ++ c :: second.toList := by
    simp
  have fresh : Lexeme.Scan.State.between.Sound 0 := trivial
  have moved := Lexeme.Scan.run_shift (first.length + 1) 0 .between second.toList
  rw [lexemes, parts, Lexeme.Scan.run_append_separator fresh closed separates, lexemes, ← moved,
    Text.length_toList, Nat.zero_add, Nat.zero_add]
  rfl

/-- With a blank between the two lines there is no lexeme of its own. -/
theorem lexemes_append_blank {first : Text} {list : List Lexeme}
    (closed : lexemes first = .ok list) {c : Glyph} (blank : Text.isBlank c = true)
    (second : Text) :
    lexemes (first ++ Text.singleton c ++ second) =
      (Lexeme.Scan.shiftAnswer (first.length + 1) (lexemes second)).map (list ++ ·) := by
  rw [lexemes_append_separator closed (.inl blank), Lexeme.Scan.enter_blank blank,
    List.append_nil]

end ShellGloss
