/-
Module: ShellGloss.Proofs.LineSeams
Purpose: Lines cut short and lines put together: where an error stands and which cuts
  undo it, and how two lines are read with a separator between them.
Imports: Mathlib.Data.List.Induction, ShellGloss.Proofs.ScanRun, ShellGloss.Text.Slice
Main exports:
  Lexeme.Scan.Opens, Lexeme.Scan.finish_step_error, Lexeme.Scan.run_snoc_error,
  OpenQuote, LastEscape, lexemes_outcome, Follows, lexemes_separated
-/
import Mathlib.Data.List.Induction
import ShellGloss.Proofs.ScanRun
import ShellGloss.Text.Slice

namespace ShellGloss

namespace Lexeme.Scan

/-! ### One character more

A line fails by the state that its last character leaves.  What one character can do to
that state is said once: it opens a quote or an escape at its own place, where the line
could have ended before it, or it leaves a quote open that was open already.
-/

/-- A character that opens something, and the error that the end of the line would be
right behind it. -/
inductive Opens (offset : Nat) : Glyph → LexError → Prop where
  | single : Opens offset '\x27' (.unterminatedQuote offset)
  | double : Opens offset '\x22' (.unterminatedQuote offset)
  | escape : Opens offset '\\' (.trailingEscape offset)

theorem opens_of_modeAfter {offset start : Nat} {read : List Glyph} {c : Glyph}
    {error : LexError}
    (left : finish (.word start read (modeAfter offset c)) = .error error) :
    Opens offset c error := by
  unfold modeAfter at left
  split at left
  next isEscape =>
    cases left
    subst isEscape
    exact .escape
  split at left
  next isSingle =>
    cases left
    subst isSingle
    exact .single
  split at left
  next isDouble =>
    cases left
    subst isDouble
    exact .double
  split at left
  · cases left
  · cases left

theorem opens_of_enter {offset : Nat} {c : Glyph} {error : LexError}
    (left : finish (enter offset c).2 = .error error) : Opens offset c error := by
  rcases char_cases c with blank | rfl | doubles | ⟨notBlank, notControl⟩
  · rw [enter_blank blank] at left
    cases left
  · cases left
  · rw [enter_mark doubles] at left
    cases left
  · rw [enter_char notBlank notControl] at left
    exact opens_of_modeAfter left

theorem opens_of_extend {offset start : Nat} {read : List Glyph} {c : Glyph}
    {error : LexError} (left : finish (extend offset start read c).2 = .error error) :
    Opens offset c error := by
  unfold extend at left
  split at left
  · exact opens_of_enter left
  · exact opens_of_modeAfter left

/-- Where the line would fail behind a character, the character opened what is left open,
or a quote was open before it and still is. -/
theorem finish_step_error {offset : Nat} {state : State} {c : Glyph} {error : LexError}
    (left : finish (step offset state c).2 = .error error) :
    ((∃ last, finish state = .ok last) ∧ Opens offset c error) ∨
      (finish state = .error error ∧ ∃ opened, error = .unterminatedQuote opened) := by
  cases state with
  | between => exact .inl ⟨⟨_, rfl⟩, opens_of_enter left⟩
  | operator mark start =>
      simp only [step] at left
      split at left
      · cases left
      · exact .inl ⟨⟨_, rfl⟩, opens_of_enter left⟩
  | word start read mode =>
      cases mode with
      | plain => exact .inl ⟨⟨_, rfl⟩, opens_of_extend left⟩
      | redirect =>
          simp only [step] at left
          split at left
          · cases left
          · exact .inl ⟨⟨_, rfl⟩, opens_of_extend left⟩
      | escaped escape => cases left
      | single opened =>
          simp only [step] at left
          split at left
          · cases left
          · cases left
            exact .inr ⟨rfl, opened, rfl⟩
      | double opened =>
          simp only [step] at left
          split at left
          · cases left
          split at left
          · cases left
            exact .inr ⟨rfl, opened, rfl⟩
          · cases left
            exact .inr ⟨rfl, opened, rfl⟩
      | doubleEscaped opened =>
          cases left
          exact .inr ⟨rfl, opened, rfl⟩

/-- Where the line could end, every character that opens something does. -/
theorem finish_step_of_opens {offset : Nat} {state : State} (sound : state.Sound offset)
    {last : List Lexeme} (settled : finish state = .ok last) {c : Glyph} {error : LexError}
    (opens : Opens offset c error) : finish (step offset state c).2 = .error error := by
  cases state with
  | between => cases opens <;> rfl
  | operator mark start =>
      rcases sound.1 with rfl | rfl
      · cases opens <;> rfl
      · cases opens <;> rfl
  | word start read mode =>
      cases mode with
      | plain => cases opens <;> rfl
      | redirect => cases opens <;> rfl
      | escaped escape => cases settled
      | single opened => cases settled
      | double opened => cases settled
      | doubleEscaped opened => cases settled

theorem map_append_eq_error_iff {answer : Except LexError (List Lexeme)}
    {front : List Lexeme} {error : LexError} :
    answer.map (front ++ ·) = .error error ↔ answer = .error error := by
  cases answer with
  | error other => simp [Except.map]
  | ok list => simp [Except.map]

/-- The state behind the characters decides whether a line fails. -/
theorem run_eq_error_iff {chars : List Glyph} {error : LexError} :
    run 0 .between chars = .error error ↔
      finish (feed 0 .between chars).2 = .error error := by
  rw [run_eq_finish_feed, map_append_eq_error_iff]

theorem exists_run_eq_ok_iff {chars : List Glyph} :
    (∃ list, run 0 .between chars = .ok list) ↔
      ∃ last, finish (feed 0 .between chars).2 = .ok last := by
  rw [run_eq_finish_feed]
  cases finish (feed 0 .between chars).2 with
  | error error => simp [Except.map]
  | ok last => simp [Except.map]

theorem run_snoc_eq_error_iff {chars : List Glyph} {c : Glyph} {error : LexError} :
    run 0 .between (chars ++ [c]) = .error error ↔
      finish (step chars.length (feed 0 .between chars).2 c).2 = .error error := by
  rw [run_append, map_append_eq_error_iff, run_cons, map_append_eq_error_iff, Nat.zero_add,
    run]

/-- A line that fails, less its last character: it does not fail and the character opened
something, or it fails by the same quote. -/
theorem run_snoc_error {chars : List Glyph} {c : Glyph} {error : LexError}
    (failed : run 0 .between (chars ++ [c]) = .error error) :
    ((∃ list, run 0 .between chars = .ok list) ∧ Opens chars.length c error) ∨
      (run 0 .between chars = .error error ∧ ∃ opened, error = .unterminatedQuote opened) := by
  rcases finish_step_error (run_snoc_eq_error_iff.mp failed) with
    ⟨settled, opens⟩ | ⟨before, isQuote⟩
  · exact .inl ⟨exists_run_eq_ok_iff.mpr settled, opens⟩
  · exact .inr ⟨run_eq_error_iff.mpr before, isQuote⟩

theorem run_snoc_of_opens {chars : List Glyph} {list : List Lexeme}
    (closed : run 0 .between chars = .ok list) {c : Glyph} {error : LexError}
    (opens : Opens chars.length c error) :
    run 0 .between (chars ++ [c]) = .error error := by
  obtain ⟨last, settled⟩ := exists_run_eq_ok_iff.mp ⟨list, closed⟩
  have fresh : State.between.Sound 0 := trivial
  have sound := feed_sound fresh chars
  rw [Nat.zero_add] at sound
  exact run_snoc_eq_error_iff.mpr (finish_step_of_opens sound settled opens)

end Lexeme.Scan

/-! ### Lines that fail -/

/-- A quote that is never closed: the line in front of it has lexemes, and from the quote
on every cut of the line fails in the same way. -/
structure OpenQuote (query : Text) (error : LexError) : Prop where
  wording : error.wording = "Unterminated quote"
  inside : error.offset < query.length
  isQuote : query.toList[error.offset]? = some (.char '\x27') ∨
    query.toList[error.offset]? = some (.char '\x22')
  before : ∃ list, lexemes (Text.slice query 0 error.offset) = .ok list
  behind : ∀ stop, error.offset < stop → stop ≤ query.length →
    lexemes (Text.slice query 0 stop) = .error error

/-- An escape at the very end: the line in front of it has lexemes. -/
structure LastEscape (query : Text) (error : LexError) : Prop where
  wording : error.wording = "Trailing escape character"
  last : error.offset + 1 = query.length
  isEscape : query.toList[error.offset]? = some (.char '\\')
  before : ∃ list, lexemes (Text.slice query 0 error.offset) = .ok list

/-- A cut of a line is a run over its first characters. -/
theorem lexemes_slice (query : Text) (stop : Nat) :
    lexemes (Text.slice query 0 stop) =
      Lexeme.Scan.run 0 .between (query.toList.take stop) := by
  rw [lexemes, Text.slice, Text.sliceChars_zero, Text.toList_ofList]

section

open Lexeme.Scan

variable {chars : List Glyph} {c : Glyph} {error : LexError}

/-- A quote behind a line that has lexemes. -/
theorem openQuote_snoc {list : List Lexeme} (closed : run 0 .between chars = .ok list)
    (failed : run 0 .between (chars ++ [c]) = .error error)
    (wording : error.wording = "Unterminated quote") (place : error.offset = chars.length)
    (quote : c = '\x27' ∨ c = '\x22') : OpenQuote (Text.ofList (chars ++ [c])) error := by
  refine ⟨wording, ?_, ?_, ⟨list, ?_⟩, ?_⟩
  · simp [place]
  · simpa [place] using quote
  · rw [lexemes_slice, Text.toList_ofList, place, List.take_left]
    exact closed
  · intro stop above below
    obtain rfl : stop = (chars ++ [c]).length := by
      simp only [Text.length_ofList, List.length_append, List.length_singleton] at below ⊢
      omega
    rw [lexemes_slice, Text.toList_ofList, List.take_length]
    exact failed

/-- An open quote that one character more leaves open. -/
theorem OpenQuote.snoc (opened : OpenQuote (Text.ofList chars) error)
    (failed : run 0 .between (chars ++ [c]) = .error error) :
    OpenQuote (Text.ofList (chars ++ [c])) error := by
  obtain ⟨wording, inside, isQuote, ⟨list, closed⟩, behind⟩ := opened
  rw [Text.length_ofList] at inside
  rw [Text.toList_ofList] at isQuote
  have cut {stop : Nat} (within : stop ≤ chars.length) :
      lexemes (Text.slice (Text.ofList (chars ++ [c])) 0 stop) =
        lexemes (Text.slice (Text.ofList chars) 0 stop) := by
    rw [lexemes_slice, lexemes_slice, Text.toList_ofList, Text.toList_ofList,
      List.take_append_of_le_length within]
  refine ⟨wording, ?_, ?_, ⟨list, ?_⟩, ?_⟩
  · simp only [Text.length_ofList, List.length_append, List.length_singleton]
    omega
  · rw [Text.toList_ofList, List.getElem?_append_left inside]
    exact isQuote
  · rw [cut (Nat.le_of_lt inside)]
    exact closed
  · intro stop above below
    rw [Text.length_ofList, List.length_append, List.length_singleton] at below
    rcases Nat.lt_or_ge chars.length stop with whole | within
    · obtain rfl : stop = (chars ++ [c]).length := by
        rw [List.length_append, List.length_singleton]
        omega
      rw [lexemes_slice, Text.toList_ofList, List.take_length]
      exact failed
    · rw [cut within]
      apply behind stop above
      rw [Text.length_ofList]
      exact within

/-- A line that fails has a quote left open or ends in an escape. -/
theorem openQuote_or_lastEscape (failed : run 0 .between chars = .error error) :
    OpenQuote (Text.ofList chars) error ∨ LastEscape (Text.ofList chars) error := by
  -- The line grows by its last character: the error is the one of the shorter line, or new.
  induction chars using List.reverseRecOn with
  | nil => cases failed
  | append_singleton chars c inductionHypothesis =>
      rcases run_snoc_error failed with ⟨⟨list, closed⟩, opens⟩ | ⟨before, opened, rfl⟩
      · cases opens with
        | single => exact .inl (openQuote_snoc closed failed rfl rfl (.inl rfl))
        | double => exact .inl (openQuote_snoc closed failed rfl rfl (.inr rfl))
        | escape =>
            refine .inr ⟨rfl, ?_, ?_, ⟨list, ?_⟩⟩
            · rw [Text.length_ofList, List.length_append]
              rfl
            · simp [LexError.offset]
            · rw [lexemes_slice, Text.toList_ofList, LexError.offset, List.take_left]
              exact closed
      · rcases inductionHypothesis before with openQuote | lastEscape
        · exact .inl (openQuote.snoc failed)
        · exact absurd lastEscape.wording (by simp [LexError.wording])

end

/-- A line with a quote left open fails. -/
theorem OpenQuote.lexemes_eq {query : Text} {error : LexError}
    (opened : OpenQuote query error) : lexemes query = .error error := by
  have whole := opened.behind query.length opened.inside (Nat.le_refl _)
  rw [lexemes_slice, ← Text.length_toList, List.take_length] at whole
  exact whole

/-- The part in front of the escape, and the escape. -/
theorem LastEscape.toList_eq {query : Text} {error : LexError}
    (escaped : LastEscape query error) :
    query.toList = query.toList.take error.offset ++ [.char '\\'] := by
  have taken : query.toList.take (error.offset + 1) = _ := List.take_add_one
  rw [escaped.isEscape, escaped.last, ← Text.length_toList, List.take_length] at taken
  exact taken

/-- A line that ends in an escape fails. -/
theorem LastEscape.lexemes_eq {query : Text} {error : LexError}
    (escaped : LastEscape query error) : lexemes query = .error error := by
  have front : (query.toList.take error.offset).length = error.offset := by
    have last := escaped.last
    rw [List.length_take, Text.length_toList]
    omega
  have opens : Lexeme.Scan.Opens (query.toList.take error.offset).length '\\' error := by
    rw [front]
    cases error with
    | unterminatedQuote offset => exact absurd escaped.wording (by simp [LexError.wording])
    | trailingEscape offset => exact .escape
  obtain ⟨list, closed⟩ := escaped.before
  rw [lexemes_slice] at closed
  rw [lexemes, escaped.toList_eq]
  exact Lexeme.Scan.run_snoc_of_opens closed opens

/-- What a line comes to: its lexemes, when no quote is left open and it does not end in an
escape, or one of these two errors. -/
theorem lexemes_outcome (query : Text) :
    (∃ list, lexemes query = .ok list ∧
        ∀ error, ¬ OpenQuote query error ∧ ¬ LastEscape query error) ∨
      (∃ error, lexemes query = .error error ∧ OpenQuote query error) ∨
      (∃ error, lexemes query = .error error ∧ LastEscape query error) := by
  cases answer : lexemes query with
  | ok list =>
      refine .inl ⟨list, rfl, fun error => ⟨?_, ?_⟩⟩
      · intro opened
        cases answer.symm.trans opened.lexemes_eq
      · intro escaped
        cases answer.symm.trans escaped.lexemes_eq
  | error error =>
      have found := openQuote_or_lastEscape answer
      rw [Text.ofList_toList] at found
      rcases found with opened | escaped
      · exact .inr (.inl ⟨error, rfl, opened⟩)
      · exact .inr (.inr ⟨error, rfl, escaped⟩)

/-! ### Lines put together -/

/-- The answer to a line that goes on like `second` behind `distance` characters and the
lexemes `front`: the same lexemes or the same error, further to the right. -/
def Follows (front : List Lexeme) (distance : Nat)
    (second whole : Except LexError (List Lexeme)) : Prop :=
  match second with
  | .ok list => whole = .ok (front ++ list.map (Lexeme.shift distance))
  | .error error => ∃ moved, whole = .error moved ∧ moved.wording = error.wording ∧
      moved.offset = error.offset + distance

theorem follows_shiftAnswer (front : List Lexeme) (distance : Nat)
    (second : Except LexError (List Lexeme)) :
    Follows front distance second
      ((Lexeme.Scan.shiftAnswer distance second).map (front ++ ·)) := by
  cases second with
  | ok list => rfl
  | error error =>
      refine ⟨error.shift distance, rfl, ?_, ?_⟩
      · cases error <;> rfl
      · cases error <;> rfl

/-- A line that has lexemes, a separator and any other line: what the first leaves open at
its end never reaches the second, which is read as if it stood alone.  A `;` is a lexeme
itself, a blank is none. -/
theorem lexemes_separated {first : Text} {list : List Lexeme}
    (closed : lexemes first = .ok list) (second : Text) :
    (∀ c, Text.isBlank c = true →
        Follows list (first.length + 1) (lexemes second)
          (lexemes (first ++ Text.singleton c ++ second))) ∧
      Follows (list ++ [⟨";", first.length, true⟩]) (first.length + 1) (lexemes second)
        (lexemes (first ++ ";" ++ second)) := by
  constructor
  · intro c blank
    rw [lexemes_append_blank closed blank]
    exact follows_shiftAnswer ..
  · have joined := lexemes_append_separator closed (.inr rfl) second
    rw [Lexeme.Scan.enter_semicolon] at joined
    exact joined ▸ follows_shiftAnswer ..

/-- The sign at the end of the first line would take in the `&` that begins the others. -/
theorem lexemes_separated_redirect :
    lexemes "ls<" = .ok [⟨"ls<", 0, false⟩] ∧
      lexemes "& 'a" = .error (.unterminatedQuote 2) ∧
      (∃ moved, lexemes "ls<\t& 'a" = .error moved ∧
        moved.wording = "Unterminated quote" ∧ moved.offset = 6) ∧
      lexemes "&x" = .ok [⟨"&", 0, true⟩, ⟨"x", 1, false⟩] ∧
      lexemes "ls<;&x" =
        .ok [⟨"ls<", 0, false⟩, ⟨";", 3, true⟩, ⟨"&", 4, true⟩, ⟨"x", 5, false⟩] := by
  have closed : lexemes "ls<" = .ok [⟨"ls<", 0, false⟩] := by rfl
  have tab : Text.isBlank '\t' = true := by decide
  have failed : lexemes "& 'a" = .error (.unterminatedQuote 2) := by rfl
  have read : lexemes "&x" = .ok [⟨"&", 0, true⟩, ⟨"x", 1, false⟩] := by rfl
  have behindTab := (lexemes_separated closed "& 'a").1 '\t' tab
  have behindSemicolon := (lexemes_separated closed "&x").2
  rw [failed] at behindTab
  rw [read] at behindSemicolon
  exact ⟨closed, failed, behindTab, read, behindSemicolon⟩

end ShellGloss
