/-
Module: ShellGloss.Proofs.StrippedText
Purpose: What stripping leaves of a text.  Every styling sequence that stands in it is taken
  out, but where sequences break another one up, taking them out completes it.
Imports: Mathlib.Tactic.TFAE, ShellGloss.Proofs.StyledText
Main exports:
  Sgr.IsSequence, Sgr.HoldsSequence, Sgr.Leaves, Sgr.strip_of_held, Sgr.leaves_strip,
  Sgr.strip_eq_self_iff, Sgr.Interspersed, Sgr.HoldsBroken, Sgr.holdsSequence_strip_iff,
  stripStyling_clears_iff
-/
import Mathlib.Tactic.TFAE
import ShellGloss.Proofs.StyledText

namespace ShellGloss

namespace Sgr

/-- One styling sequence. -/
def IsSequence (chars : List Glyph) : Prop :=
  ∃ parameters, (∀ c ∈ parameters, isParameter c = true) ∧
    chars = escape :: '[' :: (parameters ++ [.char 'm'])

/-- Whether a styling sequence stands at the front of a text. -/
def StartsSequence (chars : List Glyph) : Prop :=
  ∃ sequence, IsSequence sequence ∧ sequence <+: chars

/-- Whether a styling sequence stands anywhere in a text. -/
def HoldsSequence (chars : List Glyph) : Prop :=
  ∃ sequence, IsSequence sequence ∧ sequence <:+: chars

/-- A text, and what is left of it when the sequences that stand in it are taken out and all
other characters stay. -/
inductive Leaves : List Glyph → List Glyph → Prop where
  | nil : Leaves [] []
  | sequence {sequence text left : List Glyph} (isSequence : IsSequence sequence)
      (behind : Leaves text left) : Leaves (sequence ++ text) left
  | keep {c : Glyph} {text left : List Glyph} (starts : ¬ StartsSequence (c :: text))
      (behind : Leaves text left) : Leaves (c :: text) (c :: left)

theorem IsSequence.shows_nil {sequence : List Glyph} (isSequence : IsSequence sequence) :
    Shows sequence [] := by
  obtain ⟨parameters, allowed, rfl⟩ := isSequence
  exact (Sequences.cons allowed .nil).shows_nil

theorem IsSequence.ne_nil {sequence : List Glyph} (isSequence : IsSequence sequence) :
    sequence ≠ [] := by
  obtain ⟨parameters, -, rfl⟩ := isSequence
  exact List.cons_ne_nil _ _

/-! ### Held characters that complete no sequence -/

/-- What is held back is the start of a sequence. -/
def Held.Sound : Held → Prop
  | .opened parameters => ∀ c ∈ parameters, isParameter c = true
  | _ => True

theorem Held.Sound.isSequence {held : Held} (sound : held.Sound) {c : Glyph}
    (completes : held.completes c = true) : IsSequence (held.chars ++ [c]) := by
  cases held with
  | nothing => cases completes
  | escape => cases completes
  | opened parameters =>
      obtain rfl : c = 'm' := eq_of_beq completes
      exact ⟨parameters.reverse, fun c among => sound c (List.mem_reverse.mp among), rfl⟩

/-- One character more is held back; it is no escape character. -/
theorem Held.next?_eq_some {held more : Held} {c : Glyph} (goesOn : held.next? c = some more) :
    more.chars = held.chars ++ [c] ∧ c ≠ Sgr.escape ∧ (held.Sound → more.Sound) := by
  cases held with
  | nothing => cases goesOn
  | escape =>
      obtain ⟨rfl, ⟨⟩⟩ := Option.ite_none_right_eq_some.mp goesOn
      exact ⟨rfl, by decide, fun _ c among => nomatch among⟩
  | opened parameters =>
      obtain ⟨allowed, ⟨⟩⟩ := Option.ite_none_right_eq_some.mp goesOn
      refine ⟨by simp [Held.chars], ?_, fun sound => List.forall_mem_cons.mpr ⟨allowed, sound⟩⟩
      rintro rfl
      exact absurd allowed (by decide)

theorem strip_of_completes {held : Held} {c : Glyph} (completes : held.completes c = true)
    (rest : List Glyph) : strip held (c :: rest) = strip .nothing rest := by
  rw [strip, if_pos completes]

theorem strip_of_next? {held more : Held} {c : Glyph} (incomplete : held.completes c = false)
    (goesOn : held.next? c = some more) (rest : List Glyph) :
    strip held (c :: rest) = strip more rest := by
  rw [strip, if_neg (Bool.eq_false_iff.mp incomplete), goesOn]

theorem strip_of_escape (rest : List Glyph) :
    strip .nothing (escape :: rest) = strip .escape rest := rfl

theorem strip_of_ne_escape {c : Glyph} (plain : c ≠ escape) (rest : List Glyph) :
    strip .nothing (c :: rest) = c :: strip .nothing rest := if_neg plain

/-- A character that what is held back cannot go on with is looked at afresh. -/
theorem strip_of_refused {held : Held} {c : Glyph} (incomplete : held.completes c = false)
    (refused : held.next? c = none) (rest : List Glyph) :
    strip held (c :: rest) = held.chars ++ strip .nothing (c :: rest) := by
  rw [strip, if_neg (Bool.eq_false_iff.mp incomplete), refused]
  by_cases isEscape : c = escape
  · rw [isEscape, strip_of_escape]
    exact if_pos rfl
  · rw [strip_of_ne_escape isEscape]
    exact if_neg isEscape

/-- What is held back and completes no sequence stands as it is. -/
theorem strip_of_held {held : Held} (sound : held.Sound) {rest : List Glyph}
    (starts : ¬ StartsSequence (held.chars ++ rest)) :
    strip held rest = held.chars ++ strip .nothing rest := by
  induction rest generalizing held with
  | nil => exact (List.append_nil held.chars).symm
  | cons c rest inductionHypothesis =>
      have front : (held.chars ++ [c]) ++ rest = held.chars ++ c :: rest := by simp
      have incomplete : held.completes c = false := by
        rw [← Bool.not_eq_true]
        intro completes
        exact starts ⟨_, sound.isSequence completes, rest, front⟩
      cases goesOn : held.next? c with
      | none => exact strip_of_refused incomplete goesOn rest
      | some more =>
          obtain ⟨chars, plain, soundly⟩ := Held.next?_eq_some goesOn
          rw [← front, ← chars] at starts
          rw [strip_of_next? incomplete goesOn, inductionHypothesis (soundly sound) starts, chars,
            strip_of_ne_escape plain, List.append_assoc, List.singleton_append]

/-- A character at which no sequence starts stays. -/
theorem strip_of_not_startsSequence {c : Glyph} {rest : List Glyph}
    (starts : ¬ StartsSequence (c :: rest)) :
    strip .nothing (c :: rest) = c :: strip .nothing rest := by
  by_cases isEscape : c = escape
  · subst isEscape
    exact @strip_of_held .escape trivial rest starts
  · exact strip_of_ne_escape isEscape rest

/-- Stripping takes out the sequences that stand in a text, and nothing else. -/
theorem leaves_strip (text : List Glyph) : Leaves text (strip .nothing text) := by
  -- A sequence goes out as a whole, so the induction is on the length.
  induction length : text.length using Nat.strongRecOn generalizing text with
  | _ size inductionHypothesis =>
      by_cases starts : StartsSequence text
      · obtain ⟨sequence, isSequence, rest, rfl⟩ := starts
        have shorter : rest.length < size := by
          have positive := List.length_pos_iff.mpr isSequence.ne_nil
          rw [← length, List.length_append]
          omega
        rw [isSequence.shows_nil rest]
        exact .sequence isSequence (inductionHypothesis _ shorter rest rfl)
      · cases text with
        | nil => exact .nil
        | cons c rest =>
            have shorter : rest.length < size := by
              rw [← length]
              exact Nat.lt_succ_self _
            rw [strip_of_not_startsSequence starts]
            exact .keep starts (inductionHypothesis _ shorter rest rfl)

/-! ### Texts that hold no sequence -/

theorem Leaves.length_le {text left : List Glyph} (leaves : Leaves text left) :
    left.length ≤ text.length := by
  induction leaves with
  | nil => exact Nat.le_refl 0
  | sequence isSequence behind inductionHypothesis =>
      rw [List.length_append]
      exact Nat.le_add_left_of_le inductionHypothesis
  | keep starts behind inductionHypothesis => exact Nat.succ_le_succ inductionHypothesis

/-- A text that holds a sequence gets shorter. -/
theorem Leaves.length_lt {text left : List Glyph} (leaves : Leaves text left)
    (holds : HoldsSequence text) : left.length < text.length := by
  induction leaves with
  | nil =>
      obtain ⟨sequence, isSequence, inside⟩ := holds
      exact absurd (List.infix_nil.mp inside) isSequence.ne_nil
  | sequence isSequence behind =>
      have positive := List.length_pos_iff.mpr isSequence.ne_nil
      have less := behind.length_le
      rw [List.length_append]
      omega
  | keep starts behind inductionHypothesis =>
      obtain ⟨sequence, isSequence, inside⟩ := holds
      rcases List.infix_cons_iff.mp inside with front | later
      · exact absurd ⟨sequence, isSequence, front⟩ starts
      · exact Nat.succ_lt_succ (inductionHypothesis ⟨sequence, isSequence, later⟩)

theorem Leaves.eq_self {text left : List Glyph} (leaves : Leaves text left)
    (holdsNone : ¬ HoldsSequence text) : left = text := by
  induction leaves with
  | nil => rfl
  | @sequence sequence text left isSequence behind =>
      exact absurd ⟨sequence, isSequence, (List.prefix_append sequence text).isInfix⟩ holdsNone
  | @keep c text left starts behind inductionHypothesis =>
      have later : ¬ HoldsSequence text := by
        rintro ⟨sequence, isSequence, inside⟩
        exact holdsNone ⟨sequence, isSequence, List.infix_cons inside⟩
      rw [inductionHypothesis later]

/-- Stripping changes nothing exactly if there is no sequence. -/
theorem strip_eq_self_iff {text : List Glyph} :
    strip .nothing text = text ↔ ¬ HoldsSequence text := by
  constructor
  · intro same holds
    have less := (leaves_strip text).length_lt holds
    rw [same] at less
    exact Nat.lt_irrefl _ less
  · exact (leaves_strip text).eq_self

/-! ### Sequences broken up by others

Taking a sequence out brings together what stood on its two sides, so a sequence can come
about that was not there before.  Its characters then stand in the text in order, with whole
sequences and nothing else between them, and not all next to each other.
-/

/-- Characters in order, and a text in which sequences may stand between them. -/
inductive Interspersed : List Glyph → List Glyph → Prop where
  | nil : Interspersed [] []
  | char {c : Glyph} {chars text : List Glyph} (behind : Interspersed chars text) :
      Interspersed (c :: chars) (c :: text)
  | sequence {sequence chars text : List Glyph} (isSequence : IsSequence sequence)
      (behind : Interspersed chars text) : Interspersed chars (sequence ++ text)

/-- A sequence between whose first and last character others stand. -/
def IsBroken (text : List Glyph) : Prop :=
  ∃ parameters inside, (∀ c ∈ parameters, isParameter c = true) ∧
    Interspersed ('[' :: parameters) inside ∧ inside ≠ Glyph.char '[' :: parameters ∧
    text = escape :: (inside ++ [.char 'm'])

/-- Whether a broken sequence stands anywhere in a text. -/
def HoldsBroken (chars : List Glyph) : Prop := ∃ broken, IsBroken broken ∧ broken <:+: chars

/-- Where a character that stays stood in the text: behind what stays in front of it, with
sequences between, and no sequence started there. -/
theorem Leaves.of_append_cons {text front back : List Glyph} {c : Glyph}
    (leaves : Leaves text (front ++ c :: back)) :
    ∃ before behind, text = before ++ c :: behind ∧ Interspersed front before ∧
      ¬ StartsSequence (c :: behind) ∧ Leaves behind back := by
  generalize isLeft : front ++ c :: back = left at leaves
  induction leaves generalizing front with
  | nil => simp at isLeft
  | @sequence sequence text left isSequence behind inductionHypothesis =>
      obtain ⟨before, rest, rfl, inFront, startsNot, leaves⟩ := inductionHypothesis isLeft
      exact ⟨sequence ++ before, rest, (List.append_assoc ..).symm, .sequence isSequence inFront,
        startsNot, leaves⟩
  | @keep d text left starts behind inductionHypothesis =>
      cases front with
      | nil =>
          cases isLeft
          exact ⟨[], text, rfl, .nil, starts, behind⟩
      | cons first others =>
          obtain ⟨rfl, later⟩ := List.cons.inj isLeft
          obtain ⟨before, rest, rfl, inFront, startsNot, leaves⟩ := inductionHypothesis later
          exact ⟨first :: before, rest, rfl, .char inFront, startsNot, leaves⟩

/-- Sequences between characters show nothing. -/
theorem Interspersed.shows {chars text : List Glyph} (interspersed : Interspersed chars text)
    (noEscape : escape ∉ chars) : Shows text chars := by
  induction interspersed with
  | nil => exact .of_escape_not_mem noEscape
  | @char c chars text behind inductionHypothesis =>
      rw [List.mem_cons, not_or] at noEscape
      have first : Shows [c] [c] := .of_escape_not_mem (by simpa using noEscape.1)
      exact first.append (inductionHypothesis noEscape.2)
  | sequence isSequence behind inductionHypothesis =>
      exact isSequence.shows_nil.append (inductionHypothesis noEscape)

/-- Where a text goes on to an `m` without an escape character, nothing is interspersed. -/
theorem Interspersed.eq_of_prefix {chars text : List Glyph} (interspersed : Interspersed chars text)
    (unfinished : Glyph.char 'm' ∉ chars) {part rest : List Glyph} (noEscape : escape ∉ part)
    (front : part ++ [.char 'm'] <+: text ++ .char 'm' :: rest) : text = chars := by
  induction interspersed generalizing part with
  | nil => rfl
  | @char c chars text behind inductionHypothesis =>
      rw [List.mem_cons, not_or] at unfinished
      cases part with
      | nil => exact absurd (List.cons_prefix_cons.mp front).1 unfinished.1
      | cons d others =>
          rw [List.mem_cons, not_or] at noEscape
          rw [inductionHypothesis unfinished.2 noEscape.2 (List.cons_prefix_cons.mp front).2]
  | sequence isSequence behind =>
      obtain ⟨parameters, -, rfl⟩ := isSequence
      cases part with
      | nil => exact absurd (List.cons_prefix_cons.mp front).1 (by decide)
      | cons d others =>
          have isEscape : d = escape := (List.cons_prefix_cons.mp front).1
          exact absurd (isEscape ▸ List.mem_cons_self) noEscape

theorem not_mem_of_ne_bracket {c : Glyph} (noBracket : c ≠ '[')
    (noParameter : isParameter c = false) {parameters : List Glyph}
    (allowed : ∀ c ∈ parameters, isParameter c = true) :
    c ∉ Glyph.char '[' :: parameters := by
  rw [List.mem_cons, not_or]
  refine ⟨noBracket, ?_⟩
  intro among
  exact absurd (allowed c among) (Bool.eq_false_iff.mp noParameter)

/-- No sequence starts where a broken one does. -/
theorem not_startsSequence_of_interspersed {parameters inside : List Glyph}
    (allowed : ∀ c ∈ parameters, isParameter c = true)
    (interspersed : Interspersed ('[' :: parameters) inside)
    (broken : inside ≠ Glyph.char '[' :: parameters) (rest : List Glyph) :
    ¬ StartsSequence (escape :: (inside ++ .char 'm' :: rest)) := by
  rintro ⟨_, ⟨others, allowedToo, rfl⟩, front⟩
  rw [List.cons_prefix_cons, ← List.cons_append] at front
  have unfinished : Glyph.char 'm' ∉ Glyph.char '[' :: parameters :=
    not_mem_of_ne_bracket (by decide) (by decide) allowed
  have noEscape : escape ∉ Glyph.char '[' :: others :=
    not_mem_of_ne_bracket (by decide) (by decide) allowedToo
  exact broken (interspersed.eq_of_prefix unfinished noEscape front.2)

/-- Whatever is held back in front of it, an escape character is looked at afresh. -/
theorem exists_strip_append_escape (held : Held) (front rest : List Glyph) :
    ∃ before, strip held (front ++ escape :: rest) = before ++ strip .nothing (escape :: rest) := by
  induction front generalizing held with
  | nil =>
      refine ⟨held.chars, strip_of_refused ?_ ?_ rest⟩
      · cases held <;> rfl
      · cases held <;> rfl
  | cons c others inductionHypothesis =>
      rw [List.cons_append]
      cases completes : held.completes c with
      | true =>
          rw [strip_of_completes completes]
          exact inductionHypothesis .nothing
      | false =>
          cases goesOn : held.next? c with
          | some more =>
              rw [strip_of_next? completes goesOn]
              exact inductionHypothesis more
          | none =>
              rw [strip_of_refused completes goesOn]
              by_cases isEscape : c = escape
              · obtain ⟨before, stripped⟩ := inductionHypothesis .escape
                refine ⟨held.chars ++ before, ?_⟩
                rw [isEscape, strip_of_escape, stripped, List.append_assoc]
              · obtain ⟨before, stripped⟩ := inductionHypothesis .nothing
                refine ⟨held.chars ++ c :: before, ?_⟩
                rw [strip_of_ne_escape isEscape, stripped, List.append_assoc, List.cons_append]

/-- Stripping leaves a sequence exactly if one was broken up by others. -/
theorem holdsSequence_strip_iff {text : List Glyph} :
    HoldsSequence (strip .nothing text) ↔ HoldsBroken text := by
  constructor
  · rintro ⟨_, ⟨parameters, allowed, rfl⟩, front, back, isLeft⟩
    -- Go back to where the first and the last character of the sequence stood.
    have leaves := leaves_strip text
    rw [← isLeft, List.append_assoc, List.cons_append] at leaves
    obtain ⟨before, behind, rfl, -, starts, leaves⟩ := leaves.of_append_cons
    rw [← List.cons_append, List.append_assoc, List.singleton_append] at leaves
    obtain ⟨inside, rest, rfl, interspersed, -, -⟩ := leaves.of_append_cons
    refine ⟨_, ⟨parameters, inside, allowed, interspersed, ?_, rfl⟩, before, rest, by simp⟩
    -- Unbroken, it would have been taken out.
    rintro rfl
    exact starts ⟨_, ⟨parameters, allowed, rfl⟩, rest, by simp⟩
  · rintro ⟨_, ⟨parameters, inside, allowed, interspersed, broken, rfl⟩, front, rest, rfl⟩
    have starts := not_startsSequence_of_interspersed allowed interspersed broken rest
    have noEscape : escape ∉ Glyph.char '[' :: parameters :=
      not_mem_of_ne_bracket (by decide) (by decide) allowed
    obtain ⟨before, stripped⟩ :=
      exists_strip_append_escape .nothing front (inside ++ .char 'm' :: rest)
    rw [strip_of_not_startsSequence starts, interspersed.shows noEscape,
      strip_of_ne_escape (by decide)] at stripped
    refine ⟨_, ⟨parameters, allowed, rfl⟩, before, strip .nothing rest, ?_⟩
    simpa using stripped.symm

end Sgr

/-- Stripping takes out of a text the styling sequences that stand in it, and nothing else.
None is left, and stripping once more changes nothing, exactly if no sequence was broken up by
others. -/
theorem stripStyling_clears_iff (text : Text) :
    Sgr.Leaves text.toList (stripStyling text).toList ∧
      [¬ Sgr.HoldsSequence (stripStyling text).toList,
        stripStyling (stripStyling text) = stripStyling text,
        ¬ Sgr.HoldsBroken text.toList].TFAE := by
  have stripped : (stripStyling text).toList = Sgr.strip .nothing text.toList :=
    Text.toList_ofList
  rw [stripped]
  refine ⟨Sgr.leaves_strip text.toList, ?_⟩
  tfae_have 1 ↔ 3 := not_congr Sgr.holdsSequence_strip_iff
  tfae_have 1 ↔ 2 := by
    rw [← Sgr.strip_eq_self_iff, ← Text.toList_inj, stripStyling, Text.toList_ofList, stripped]
  tfae_finish

/-- An escape character in front of one sequence and the rest of another behind it: taking the
one out completes the other. -/
theorem stripStyling_leaves_sequence :
    stripStyling "\x1b\x1b[0m[0m" = "\x1b[0m" ∧
      Sgr.HoldsSequence (stripStyling "\x1b\x1b[0m[0m").toList ∧
      stripStyling (stripStyling "\x1b\x1b[0m[0m") ≠ stripStyling "\x1b\x1b[0m[0m" := by
  have left : stripStyling "\x1b\x1b[0m[0m" = "\x1b[0m" := by decide +kernel
  refine ⟨left, ?_, by decide +kernel⟩
  rw [left]
  exact ⟨_, ⟨['0'], by simp [Sgr.isParameter, Glyph.isDigit], rfl⟩, List.infix_refl _⟩

end ShellGloss
