/-
Module: ShellGloss.Proofs.JsonStrings
Purpose: A string that was written is read as the text it was written for, whichever of
  its characters were spelled as escapes.
Imports: Mathlib.Data.List.Chain, ShellGloss.Json.Reader, ShellGloss.Json.Writer
Main exports:
  Glyph.Apart, Text.Settled, Json.Reading.string_glyphs
-/
import Mathlib.Data.List.Chain
import ShellGloss.Json.Reader
import ShellGloss.Json.Writer

namespace ShellGloss

/-- Two neighbours that are not the halves of one character. -/
def Glyph.Apart (one two : Glyph) : Prop :=
  ¬ (isHighHalf one.code = true ∧ isLowHalf two.code = true)

/-- A text in which every half stands alone. -/
def Text.Settled (text : Text) : Prop := text.toList.IsChain Glyph.Apart

/-- The number of a surrogate half. -/
def IsHalf (n : Nat) : Prop := isHighHalf n = true ∨ isLowHalf n = true

theorem isHalf_iff {n : Nat} : IsHalf n ↔ 0xD800 ≤ n ∧ n ≤ 0xDFFF := by
  simp only [IsHalf, isHighHalf, isLowHalf, Bool.and_eq_true, decide_eq_true_eq]
  omega

/-- No character is a half. -/
theorem not_isHalf_toNat (c : Char) : ¬ IsHalf c.toNat := by
  have valid : c.toNat < 0xD800 ∨ 0xDFFF < c.toNat ∧ c.toNat < 0x110000 := c.valid
  rw [isHalf_iff]
  omega

theorem Glyph.Apart.char_left (c : Char) (next : Glyph) : Apart (.char c) next :=
  fun pair => not_isHalf_toNat c (.inl pair.1)

theorem Text.Settled.tail {glyph : Glyph} {rest : List Glyph}
    (settled : Settled (ofList (glyph :: rest))) : Settled (ofList rest) :=
  List.IsChain.tail settled

/-- Characters alone make a settled text. -/
theorem Text.settled_ofString (s : String) : Settled (ofString s) := by
  rw [Settled, toList_ofString]
  induction s.toList with
  | nil => exact .nil
  | cons c rest inductionHypothesis =>
      exact List.isChain_cons.mpr ⟨fun next _ => .char_left c next, inductionHypothesis⟩

theorem Text.settled_of_isPlain {text : Text} (plain : text.isPlain = true) : Settled text := by
  obtain ⟨s, rfl⟩ := isPlain_iff.mp plain
  exact settled_ofString s

/-- A number below `2 ^ 16` gives a half if it is that of one. -/
theorem Glyph.ofCode_half (index : Fin 0x800) :
    Glyph.ofCode (0xD800 + index) = .half index := by
  have small := index.isLt
  rw [ofCode, dif_pos ⟨by omega, by omega⟩]
  exact congrArg _ (Fin.ext (Nat.add_sub_cancel_left ..))

theorem Glyph.ofCode_toNat {c : Char} (small : c.toNat < 0x10000) :
    Glyph.ofCode c.toNat = .char c := by
  have noHalf := not_isHalf_toNat c
  rw [isHalf_iff] at noHalf
  rw [ofCode, dif_neg (by omega), c.ofNat_toNat]

namespace Json

/-! ### The spelling of a character -/

namespace Writing

open Reading (StringUnit)

/-- The numbers that escape a character: its own, or those of the two halves of a pair. -/
def codeUnits (c : Char) : List StringUnit :=
  if c.toNat < 0x10000 then [.code c.toNat]
  else
    [.code (0xD800 + (c.toNat - 0x10000) / 0x400),
      .code (0xDC00 + (c.toNat - 0x10000) % 0x400)]

/-- The units that a written character is read as. -/
def charUnits (asciiOnly : Bool) (c : Char) : List StringUnit :=
  if (charText asciiOnly c).take 2 = ['\\', 'u'] then codeUnits c else [.char c]

/-- The units that a written glyph is read as. -/
def glyphUnits (asciiOnly : Bool) : Glyph → List StringUnit
  | .char c => charUnits asciiOnly c
  | .half index => [.code (0xD800 + index)]

/-- The three ways to write a character: an escape by number, an escape by letter, or as it
is. -/
theorem charText_cases (asciiOnly : Bool) (c : Char) :
    charText asciiOnly c = charEscape c ∨
      (∃ e, charText asciiOnly c = ['\\', e] ∧ e ≠ 'u' ∧ Reading.escaped? e = some c) ∨
      (charText asciiOnly c = [c] ∧ c ≠ '\x22' ∧ c ≠ '\\' ∧ 0x1F < c.toNat) := by
  generalize written : charText asciiOnly c = text
  -- One test for a character that a letter stands for, and what holds where it fails.
  have tested {d e : Char} {otherwise : List Char}
      (spelled : (if c = d then ['\\', e] else otherwise) = text) (notU : e ≠ 'u')
      (stands : Reading.escaped? e = some d) :
      (∃ e, text = ['\\', e] ∧ e ≠ 'u' ∧ Reading.escaped? e = some c) ∨
        c ≠ d ∧ otherwise = text := by
    by_cases same : c = d
    · rw [if_pos same] at spelled
      exact .inl ⟨e, spelled.symm, notU, by rw [same, stands]⟩
    · rw [if_neg same] at spelled
      exact .inr ⟨same, spelled⟩
  rw [charText] at written
  rcases tested written (by decide) rfl with found | ⟨notQuote, written⟩
  · exact .inr (.inl found)
  rcases tested written (by decide) rfl with found | ⟨notBackslash, written⟩
  · exact .inr (.inl found)
  rcases tested written (by decide) rfl with found | ⟨-, written⟩
  · exact .inr (.inl found)
  rcases tested written (by decide) rfl with found | ⟨-, written⟩
  · exact .inr (.inl found)
  rcases tested written (by decide) rfl with found | ⟨-, written⟩
  · exact .inr (.inl found)
  rcases tested written (by decide) rfl with found | ⟨-, written⟩
  · exact .inr (.inl found)
  rcases tested written (by decide) rfl with found | ⟨-, written⟩
  · exact .inr (.inl found)
  split at written
  · exact .inl written.symm
  next printed =>
    split at written
    · exact .inl written.symm
    · exact .inr (.inr ⟨written.symm, notQuote, notBackslash, by omega⟩)

theorem take_charEscape (c : Char) : (charEscape c).take 2 = ['\\', 'u'] := by
  unfold charEscape
  dsimp only
  split
  · rfl
  · rfl

end Writing

/-! ### One character of a string -/

namespace Reading

open Writing (codeUnits charUnits glyphUnits)

/-- More units in front of those that were read. -/
def inFront (units : List StringUnit) (read : List StringUnit × List Char) :
    List StringUnit × List Char :=
  (units ++ read.1, read.2)

theorem stringUnits_closing (opening rest : List Char) :
    stringUnits opening ('\x22' :: rest) = .ok ([], rest) := by
  rw [stringUnits]
  · rfl
  all_goals simp

theorem stringUnits_plain {c : Char} (notQuote : c ≠ '\x22') (notBackslash : c ≠ '\\')
    (printed : 0x1F < c.toNat) (opening rest : List Char) :
    stringUnits opening (c :: rest) = (stringUnits opening rest).map (inFront [.char c]) := by
  rw [stringUnits]
  · rw [if_neg notQuote, if_neg (Nat.not_le.mpr printed)]
    rfl
  all_goals simp [notBackslash]

theorem stringUnits_letter {e c : Char} (notU : e ≠ 'u') (stands : escaped? e = some c)
    (opening rest : List Char) :
    stringUnits opening ('\\' :: e :: rest) =
      (stringUnits opening rest).map (inFront [.char c]) := by
  rw [stringUnits]
  · rw [stands]
    rfl
  all_goals simp [notU]

theorem hexUnit?_hexDigits {n : Nat} (small : n < 0x10000) :
    ∃ a b c d, Text.hexDigits 4 n = [a, b, c, d] ∧ hexUnit? a b c d = some n := by
  refine ⟨_, _, _, _, rfl, ?_⟩
  have digit (m : Nat) : Text.hexValue? (Text.hexDigit (m % 16)) = some (m % 16) :=
    Text.hexValue?_hexDigit _ (Nat.mod_lt m (by decide))
  simp only [hexUnit?, digit, Option.bind_eq_bind, Option.bind_some, Option.pure_def]
  congr 1
  omega

/-- An escape by number, with something behind it. -/
theorem stringUnits_code {n : Nat} (small : n < 0x10000) (opening : List Char)
    {rest : List Char} (more : rest ≠ []) :
    stringUnits opening (Writing.unitEscape n ++ rest) =
      (stringUnits opening rest).map (inFront [.code n]) := by
  obtain ⟨a, b, c, d, digits, value⟩ := hexUnit?_hexDigits small
  obtain ⟨next, others, rfl⟩ := List.exists_cons_of_ne_nil more
  rw [Writing.unitEscape, digits]
  simp only [List.cons_append, List.nil_append]
  rw [stringUnits, value]
  rfl

/-- A written character is read as its units. -/
theorem stringUnits_charText (asciiOnly : Bool) (c : Char) (opening : List Char)
    {rest : List Char} (more : rest ≠ []) :
    stringUnits opening (Writing.charText asciiOnly c ++ rest) =
      (stringUnits opening rest).map (inFront (charUnits asciiOnly c)) := by
  rcases Writing.charText_cases asciiOnly c with
    spelled | ⟨e, spelled, notU, stands⟩ | ⟨spelled, notQuote, notBackslash, printed⟩
  · rw [charUnits, spelled, if_pos (Writing.take_charEscape c), Writing.charEscape, codeUnits]
    split
    next small => exact stringUnits_code small opening more
    next large =>
      have highSmall : 0xD800 + (c.toNat - 0x10000) / 0x400 < 0x10000 := by
        have valid : c.toNat < 0xD800 ∨ 0xDFFF < c.toNat ∧ c.toNat < 0x110000 := c.valid
        omega
      have lowSmall : 0xDC00 + (c.toNat - 0x10000) % 0x400 < 0x10000 := by omega
      have between : Writing.unitEscape (0xDC00 + (c.toNat - 0x10000) % 0x400) ++ rest ≠ [] :=
        List.append_ne_nil_of_right_ne_nil _ more
      rw [List.append_assoc, stringUnits_code highSmall opening between,
        stringUnits_code lowSmall opening more]
      cases stringUnits opening rest <;> rfl
  · rw [charUnits, spelled, if_neg (by simpa using notU)]
    exact stringUnits_letter notU stands opening rest
  · rw [charUnits, spelled, if_neg (by simp)]
    exact stringUnits_plain notQuote notBackslash printed opening rest

theorem stringUnits_glyphText (asciiOnly : Bool) (glyph : Glyph) (opening : List Char)
    {rest : List Char} (more : rest ≠ []) :
    stringUnits opening (Writing.glyphText asciiOnly glyph ++ rest) =
      (stringUnits opening rest).map (inFront (glyphUnits asciiOnly glyph)) := by
  cases glyph with
  | char c => exact stringUnits_charText asciiOnly c opening more
  | half index =>
      have small := index.isLt
      exact stringUnits_code (by omega) opening more

/-- Written glyphs up to the closing quote are read as their units. -/
theorem stringUnits_glyphs (asciiOnly : Bool) (glyphs : List Glyph)
    (opening rest : List Char) :
    stringUnits opening (glyphs.flatMap (Writing.glyphText asciiOnly) ++ '\x22' :: rest) =
      .ok (glyphs.flatMap (glyphUnits asciiOnly), rest) := by
  induction glyphs with
  | nil => exact stringUnits_closing opening rest
  | cons glyph others inductionHypothesis =>
      rw [List.flatMap_cons, List.append_assoc,
        stringUnits_glyphText asciiOnly glyph opening (by simp), inductionHypothesis]
      rfl

/-! ### Halves of pairs -/

theorem joinUnits_pair {high low : Nat} (isHigh : isHighHalf high = true)
    (isLow : isLowHalf low = true) (units : List StringUnit) :
    joinUnits (.code high :: .code low :: units) = .ofHalves high low :: joinUnits units := by
  simp [joinUnits, isHigh, isLow]

/-- A number that is not put together with the next one. -/
theorem joinUnits_alone {n : Nat} {units : List StringUnit}
    (alone : ∀ m others, units = .code m :: others →
      ¬ (isHighHalf n = true ∧ isLowHalf m = true)) :
    joinUnits (.code n :: units) = .ofCode n :: joinUnits units := by
  match units with
  | [] => rfl
  | .char c :: others => rfl
  | .code m :: others =>
      have apart := alone m others rfl
      rw [joinUnits, if_neg (by simpa using apart)]

/-- The halves that a character is spelled by come together again. -/
theorem joinUnits_codeUnits (c : Char) (units : List StringUnit) :
    joinUnits (codeUnits c ++ units) = .char c :: joinUnits units := by
  have whole : Char.ofNat c.toNat = c := c.ofNat_toNat
  have noHalf := not_isHalf_toNat c
  have valid : c.toNat < 0xD800 ∨ 0xDFFF < c.toNat ∧ c.toNat < 0x110000 := c.valid
  unfold codeUnits
  split
  next small =>
    rw [List.singleton_append, joinUnits_alone, Glyph.ofCode_toNat small]
    rintro m others - ⟨isHigh, -⟩
    exact noHalf (.inl isHigh)
  next large =>
    have isHigh : isHighHalf (0xD800 + (c.toNat - 0x10000) / 0x400) = true := by
      simp only [isHighHalf, Bool.and_eq_true, decide_eq_true_eq]
      omega
    have isLow : isLowHalf (0xDC00 + (c.toNat - 0x10000) % 0x400) = true := by
      simp only [isLowHalf, Bool.and_eq_true, decide_eq_true_eq]
      omega
    have number : 0x10000 + (0xD800 + (c.toNat - 0x10000) / 0x400 - 0xD800) * 0x400 +
        (0xDC00 + (c.toNat - 0x10000) % 0x400 - 0xDC00) = c.toNat := by
      omega
    rw [List.cons_append, List.singleton_append, joinUnits_pair isHigh isLow,
      Glyph.ofHalves, number, whole]

theorem joinUnits_charUnits (asciiOnly : Bool) (c : Char) (units : List StringUnit) :
    joinUnits (charUnits asciiOnly c ++ units) = .char c :: joinUnits units := by
  unfold charUnits
  split
  · exact joinUnits_codeUnits c units
  · rfl

/-- No character begins with the second half of a pair. -/
theorem not_isLowHalf_of_charUnits {asciiOnly : Bool} {c : Char} {units others : List StringUnit}
    {m : Nat} (begins : charUnits asciiOnly c ++ units = .code m :: others) :
    ¬ isLowHalf m = true := by
  have noHalf := not_isHalf_toNat c
  have valid : c.toNat < 0xD800 ∨ 0xDFFF < c.toNat ∧ c.toNat < 0x110000 := c.valid
  intro isLow
  unfold charUnits codeUnits at begins
  split at begins
  · split at begins
    · cases begins
      exact noHalf (.inr isLow)
    · cases begins
      simp only [isLowHalf, Bool.and_eq_true, decide_eq_true_eq] at isLow
      omega
  · cases begins

/-- A half does not take in anything of a settled text behind it. -/
theorem not_pair_of_settled {asciiOnly : Bool} {index : Fin 0x800} {m : Nat} {rest : List Glyph}
    {others : List StringUnit} (settled : Text.Settled (.ofList (.half index :: rest)))
    (begins : rest.flatMap (glyphUnits asciiOnly) = .code m :: others) :
    ¬ (isHighHalf (0xD800 + index) = true ∧ isLowHalf m = true) := by
  cases rest with
  | nil => cases begins
  | cons next behind =>
      cases next with
      | char c =>
          rintro ⟨-, isLow⟩
          exact not_isLowHalf_of_charUnits begins isLow
      | half k =>
          cases begins
          exact (List.isChain_cons_cons.mp settled).1

/-- However its characters are spelled, a settled text comes out as it is. -/
theorem joinUnits_glyphUnits (asciiOnly : Bool) {glyphs : List Glyph}
    (settled : Text.Settled (.ofList glyphs)) :
    joinUnits (glyphs.flatMap (glyphUnits asciiOnly)) = glyphs := by
  induction glyphs with
  | nil => rfl
  | cons glyph rest inductionHypothesis =>
      have behind := inductionHypothesis settled.tail
      rw [List.flatMap_cons]
      cases glyph with
      | char c => rw [glyphUnits, joinUnits_charUnits, behind]
      | half index =>
          rw [glyphUnits, List.singleton_append,
            joinUnits_alone fun m others begins => not_pair_of_settled settled begins, behind,
            Glyph.ofCode_half]

/-! ### Whole strings -/

/-- A settled text that was written is read as it is. -/
theorem string_glyphs (asciiOnly : Bool) {text : Text} (settled : text.Settled)
    (opening rest : List Char) :
    string opening (text.toList.flatMap (Writing.glyphText asciiOnly) ++ '\x22' :: rest) =
      .ok (text, rest) := by
  have joined : joinUnits (text.toList.flatMap (glyphUnits asciiOnly)) = text.toList :=
    joinUnits_glyphUnits asciiOnly settled
  rw [string, stringUnits_glyphs]
  exact congrArg (fun read => Except.ok (Text.ofList read, rest)) joined

end Reading

end Json

end ShellGloss
