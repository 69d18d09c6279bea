/-
Module: ShellGloss.Text.Basic
Purpose: What text from outside may hold: characters, and halves of surrogate
  pairs that stand alone.
Main exports:
  Glyph, Glyph.code, Text, Text.ofString, Text.isPlain, Text.plain?, Text.spelled
-/
import ShellGloss.Text.Hex

namespace ShellGloss

/-!
A `String` holds characters only.  An argument whose bytes are no UTF-8, and an
escape in a JSON text, can also bring half of a surrogate pair without the other
half.  Every text that may come from outside is therefore a list of glyphs, and
plain texts are among them as they are.
-/

/-- Whether a number is the first half of a surrogate pair. -/
def isHighHalf (n : Nat) : Bool := 0xD800 ≤ n && n ≤ 0xDBFF

/-- Whether a number is the second half of a surrogate pair. -/
def isLowHalf (n : Nat) : Bool := 0xDC00 ≤ n && n ≤ 0xDFFF

/-- A character, or half of a surrogate pair that stands alone.  The halves are
counted from U+D800 on. -/
inductive Glyph where
  | char (c : Char)
  | half (index : Fin 0x800)
deriving Repr, Inhabited, DecidableEq

namespace Glyph

instance : Coe Char Glyph := ⟨.char⟩

/-- The number of a glyph. -/
def code : Glyph → Nat
  | .char c => c.toNat
  | .half index => 0xD800 + index

/-- The glyph of a number below `2 ^ 16`. -/
def ofCode (n : Nat) : Glyph :=
  if below : n - 0xD800 < 0x800 ∧ 0xD800 ≤ n then .half ⟨n - 0xD800, below.1⟩
  else .char (Char.ofNat n)

/-- The glyph of the two halves of a pair. -/
def ofHalves (high low : Nat) : Glyph :=
  .char (Char.ofNat (0x10000 + (high - 0xD800) * 0x400 + (low - 0xDC00)))

/-- The character of a glyph; a half alone has none. -/
def char? : Glyph → Option Char
  | .char c => some c
  | .half _ => none

/-- A half as the escape that spells it; a character stands as it is. -/
def spelled : Glyph → List Char
  | .char c => [c]
  | .half index => '\\' :: 'u' :: Text.hexDigits 4 (0xD800 + index)

/-- A decimal digit. -/
def isDigit : Glyph → Bool
  | .char c => c.isDigit
  | .half _ => false

/-- A letter from `A` to `Z`, small or capital. -/
def isAlpha : Glyph → Bool
  | .char c => c.isAlpha
  | .half _ => false

/-- A letter or a digit. -/
def isAlphanum (glyph : Glyph) : Bool := glyph.isAlpha || glyph.isDigit

/-- The small form of a letter from `A` to `Z`. -/
def toLower : Glyph → Glyph
  | .char c => .char c.toLower
  | .half index => .half index

/-- Numbers tell glyphs apart. -/
theorem code_injective {one two : Glyph} (same : one.code = two.code) : one = two := by
  cases one with
  | char c =>
      cases two with
      | char d => exact congrArg _ (Char.toNat_inj.mp same)
      | half j =>
          have valid : c.toNat < 0xD800 ∨ 0xDFFF < c.toNat ∧ c.toNat < 0x110000 := c.valid
          have small := j.isLt
          simp only [code] at same
          omega
  | half i =>
      cases two with
      | char d =>
          have valid : d.toNat < 0xD800 ∨ 0xDFFF < d.toNat ∧ d.toNat < 0x110000 := d.valid
          have small := i.isLt
          simp only [code] at same
          omega
      | half j =>
          simp only [code] at same
          exact congrArg _ (Fin.ext (by omega))

end Glyph

/-- A text, as its glyphs in order. -/
structure Text where
  ofList ::
  toList : List Glyph
deriving Repr, Inhabited, DecidableEq

namespace Text

/-- A text of characters. -/
def ofString (s : String) : Text := ⟨s.toList.map .char⟩

instance : Coe String Text := ⟨ofString⟩

instance : Append Text := ⟨fun one two => ⟨one.toList ++ two.toList⟩⟩

/-- How many glyphs a text has. -/
def length (text : Text) : Nat := text.toList.length

/-- Whether a text has no glyph at all. -/
def isEmpty (text : Text) : Bool := text.toList.isEmpty

/-- The text of one glyph. -/
def singleton (glyph : Glyph) : Text := ⟨[glyph]⟩

/-- Whether a text holds characters only. -/
def isPlain (text : Text) : Bool := text.toList.all fun c => c.char?.isSome

/-- The characters of a text in which no half stands. -/
def plain? (text : Text) : Option String :=
  if text.isPlain then some (String.ofList (text.toList.filterMap Glyph.char?)) else none

/-- A text as characters, in which halves are spelled out. -/
def spelled (text : Text) : String := String.ofList (text.toList.flatMap Glyph.spelled)

/-! ### Texts as lists -/

@[simp] theorem toList_ofList {glyphs : List Glyph} : (ofList glyphs).toList = glyphs := rfl

@[simp] theorem ofList_toList {text : Text} : ofList text.toList = text := rfl

theorem toList_inj {one two : Text} : one.toList = two.toList ↔ one = two :=
  ⟨fun same => congrArg ofList same, fun same => congrArg toList same⟩

theorem toList_injective : Function.Injective toList := fun _ _ same => toList_inj.mp same

theorem ofList_inj {one two : List Glyph} : ofList one = ofList two ↔ one = two :=
  ⟨fun same => congrArg toList same, fun same => congrArg ofList same⟩

@[simp] theorem toList_append (one two : Text) :
    (one ++ two).toList = one.toList ++ two.toList := rfl

theorem ofList_append {one two : List Glyph} : ofList (one ++ two) = ofList one ++ ofList two :=
  rfl

@[simp] theorem toList_singleton (glyph : Glyph) : (singleton glyph).toList = [glyph] := rfl

theorem append_assoc (one two three : Text) : one ++ two ++ three = one ++ (two ++ three) :=
  congrArg ofList (List.append_assoc one.toList two.toList three.toList)

@[simp] theorem length_toList (text : Text) : text.toList.length = text.length := rfl

@[simp] theorem length_ofList (glyphs : List Glyph) : (ofList glyphs).length = glyphs.length := rfl

/-! ### Plain texts -/

@[simp] theorem toList_ofString (s : String) : (ofString s).toList = s.toList.map .char := rfl

@[simp] theorem ofList_nil : ofList [] = ofString "" := rfl

@[simp] theorem isEmpty_iff {text : Text} : text.isEmpty = true ↔ text = ofString "" := by
  rw [isEmpty, List.isEmpty_iff, ← toList_inj, toList_ofString]
  rfl

theorem ofString_append (one two : String) :
    ofString (one ++ two) = ofString one ++ ofString two := by
  apply toList_inj.mp
  simp

@[simp] theorem empty_append (text : Text) : ofString "" ++ text = text := by
  apply toList_inj.mp
  simp

@[simp] theorem append_empty (text : Text) : text ++ ofString "" = text := by
  apply toList_inj.mp
  simp

@[simp] theorem append_eq_empty_iff {one two : Text} :
    one ++ two = ofString "" ↔ one = ofString "" ∧ two = ofString "" := by
  simp only [← toList_inj, toList_append, toList_ofString, String.toList_empty, List.map_nil,
    List.append_eq_nil_iff]

@[simp] theorem empty_eq_append_iff {one two : Text} :
    ofString "" = one ++ two ↔ one = ofString "" ∧ two = ofString "" :=
  eq_comm.trans append_eq_empty_iff

@[simp] theorem isPlain_ofString (s : String) : (ofString s).isPlain = true := by
  rw [isPlain, toList_ofString, List.all_map, List.all_eq_true]
  exact fun c _ => rfl

@[simp] theorem isPlain_append (one two : Text) :
    (one ++ two).isPlain = (one.isPlain && two.isPlain) := List.all_append

/-- A text is plain exactly if it is one of characters. -/
theorem isPlain_iff {text : Text} : text.isPlain = true ↔ ∃ s, text = ofString s := by
  constructor
  · intro plain
    have chars (glyphs : List Glyph) (plain : glyphs.all (fun c => c.char?.isSome) = true) :
        ∃ cs : List Char, glyphs = cs.map .char := by
      induction glyphs with
      | nil => exact ⟨[], rfl⟩
      | cons glyph rest inductionHypothesis =>
          rw [List.all_cons, Bool.and_eq_true] at plain
          obtain ⟨cs, rfl⟩ := inductionHypothesis plain.2
          cases glyph with
          | char c => exact ⟨c :: cs, rfl⟩
          | half index => exact absurd plain.1 Bool.false_ne_true
    obtain ⟨cs, spelled⟩ := chars text.toList plain
    refine ⟨String.ofList cs, toList_inj.mp ?_⟩
    rw [spelled, toList_ofString, String.toList_ofList]
  · rintro ⟨s, rfl⟩
    exact isPlain_ofString s

/-- Characters are read back as their text. -/
@[simp] theorem plain?_ofString (s : String) : (ofString s).plain? = some s := by
  have chars : (s.toList.map Glyph.char).filterMap Glyph.char? = s.toList := by
    rw [List.filterMap_map]
    exact List.filterMap_some
  rw [plain?, if_pos (isPlain_ofString s), toList_ofString, chars, String.ofList_toList]

theorem plain?_eq_none_iff {text : Text} : text.plain? = none ↔ text.isPlain = false := by
  simp [plain?]

@[simp] theorem ofString_inj {one two : String} : ofString one = ofString two ↔ one = two := by
  refine ⟨fun same => ?_, congrArg ofString⟩
  have read := congrArg plain? same
  rw [plain?_ofString, plain?_ofString] at read
  exact Option.some.inj read

/-! ### Order -/

/-- The numbers of a text's glyphs. -/
def codes (text : Text) : List Nat := text.toList.map Glyph.code

/-- Texts stand in the order of the numbers of their glyphs. -/
instance : LT Text := ⟨fun one two => List.lt one.codes two.codes⟩

instance : LE Text := ⟨fun one two => ¬ two < one⟩

instance : DecidableLT Text := fun one two =>
  @List.decidableLex Nat instDecidableEqNat (· < ·) Nat.decLt one.codes two.codes

theorem codes_injective {one two : Text} (same : one.codes = two.codes) : one = two :=
  toList_inj.mp (List.map_inj_right (fun _ _ => Glyph.code_injective) |>.mp same)

theorem not_lt {one two : Text} : ¬ one < two ↔ two ≤ one := .rfl

theorem lt_irrefl (text : Text) : ¬ text < text := List.lt_irrefl text.codes

theorem lt_asymm {one two : Text} (less : one < two) : ¬ two < one := List.lt_asymm less

theorem le_total (one two : Text) : one ≤ two ∨ two ≤ one := List.le_total one.codes two.codes

theorem le_trans {one two three : Text} (first : one ≤ two) (second : two ≤ three) :
    one ≤ three :=
  @List.le_trans Nat _ _ _ _ one.codes two.codes three.codes first second

theorem le_antisymm {one two : Text} (below : one ≤ two) (above : two ≤ one) : one = two :=
  codes_injective (List.le_antisymm below above)

end Text

end ShellGloss
