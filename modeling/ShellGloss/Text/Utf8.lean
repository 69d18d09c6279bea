/-
Module: ShellGloss.Text.Utf8
Purpose: UTF-8: decoding, strictly, with the bytes and the reason of the first
  fault, or past every fault, and encoding of texts, strictly or as names of
  files.
Imports: ShellGloss.Text.Basic, ShellGloss.Text.Hex
Main exports:
  Utf8.Fault, Utf8.Fault.message, Utf8.decode, Utf8.decodePast, Utf8.encode,
  Utf8.encode?, Utf8.NameFault, Utf8.nameFault?, Utf8.nameSize
-/
import ShellGloss.Text.Basic
import ShellGloss.Text.Hex

namespace ShellGloss.Text.Utf8

/-- What stands for something that is no character. -/
def replacement : Char := '\uFFFD'

/-!
A character is one to four bytes.  The first byte fixes how many, and, to keep
out overlong forms, surrogates and numbers past U+10FFFF, it also narrows what
the second byte may be.  A fault covers the bytes of the character that were in
order, so it tells how much is skipped by whoever goes on behind it.
-/

/-- Why bytes are no character. -/
inductive Reason where
  | invalidStart
  | invalidContinuation
  | unexpectedEnd
deriving Repr, Inhabited, DecidableEq

/-- The wording of a reason. -/
def Reason.message : Reason → String
  | .invalidStart => "invalid start byte"
  | .invalidContinuation => "invalid continuation byte"
  | .unexpectedEnd => "unexpected end of data"

/-- The first fault of a byte sequence: where it starts, the bytes it covers and
why. -/
structure Fault where
  offset : Nat
  bytes : List UInt8
  reason : Reason
deriving Repr, Inhabited, DecidableEq

/-- The wording of a fault: one byte is shown, several are given by their
places. -/
def Fault.message (fault : Fault) : String :=
  let place :=
    match fault.bytes with
    | [b] =>
        "byte 0x" ++ String.ofList (hexDigits 2 b.toNat) ++ " in position " ++
          toString fault.offset
    | bytes =>
        "bytes in position " ++ toString fault.offset ++ "-" ++
          toString (fault.offset + bytes.length - 1)
  "'utf-8' codec can't decode " ++ place ++ ": " ++ fault.reason.message

/-- The shape of a character by its first byte: how many bytes follow, the range
of the second one, and the bits that the first one brings. -/
structure Lead where
  following : Nat
  low : Nat
  high : Nat
  bits : Nat
deriving Repr, Inhabited, DecidableEq

/-- The lead of a first byte, if it can be one. -/
def lead? (b : UInt8) : Option Lead :=
  let n := b.toNat
  if n < 0x80 then some ⟨0, 0x80, 0xBF, n⟩
  else if n < 0xC2 then none
  else if n < 0xE0 then some ⟨1, 0x80, 0xBF, n - 0xC0⟩
  else if n = 0xE0 then some ⟨2, 0xA0, 0xBF, 0⟩
  else if n = 0xED then some ⟨2, 0x80, 0x9F, 0xD⟩
  else if n < 0xF0 then some ⟨2, 0x80, 0xBF, n - 0xE0⟩
  else if n = 0xF0 then some ⟨3, 0x90, 0xBF, 0⟩
  else if n < 0xF4 then some ⟨3, 0x80, 0xBF, n - 0xF0⟩
  else if n = 0xF4 then some ⟨3, 0x80, 0x8F, 4⟩
  else none

/-- What the decoder has read of the current character. -/
inductive State where
  /-- Between two characters. -/
  | between
  /-- Inside one: its bytes so far, last first, its bits so far, how many bytes
  are still to come and the range of the next one. -/
  | inside (read : List UInt8) (bits : Nat) (following : Nat) (low high : Nat)
deriving Repr, Inhabited, DecidableEq

/-- The characters of a byte sequence from a state and an offset on. -/
def run (offset : Nat) : State → List UInt8 → Except Fault (List Char)
  | .between, [] => .ok []
  | .inside read _ _ _ _, [] =>
      .error ⟨offset - read.length, read.reverse, .unexpectedEnd⟩
  | .between, b :: rest =>
      match lead? b with
      | none => .error ⟨offset, [b], .invalidStart⟩
      | some ⟨0, _, _, bits⟩ => do
          let others ← run (offset + 1) .between rest
          return Char.ofNat bits :: others
      | some ⟨following + 1, low, high, bits⟩ =>
          run (offset + 1) (.inside [b] bits (following + 1) low high) rest
  | .inside read bits following low high, b :: rest =>
      if low ≤ b.toNat ∧ b.toNat ≤ high then
        let bits := bits * 64 + (b.toNat - 0x80)
        match following with
        | 0 | 1 => do
            let others ← run (offset + 1) .between rest
            return Char.ofNat bits :: others
        | more + 1 => run (offset + 1) (.inside (b :: read) bits more 0x80 0xBF) rest
      else
        .error ⟨offset - read.length, read.reverse, .invalidContinuation⟩

/-- The text of a byte sequence. -/
def decode (bytes : List UInt8) : Except Fault String :=
  match run 0 .between bytes with
  | .ok chars => .ok (String.ofList chars)
  | .error fault => .error fault

/-- What a byte between two characters brings: what is shown of it at once, and
the state behind it. -/
def enter (b : UInt8) : List Char × State :=
  match lead? b with
  | none => ([replacement], .between)
  | some ⟨0, _, _, bits⟩ => ([Char.ofNat bits], .between)
  | some ⟨following + 1, low, high, bits⟩ =>
      ([], .inside [b] bits (following + 1) low high)

/-- The characters of a byte sequence from a state on.  The bytes of one fault
are shown as one replacement, and the byte that a character could not go on with
is looked at afresh. -/
def runPast : State → List UInt8 → List Char
  | .between, [] => []
  | .inside _ _ _ _ _, [] => [replacement]
  | .between, b :: rest =>
      let (shown, next) := enter b
      shown ++ runPast next rest
  | .inside read bits following low high, b :: rest =>
      if low ≤ b.toNat ∧ b.toNat ≤ high then
        let bits := bits * 64 + (b.toNat - 0x80)
        match following with
        | 0 | 1 => Char.ofNat bits :: runPast .between rest
        | more + 1 => runPast (.inside (b :: read) bits more 0x80 0xBF) rest
      else
        let (shown, next) := enter b
        replacement :: (shown ++ runPast next rest)

/-- The text of a byte sequence, with a replacement for each fault. -/
def decodePast (bytes : List UInt8) : String :=
  String.ofList (runPast .between bytes)

/-! ### Encoding -/

/-- The bytes of characters. -/
def encode (s : String) : List UInt8 := s.toList.flatMap String.utf8EncodeChar

/-- The bytes of a text.  A half of a pair that stands alone has none, and one is
enough to refuse the text. -/
def encode? (text : Text) : Option (List UInt8) := text.plain?.map encode

/-!
A name of a file may hold bytes that are no UTF-8.  Each of them is a half from
U+DC80 to U+DCFF in a text, and is a byte again when the text names a file; the
other halves still have none.
-/

/-- The bytes that a glyph gives the name of a file. -/
def nameBytes? : Glyph → Option (List UInt8)
  | .char c => some (String.utf8EncodeChar c)
  | .half index =>
      if 0x480 ≤ index.val ∧ index.val < 0x500 then some [UInt8.ofNat (index.val - 0x400)]
      else none

/-- How many bytes the name of a file has. -/
def nameSize (text : Text) : Nat := (text.toList.flatMap fun c => (nameBytes? c).getD []).length

/-- Why a text names no file: it holds the character that none may hold, or, from
an offset on, halves of which the first has no byte. -/
inductive NameFault where
  | nul
  | unencodable (offset : Nat) (halves : List Glyph)
deriving Repr, Inhabited, DecidableEq

/-- The wording of a fault: one half is shown, several are given by their
places. -/
def NameFault.message : NameFault → String
  | .nul => "embedded null byte"
  | .unencodable offset halves =>
      let place :=
        match halves with
        | [half] =>
            "character '" ++ String.ofList half.spelled ++ "' in position " ++ toString offset
        | halves =>
            "characters in position " ++ toString offset ++ "-" ++
              toString (offset + halves.length - 1)
      "'utf-8' codec can't encode " ++ place ++ ": surrogates not allowed"

/-- The first half without a byte, with the halves right behind it; the glyphs are
counted from `offset` on. -/
def unencodable? (offset : Nat) : List Glyph → Option NameFault
  | [] => none
  | c :: rest =>
      if (nameBytes? c).isSome then unencodable? (offset + 1) rest
      else some (.unencodable offset (c :: rest.takeWhile fun d => d.char?.isNone))

/-- Why a text names no file, if it does not. -/
def nameFault? (text : Text) : Option NameFault :=
  match unencodable? 0 text.toList with
  | some fault => some fault
  | none => if text.toList.contains '\x00' then some .nul else none

/-- A glyph that the name of a file may hold. -/
def isNameable (c : Glyph) : Bool := (nameBytes? c).isSome && c != .char '\x00'

theorem unencodable?_eq_none_iff (offset : Nat) {glyphs : List Glyph} :
    unencodable? offset glyphs = none ↔ ∀ c ∈ glyphs, (nameBytes? c).isSome = true := by
  induction glyphs generalizing offset with
  | nil => simp [unencodable?]
  | cons c rest inductionHypothesis =>
      rw [unencodable?, List.forall_mem_cons, ← inductionHypothesis (offset + 1)]
      split <;> simp [*]

/-- A text names a file exactly if each of its glyphs may stand in a name. -/
theorem nameFault?_eq_none_iff {text : Text} :
    nameFault? text = none ↔ ∀ c ∈ text.toList, isNameable c = true := by
  have each : (∀ c ∈ text.toList, isNameable c = true) ↔
      (∀ c ∈ text.toList, (nameBytes? c).isSome = true) ∧ Glyph.char '\x00' ∉ text.toList := by
    simp only [isNameable, Bool.and_eq_true, bne_iff_ne]
    constructor
    · intro nameable
      exact ⟨fun c isThere => (nameable c isThere).1, fun isThere => (nameable _ isThere).2 rfl⟩
    · rintro ⟨bytes, noNul⟩ c isThere
      exact ⟨bytes c isThere, fun isNul => noNul (isNul ▸ isThere)⟩
  rw [each, ← unencodable?_eq_none_iff 0, nameFault?]
  split <;> simp [*]

end ShellGloss.Text.Utf8
