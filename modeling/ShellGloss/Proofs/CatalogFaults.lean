/-
Module: ShellGloss.Proofs.CatalogFaults
Purpose: What comes of a catalog's file whatever bytes are in it: a catalog that passed its
  check, an error that names the file, or one of two breakdowns that nothing answers.
Imports: ShellGloss.Proofs.CatalogFile, ShellGloss.Proofs.JsonLimits
Main exports:
  Catalog.translated, Catalog.Accounts, Catalog.ofText_accounts, Catalog.load_undecodable_iff,
  Catalog.load_beyond_iff, load_accounts_iff
-/
import ShellGloss.Proofs.CatalogFile
import ShellGloss.Proofs.JsonLimits

namespace ShellGloss

namespace Catalog

/-- The text that is read from a file with a text in it. -/
def translated (text : String) : String := String.ofList (Text.unifyLineEnds text.toList)

theorem nesting_translated (text : String) :
    Json.nesting (translated text) = Json.nesting text := by
  rw [Json.nesting, translated, String.toList_ofList, Json.Reading.deepest_unifyLineEnds]
  rfl

/-- Loading accounts for a file: it gives the catalog that passed the check of the file's text,
or an error with the file's name. -/
def Accounts (disk : Disk) (route : Route) (bytes : List UInt8) : Prop :=
  (∃ text value catalog, bytes = Text.Utf8.encode text ∧
    Json.read (translated text) = .ok value ∧ Catalog.check value = .ok catalog ∧
      Catalog.load disk route = .ok catalog) ∨
  ∃ fault, Catalog.load disk route = .error (.faulty route.text fault)

theorem not_accounts_of_broken {disk : Disk} {route : Route} {bytes : List UInt8}
    {breakdown : Breakdown} (broken : load disk route = .error (.broken breakdown)) :
    ¬Accounts disk route bytes := by
  rintro (⟨text, value, catalog, -, -, -, loaded⟩ | ⟨fault, faulty⟩)
  · rw [broken] at loaded
    cases loaded
  · rw [broken] at faulty
    cases faulty

/-! ### Texts -/

/-- A text that is read within the limits gives a checked catalog or a fault of the file. -/
theorem ofText_accounts {source : Text} {text : String}
    (within : ∀ limit, Json.read text ≠ .error (.beyond limit)) :
    (∃ value catalog, Json.read text = .ok value ∧ Catalog.check value = .ok catalog ∧
      ofText source text = .ok catalog) ∨
    ∃ fault, ofText source text = .error (.faulty source fault) := by
  rw [ofText]
  cases isRead : Json.read text with
  | error fault =>
      cases fault with
      | beyond limit => exact absurd isRead (within limit)
      | malformed complaint line column offset => exact .inr ⟨_, rfl⟩
  | ok value =>
      dsimp only
      cases checked : Catalog.check value with
      | ok catalog => exact .inl ⟨value, catalog, rfl, checked, rfl⟩
      | error issues => exact .inr ⟨_, rfl⟩

/-- A text breaks the loading down only by a limit of the reader. -/
theorem ofText_broken_iff {source : Text} {text : String} {breakdown : Breakdown} :
    ofText source text = .error (.broken breakdown) ↔
      ∃ limit, breakdown = .beyond limit ∧ Json.read text = .error (.beyond limit) := by
  constructor
  · intro broken
    rw [ofText] at broken
    split at broken
    next limit isRead =>
      cases broken
      exact ⟨limit, rfl, isRead⟩
    next => cases broken
    next =>
      split at broken
      next => cases broken
      next => cases broken
  · rintro ⟨limit, rfl, isRead⟩
    rw [ofText, isRead]

theorem read_beyond_translated_iff {text : String} {limit : Json.Limit}
    (shallow : Json.nesting text ≤ Json.nestingLimit) :
    Json.read (translated text) = .error (.beyond limit) ↔
      ∃ count, limit = .digits count ∧ Json.HasOverlong count (translated text) := by
  cases limit with
  | digits count =>
      rw [Json.read_digits_iff]
      simp
  | nesting container =>
      refine ⟨?_, by simp⟩
      intro refused
      have deep := Json.nestingLimit_lt_of_read refused
      rw [nesting_translated] at deep
      exact absurd shallow (Nat.not_le.mpr deep)

/-! ### Bytes -/

theorem load_encode {disk : Disk} {route : Route} {text : String}
    (stored : disk.read route = .ok (Text.Utf8.encode text)) :
    load disk route = ofText route.text (translated text) := by
  rw [load, stored]
  dsimp only
  rw [ofBytes, Text.Utf8.decode_encode]
  rfl

/-- Bytes that are those of no text break the loading down, and no others do it in that way. -/
theorem load_undecodable_iff {disk : Disk} {route : Route} {bytes : List UInt8}
    (stored : disk.read route = .ok bytes) :
    (∃ fault, load disk route = .error (.broken (.undecodable fault))) ↔
      ¬∃ text, bytes = Text.Utf8.encode text := by
  constructor
  · rintro ⟨fault, broken⟩ ⟨text, rfl⟩
    rw [load_encode stored, ofText_broken_iff] at broken
    obtain ⟨limit, isBeyond, -⟩ := broken
    cases isBeyond
  · intro noText
    rw [load, stored]
    dsimp only
    rw [ofBytes]
    cases decoded : Text.Utf8.decode bytes with
    | error fault => exact ⟨fault, rfl⟩
    | ok text => exact absurd ⟨text, Text.Utf8.decode_eq_ok_iff.mp decoded⟩ noText

theorem load_beyond_iff {disk : Disk} {route : Route} {text : String} {limit : Json.Limit}
    (stored : disk.read route = .ok (Text.Utf8.encode text))
    (shallow : Json.nesting text ≤ Json.nestingLimit) :
    load disk route = .error (.broken (.beyond limit)) ↔
      ∃ count, limit = .digits count ∧ Json.HasOverlong count (translated text) := by
  rw [load_encode stored, ofText_broken_iff, ← read_beyond_translated_iff shallow]
  simp

/-- A file with a text in it is accounted for unless a number is too long. -/
theorem accounts_encode_iff {disk : Disk} {route : Route} {text : String}
    (stored : disk.read route = .ok (Text.Utf8.encode text))
    (shallow : Json.nesting text ≤ Json.nestingLimit) :
    Accounts disk route (Text.Utf8.encode text) ↔
      ∀ count, ¬Json.HasOverlong count (translated text) := by
  constructor
  · intro accounts count overlong
    have broken := (load_beyond_iff stored shallow).mpr ⟨count, rfl, overlong⟩
    exact not_accounts_of_broken broken accounts
  · intro noOverlong
    have within : ∀ limit, Json.read (translated text) ≠ .error (.beyond limit) := by
      intro limit refused
      obtain ⟨count, -, overlong⟩ := (read_beyond_translated_iff shallow).mp refused
      exact noOverlong count overlong
    rw [Accounts, load_encode stored]
    rcases ofText_accounts within with ⟨value, catalog, isRead, checked, loaded⟩ | faulty
    · exact .inl ⟨text, value, catalog, rfl, isRead, checked, loaded⟩
    · exact .inr faulty

end Catalog

/-! ### Files -/

/-- A file whose containers are not nested too deep is accounted for exactly if its bytes are
those of a text in which no value that is due is too long a whole number.  Bytes of no text
break the loading down, and so does such a number. -/
theorem load_accounts_iff {disk : Disk} {route : Route} {bytes : List UInt8}
    (stored : disk.read route = .ok bytes)
    (shallow : ∀ text, bytes = Text.Utf8.encode text → Json.nesting text ≤ Json.nestingLimit) :
    (Catalog.Accounts disk route bytes ↔
      ∃ text, bytes = Text.Utf8.encode text ∧
        ∀ count, ¬Json.HasOverlong count (Catalog.translated text)) ∧
    ((∃ fault, Catalog.load disk route = .error (.broken (.undecodable fault))) ↔
      ¬∃ text, bytes = Text.Utf8.encode text) ∧
    ∀ text, bytes = Text.Utf8.encode text → ∀ limit,
      (Catalog.load disk route = .error (.broken (.beyond limit)) ↔
        ∃ count, limit = .digits count ∧ Json.HasOverlong count (Catalog.translated text)) := by
  have undecodable := Catalog.load_undecodable_iff stored
  refine ⟨⟨?_, ?_⟩, undecodable, ?_⟩
  · intro accounts
    by_cases hasText : ∃ text, bytes = Text.Utf8.encode text
    · obtain ⟨text, rfl⟩ := hasText
      exact ⟨text, rfl, (Catalog.accounts_encode_iff stored (shallow text rfl)).mp accounts⟩
    · obtain ⟨fault, broken⟩ := undecodable.mpr hasText
      exact absurd accounts (Catalog.not_accounts_of_broken broken)
  · rintro ⟨text, rfl, noOverlong⟩
    exact (Catalog.accounts_encode_iff stored (shallow text rfl)).mpr noOverlong
  · rintro text rfl limit
    exact Catalog.load_beyond_iff stored (shallow text rfl)

/-- A text of nothing but so many nines. -/
def nines (count : Nat) : String := String.ofList (List.replicate count '9')

theorem Catalog.translated_nines (count : Nat) : translated (nines count) = nines count := by
  have noReturn : '\r' ∉ List.replicate count '9' := by simp [List.mem_replicate]
  rw [translated, nines, String.toList_ofList, Text.unifyLineEnds_eq_self noReturn]

theorem Json.nesting_nines (count : Nat) : nesting (nines count) = 0 := by
  rw [nesting, nines, String.toList_ofList]
  apply Reading.deepest_of_inert
  intro c among
  rw [List.eq_of_mem_replicate among]
  decide

theorem Json.hasOverlong_nines {count : Nat} (long : Reading.digitLimit < count) :
    HasOverlong count (nines count) := by
  have digits : ∀ c ∈ List.replicate count '9', c.isDigit = true := by
    intro c among
    rw [List.eq_of_mem_replicate among]
    rfl
  refine ⟨[], List.replicate count '9', by rw [nines, String.toList_ofList]; rfl, rfl, ?_⟩
  refine ⟨false, List.replicate count '9', [], by rw [List.append_nil]; rfl, ?_, ?_, ?_, long⟩
  · obtain ⟨fewer, rfl⟩ : ∃ fewer, count = fewer + 1 := ⟨count - 1, by omega⟩
    exact .positive rfl (by decide) digits
  · exact ⟨by rintro c ⟨⟩, rfl, rfl⟩
  · exact List.length_replicate

/-- A file of 4301 nines is not nested at all, and it breaks the loading down. -/
theorem load_accounts_iff_nines :
    (Disk.holding "k.json" (Text.Utf8.encode (nines 4301))).read ⟨"/", ["k.json"]⟩ =
        .ok (Text.Utf8.encode (nines 4301)) ∧
      Json.nesting (nines 4301) = 0 ∧
      Catalog.load (.holding "k.json" (Text.Utf8.encode (nines 4301))) ⟨"/", ["k.json"]⟩ =
        .error (.broken (.beyond (.digits 4301))) := by
  have stored := Disk.read_holding (Text.Utf8.encode (nines 4301))
  have shallow : ∀ text, Text.Utf8.encode (nines 4301) = Text.Utf8.encode text →
      Json.nesting text ≤ Json.nestingLimit := by
    intro text same
    rw [← Text.Utf8.encode_injective same, Json.nesting_nines]
    exact Nat.zero_le _
  obtain ⟨-, -, beyond⟩ := load_accounts_iff stored shallow
  refine ⟨stored, Json.nesting_nines 4301, (beyond _ rfl _).mpr ⟨4301, rfl, ?_⟩⟩
  rw [Catalog.translated_nines]
  exact Json.hasOverlong_nines (by decide)

/-- The byte 255 is the byte of no text: a file of it gives neither a catalog nor an error with
the file's name. -/
theorem load_not_accounts :
    (Disk.holding "k.json" [0xFF]).read ⟨"/", ["k.json"]⟩ = .ok [0xFF] ∧
      (∀ text, [0xFF] = Text.Utf8.encode text → Json.nesting text ≤ Json.nestingLimit) ∧
      ¬Catalog.Accounts (.holding "k.json" [0xFF]) ⟨"/", ["k.json"]⟩ [0xFF] := by
  have broken : Catalog.load (.holding "k.json" [0xFF]) ⟨"/", ["k.json"]⟩ =
      .error (.broken (.undecodable ⟨0, [0xFF], .invalidStart⟩)) := rfl
  refine ⟨Disk.read_holding [0xFF], ?_, Catalog.not_accounts_of_broken broken⟩
  intro text isText
  have decoded := Text.Utf8.decode_eq_ok_iff.mpr isText
  cases decoded

end ShellGloss
