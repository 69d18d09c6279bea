/-
Module: ShellGloss.Proofs.Utf8RoundTrip
Purpose: The bytes of a text decode to the text, and no other bytes do.
Imports: ShellGloss.Text.Utf8
Main exports:
  Text.Utf8.run_encodeChar, Text.Utf8.decode_encode, Text.Utf8.decode_eq_ok_iff
-/
import ShellGloss.Text.Utf8

namespace ShellGloss.Text.Utf8

/-! ### The decoder byte by byte -/

theorem run_one {b : UInt8} (small : b.toNat < 0x80) (offset : Nat) (rest : List UInt8) :
    run offset .between (b :: rest) =
      (run (offset + 1) .between rest).map (Char.ofNat b.toNat :: ·) := by
  have known : lead? b = some ⟨0, 0x80, 0xBF, b.toNat⟩ := by
    simp [lead?, small]
  rw [run, known]
  rfl

theorem run_lead {b : UInt8} {following low high bits : Nat}
    (known : lead? b = some ⟨following + 1, low, high, bits⟩) (offset : Nat)
    (rest : List UInt8) :
    run offset .between (b :: rest) =
      run (offset + 1) (.inside [b] bits (following + 1) low high) rest := by
  rw [run, known]

theorem run_inside {b : UInt8} {low high : Nat} (inRange : low ≤ b.toNat ∧ b.toNat ≤ high)
    (offset : Nat) (read : List UInt8) (bits following : Nat) (rest : List UInt8) :
    run offset (.inside read bits (following + 2) low high) (b :: rest) =
      run (offset + 1)
        (.inside (b :: read) (bits * 64 + (b.toNat - 0x80)) (following + 1) 0x80 0xBF) rest := by
  rw [run, if_pos inRange]
  rfl

theorem run_last {b : UInt8} {low high : Nat} (inRange : low ≤ b.toNat ∧ b.toNat ≤ high)
    (offset : Nat) (read : List UInt8) (bits : Nat) (rest : List UInt8) :
    run offset (.inside read bits 1 low high) (b :: rest) =
      (run (offset + 1) .between rest).map
        (Char.ofNat (bits * 64 + (b.toNat - 0x80)) :: ·) := by
  rw [run, if_pos inRange]
  rfl

/-! ### One character -/

/-- A byte of a number that fits. -/
theorem toNat_byte {n : Nat} (fits : n < 256) : (UInt8.ofNat n).toNat = n :=
  UInt8.toNat_ofNat_of_lt' fits

/-- A byte behind the lead. -/
theorem toNat_tail (bits : Nat) : (UInt8.ofNat (bits % 64 + 128)).toNat = bits % 64 + 128 :=
  toNat_byte (by omega)

theorem tail_inRange (bits : Nat) :
    0x80 ≤ (UInt8.ofNat (bits % 64 + 128)).toNat ∧
      (UInt8.ofNat (bits % 64 + 128)).toNat ≤ 0xBF := by
  rw [toNat_tail]
  omega

/-- The lead of a character of two bytes. -/
theorem lead?_two {n : Nat} (large : 0x7F < n) (small : n ≤ 0x7FF) :
    lead? (UInt8.ofNat (n / 64 % 32 + 192)) = some ⟨1, 0x80, 0xBF, n / 64⟩ := by
  have first : (UInt8.ofNat (n / 64 % 32 + 192)).toNat = n / 64 + 192 := by
    rw [toNat_byte (by omega)]
    omega
  simp only [lead?, first]
  rw [if_neg (by omega), if_neg (by omega), if_pos (by omega), Nat.add_sub_cancel]

/-- The lead of a character of three bytes, and the range it leaves for the second: overlong
forms are out, and so are the numbers from U+D800 to U+DFFF. -/
theorem lead?_three {n : Nat} (large : 0x7FF < n) (small : n ≤ 0xFFFF)
    (valid : n < 0xD800 ∨ 0xDFFF < n) :
    ∃ low high, lead? (UInt8.ofNat (n / 4096 % 16 + 224)) = some ⟨2, low, high, n / 4096⟩ ∧
      low ≤ n / 64 % 64 + 128 ∧ n / 64 % 64 + 128 ≤ high := by
  have first : (UInt8.ofNat (n / 4096 % 16 + 224)).toNat = n / 4096 + 224 := by
    rw [toNat_byte (by omega)]
    omega
  simp only [lead?, first]
  by_cases lowest : n / 4096 = 0
  · exact ⟨0xA0, 0xBF, by simp [lowest], by omega, by omega⟩
  by_cases surrogate : n / 4096 = 13
  · exact ⟨0x80, 0x9F, by simp [surrogate], by omega, by omega⟩
  refine ⟨0x80, 0xBF, ?_, by omega, by omega⟩
  rw [if_neg (by omega), if_neg (by omega), if_neg (by omega), if_neg (by omega),
    if_neg (by omega), if_pos (by omega), Nat.add_sub_cancel]

/-- The lead of a character of four bytes, and the range it leaves for the second. -/
theorem lead?_four {n : Nat} (large : 0xFFFF < n) (small : n ≤ 0x10FFFF) :
    ∃ low high, lead? (UInt8.ofNat (n / 262144 % 8 + 240)) = some ⟨3, low, high, n / 262144⟩ ∧
      low ≤ n / 4096 % 64 + 128 ∧ n / 4096 % 64 + 128 ≤ high := by
  have first : (UInt8.ofNat (n / 262144 % 8 + 240)).toNat = n / 262144 + 240 := by
    rw [toNat_byte (by omega)]
    omega
  simp only [lead?, first]
  by_cases lowest : n / 262144 = 0
  · exact ⟨0x90, 0xBF, by simp [lowest], by omega, by omega⟩
  by_cases greatest : n / 262144 = 4
  · exact ⟨0x80, 0x8F, by simp [greatest], by omega, by omega⟩
  refine ⟨0x80, 0xBF, ?_, by omega, by omega⟩
  rw [if_neg (by omega), if_neg (by omega), if_neg (by omega), if_neg (by omega),
    if_neg (by omega), if_neg (by omega), if_neg (by omega), if_pos (by omega),
    Nat.add_sub_cancel]

theorem run_two {n : Nat} (large : 0x7F < n) (small : n ≤ 0x7FF) (offset : Nat)
    (rest : List UInt8) :
    run offset .between
        (UInt8.ofNat (n / 64 % 32 + 192) :: UInt8.ofNat (n % 64 + 128) :: rest) =
      (run (offset + 2) .between rest).map (Char.ofNat n :: ·) := by
  have bits : n / 64 * 64 + (n % 64 + 128 - 128) = n := by omega
  rw [run_lead (lead?_two large small), run_last (tail_inRange n), toNat_tail, bits]

theorem run_three {n : Nat} (large : 0x7FF < n) (small : n ≤ 0xFFFF)
    (valid : n < 0xD800 ∨ 0xDFFF < n) (offset : Nat) (rest : List UInt8) :
    run offset .between
        (UInt8.ofNat (n / 4096 % 16 + 224) :: UInt8.ofNat (n / 64 % 64 + 128) ::
          UInt8.ofNat (n % 64 + 128) :: rest) =
      (run (offset + 3) .between rest).map (Char.ofNat n :: ·) := by
  obtain ⟨low, high, known, second⟩ := lead?_three large small valid
  have bits : (n / 4096 * 64 + (n / 64 % 64 + 128 - 128)) * 64 + (n % 64 + 128 - 128) = n := by
    omega
  rw [← toNat_tail] at second
  rw [run_lead known, run_inside second, run_last (tail_inRange n), toNat_tail, toNat_tail, bits]

theorem run_four {n : Nat} (large : 0xFFFF < n) (small : n ≤ 0x10FFFF) (offset : Nat)
    (rest : List UInt8) :
    run offset .between
        (UInt8.ofNat (n / 262144 % 8 + 240) :: UInt8.ofNat (n / 4096 % 64 + 128) ::
          UInt8.ofNat (n / 64 % 64 + 128) :: UInt8.ofNat (n % 64 + 128) :: rest) =
      (run (offset + 4) .between rest).map (Char.ofNat n :: ·) := by
  obtain ⟨low, high, known, second⟩ := lead?_four large small
  have bits : ((n / 262144 * 64 + (n / 4096 % 64 + 128 - 128)) * 64 +
      (n / 64 % 64 + 128 - 128)) * 64 + (n % 64 + 128 - 128) = n := by
    omega
  rw [← toNat_tail] at second
  rw [run_lead known, run_inside second, run_inside (tail_inRange _), run_last (tail_inRange n),
    toNat_tail, toNat_tail, toNat_tail, bits]

/-- The bytes of a character are read as the character. -/
theorem run_encodeChar (c : Char) (offset : Nat) (rest : List UInt8) :
    run offset .between (String.utf8EncodeChar c ++ rest) =
      (run (offset + (String.utf8EncodeChar c).length) .between rest).map (c :: ·) := by
  have whole : Char.ofNat c.val.toNat = c := c.ofNat_toNat
  have valid : c.val.toNat < 0xD800 ∨ 0xDFFF < c.val.toNat ∧ c.val.toNat < 0x110000 := c.valid
  unfold String.utf8EncodeChar
  generalize c.val.toNat = n at whole valid
  rw [← whole]
  dsimp only
  by_cases one : n ≤ 127
  · have byte : (UInt8.ofNat n).toNat = n := toNat_byte (by omega)
    rw [if_pos one, List.singleton_append, run_one (by omega), byte]
    rfl
  by_cases two : n ≤ 2047
  · rw [if_neg one, if_pos two]
    exact run_two (Nat.not_le.mp one) two offset rest
  by_cases three : n ≤ 65535
  · rw [if_neg one, if_neg two, if_pos three]
    exact run_three (Nat.not_le.mp two) three (by omega) offset rest
  · rw [if_neg one, if_neg two, if_neg three]
    exact run_four (Nat.not_le.mp three) (by omega) offset rest

/-! ### Texts -/

theorem run_flatMap_encodeChar (chars : List Char) (offset : Nat) :
    run offset .between (chars.flatMap String.utf8EncodeChar) = .ok chars := by
  induction chars generalizing offset with
  | nil => rfl
  | cons c rest inductionHypothesis =>
      rw [List.flatMap_cons, run_encodeChar, inductionHypothesis]
      rfl

/-- The bytes of a text decode to the text. -/
theorem decode_encode (s : String) : decode (encode s) = .ok s := by
  rw [decode, encode, run_flatMap_encodeChar]
  exact congrArg Except.ok String.ofList_toList

/-! ### Bytes that decode -/

theorem toNat_val_ofNat {n : Nat} (valid : n.isValidChar) : (Char.ofNat n).val.toNat = n := by
  have isChar : Char.ofNat n = Char.ofNatAux n valid := dif_pos valid
  rw [isChar]
  rfl

/-- The bits that a lead brings and the range that it leaves, by the number of bytes behind it. -/
theorem lead?_cases {b : UInt8} {lead : Lead} (known : lead? b = some lead) :
    (lead.following = 0 ∧ lead.bits = b.toNat ∧ lead.bits < 0x80) ∨
    (lead.following = 1 ∧ lead.bits + 0xC0 = b.toNat ∧ 1 < lead.bits ∧ lead.bits < 32 ∧
      0x80 ≤ lead.low ∧ lead.high ≤ 0xBF) ∨
    (lead.following = 2 ∧ lead.bits + 0xE0 = b.toNat ∧ lead.bits < 16 ∧
      0x80 ≤ lead.low ∧ lead.high ≤ 0xBF ∧ (lead.bits = 0 → 0xA0 ≤ lead.low) ∧
      (lead.bits = 13 → lead.high ≤ 0x9F)) ∨
    (lead.following = 3 ∧ lead.bits + 0xF0 = b.toNat ∧ lead.bits ≤ 4 ∧
      0x80 ≤ lead.low ∧ lead.high ≤ 0xBF ∧ (lead.bits = 0 → 0x90 ≤ lead.low) ∧
      (lead.bits = 4 → lead.high ≤ 0x8F)) := by
  unfold lead? at known
  dsimp only at known
  repeat' split at known
  all_goals cases known
  all_goals
    dsimp only
    omega

theorem run_last_inv {offset bits low high : Nat} {read bytes : List UInt8} {chars : List Char}
    (decoded : run offset (.inside read bits 1 low high) bytes = .ok chars) :
    ∃ b rest others, bytes = b :: rest ∧ low ≤ b.toNat ∧ b.toNat ≤ high ∧
      run (offset + 1) .between rest = .ok others ∧
      chars = Char.ofNat (bits * 64 + (b.toNat - 0x80)) :: others := by
  cases bytes with
  | nil => cases decoded
  | cons b rest =>
      by_cases inRange : low ≤ b.toNat ∧ b.toNat ≤ high
      · rw [run_last inRange] at decoded
        cases others : run (offset + 1) .between rest with
        | error fault =>
            rw [others] at decoded
            cases decoded
        | ok more =>
            rw [others] at decoded
            cases decoded
            exact ⟨b, rest, more, rfl, inRange.1, inRange.2, others, rfl⟩
      · rw [run, if_neg inRange] at decoded
        cases decoded

theorem run_inside_inv {offset bits following low high : Nat} {read bytes : List UInt8}
    {chars : List Char}
    (decoded : run offset (.inside read bits (following + 2) low high) bytes = .ok chars) :
    ∃ b rest, bytes = b :: rest ∧ low ≤ b.toNat ∧ b.toNat ≤ high ∧
      run (offset + 1)
        (.inside (b :: read) (bits * 64 + (b.toNat - 0x80)) (following + 1) 0x80 0xBF) rest =
          .ok chars := by
  cases bytes with
  | nil => cases decoded
  | cons b rest =>
      by_cases inRange : low ≤ b.toNat ∧ b.toNat ≤ high
      · rw [run_inside inRange] at decoded
        exact ⟨b, rest, rfl, inRange.1, inRange.2, decoded⟩
      · rw [run, if_neg inRange] at decoded
        cases decoded

theorem eq_ofNat_of_toNat {b : UInt8} {n : Nat} (same : b.toNat = n) : b = UInt8.ofNat n := by
  rw [← same, UInt8.ofNat_toNat]

theorem encodeChar_one {b : UInt8} (small : b.toNat < 0x80) :
    String.utf8EncodeChar (Char.ofNat b.toNat) = [b] := by
  rw [String.utf8EncodeChar, toNat_val_ofNat (by left; omega), if_pos (by omega),
    UInt8.ofNat_toNat]

theorem encodeChar_two {n : Nat} (a b : UInt8) (large : 0x7F < n) (small : n ≤ 0x7FF)
    (first : a.toNat = n / 64 + 192) (second : b.toNat = n % 64 + 128) :
    String.utf8EncodeChar (Char.ofNat n) = [a, b] := by
  rw [String.utf8EncodeChar, toNat_val_ofNat (by left; omega)]
  rw [if_neg (by omega), if_pos small, eq_ofNat_of_toNat first, eq_ofNat_of_toNat second,
    Nat.mod_eq_of_lt (by omega)]

theorem encodeChar_three {n : Nat} (a b c : UInt8) (large : 0x7FF < n) (small : n ≤ 0xFFFF)
    (valid : n < 0xD800 ∨ 0xDFFF < n) (first : a.toNat = n / 4096 + 224)
    (second : b.toNat = n / 64 % 64 + 128) (third : c.toNat = n % 64 + 128) :
    String.utf8EncodeChar (Char.ofNat n) = [a, b, c] := by
  have isValid : n.isValidChar := by
    rcases valid with low | high
    · exact .inl low
    · exact .inr ⟨high, by omega⟩
  rw [String.utf8EncodeChar, toNat_val_ofNat isValid]
  rw [if_neg (by omega), if_neg (by omega), if_pos small, eq_ofNat_of_toNat first,
    eq_ofNat_of_toNat second, eq_ofNat_of_toNat third,
    Nat.mod_eq_of_lt (by omega : n / 4096 < 16)]

theorem encodeChar_four {n : Nat} (a b c d : UInt8) (large : 0xFFFF < n) (small : n ≤ 0x10FFFF)
    (first : a.toNat = n / 262144 + 240) (second : b.toNat = n / 4096 % 64 + 128)
    (third : c.toNat = n / 64 % 64 + 128) (fourth : d.toNat = n % 64 + 128) :
    String.utf8EncodeChar (Char.ofNat n) = [a, b, c, d] := by
  rw [String.utf8EncodeChar, toNat_val_ofNat (.inr ⟨by omega, by omega⟩)]
  rw [if_neg (by omega), if_neg (by omega), if_neg (by omega), eq_ofNat_of_toNat first,
    eq_ofNat_of_toNat second, eq_ofNat_of_toNat third, eq_ofNat_of_toNat fourth,
    Nat.mod_eq_of_lt (by omega : n / 262144 < 8)]

/-- Bytes that decode start with the bytes of the first character. -/
theorem run_inv {offset : Nat} {b : UInt8} {bytes : List UInt8} {chars : List Char}
    (decoded : run offset .between (b :: bytes) = .ok chars) :
    ∃ later c rest others, b :: bytes = String.utf8EncodeChar c ++ rest ∧
      run later .between rest = .ok others ∧ chars = c :: others := by
  rw [run] at decoded
  cases known : lead? b with
  | none =>
      rw [known] at decoded
      cases decoded
  | some lead =>
      obtain ⟨following, low, high, bits⟩ := lead
      rw [known] at decoded
      rcases lead?_cases known with one | two | three | four
      · obtain ⟨rfl, rfl, small⟩ := one
        cases behind : run (offset + 1) .between bytes with
        | error fault =>
            rw [behind] at decoded
            cases decoded
        | ok others =>
            rw [behind] at decoded
            cases decoded
            refine ⟨_, _, bytes, others, ?_, behind, rfl⟩
            rw [encodeChar_one small]
            rfl
      · obtain ⟨rfl, first, large, small, lowest, highest⟩ := two
        dsimp only at first large small lowest highest
        obtain ⟨b₂, rest, others, rfl, low₂, high₂, behind, rfl⟩ := run_last_inv decoded
        refine ⟨_, _, rest, others, ?_, behind, rfl⟩
        rw [encodeChar_two b b₂ (by omega) (by omega) (by omega) (by omega)]
        rfl
      · obtain ⟨rfl, first, small, lowest, highest, overlong, surrogate⟩ := three
        dsimp only at first small lowest highest overlong surrogate
        obtain ⟨b₂, bytes, rfl, low₂, high₂, decoded⟩ := run_inside_inv decoded
        obtain ⟨b₃, rest, others, rfl, low₃, high₃, behind, rfl⟩ := run_last_inv decoded
        refine ⟨_, _, rest, others, ?_, behind, rfl⟩
        rw [encodeChar_three b b₂ b₃ (by omega) (by omega) (by omega) (by omega) (by omega)
          (by omega)]
        rfl
      · obtain ⟨rfl, first, small, lowest, highest, overlong, greatest⟩ := four
        dsimp only at first small lowest highest overlong greatest
        obtain ⟨b₂, bytes, rfl, low₂, high₂, decoded⟩ := run_inside_inv decoded
        obtain ⟨b₃, bytes, rfl, low₃, high₃, decoded⟩ := run_inside_inv decoded
        obtain ⟨b₄, rest, others, rfl, low₄, high₄, behind, rfl⟩ := run_last_inv decoded
        refine ⟨_, _, rest, others, ?_, behind, rfl⟩
        rw [encodeChar_four b b₂ b₃ b₄ (by omega) (by omega) (by omega) (by omega) (by omega)
          (by omega)]
        rfl

theorem eq_flatMap_of_run {offset : Nat} {bytes : List UInt8} {chars : List Char}
    (decoded : run offset .between bytes = .ok chars) :
    bytes = chars.flatMap String.utf8EncodeChar := by
  induction chars generalizing offset bytes with
  | nil =>
      cases bytes with
      | nil => rfl
      | cons b bytes =>
          obtain ⟨later, c, rest, others, -, -, isCons⟩ := run_inv decoded
          cases isCons
  | cons c chars inductionHypothesis =>
      cases bytes with
      | nil => cases decoded
      | cons b bytes =>
          obtain ⟨later, c, rest, others, parts, behind, isCons⟩ := run_inv decoded
          cases isCons
          rw [parts, List.flatMap_cons, ← inductionHypothesis behind]

/-- Bytes decode to a text exactly if they are the bytes of the text. -/
theorem decode_eq_ok_iff {bytes : List UInt8} {s : String} :
    decode bytes = .ok s ↔ bytes = encode s := by
  constructor
  · intro decoded
    rw [decode] at decoded
    cases isRun : run 0 .between bytes with
    | error fault =>
        rw [isRun] at decoded
        cases decoded
    | ok chars =>
        rw [isRun] at decoded
        cases decoded
        rw [encode, String.toList_ofList]
        exact eq_flatMap_of_run isRun
  · rintro rfl
    exact decode_encode s

theorem encode_injective : Function.Injective encode := by
  intro one other same
  have decoded := decode_encode one
  rw [same, decode_encode other] at decoded
  cases decoded
  rfl

end ShellGloss.Text.Utf8
