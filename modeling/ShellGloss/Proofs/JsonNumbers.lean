/-
Module: ShellGloss.Proofs.JsonNumbers
Purpose: The text of a number, whole or with a fraction, is read as one number and no
  further than it goes.
Imports: Mathlib.Data.Nat.Digits.Lemmas, ShellGloss.Json.Reader, ShellGloss.Json.Writer
Main exports:
  Json.Numeral, Json.Reading.EndsNumber, Json.Reading.scalar_int,
  Json.Reading.rereadDouble, Json.Reading.scalar_double
-/
import Mathlib.Data.Nat.Digits.Lemmas
import ShellGloss.Json.Reader
import ShellGloss.Json.Writer

namespace ShellGloss

/-! ### The digits of a number -/

namespace Decimal

/-- A positive number is written with a first digit that is not zero. -/
theorem toDigits_eq_cons {n : Nat} (positive : 0 < n) :
    ∃ first others, Nat.toDigits 10 n = first :: others ∧ first ≠ '0' := by
  induction n using Nat.strongRecOn with
  | ind n inductionHypothesis =>
      rw [Nat.toDigits_eq_if (by decide)]
      split
      next small =>
        refine ⟨_, [], rfl, ?_⟩
        interval_cases n <;> decide
      next large =>
        obtain ⟨first, others, digits, notZero⟩ :=
          inductionHypothesis (n / 10) (by omega) (by omega)
        exact ⟨first, others ++ [(n % 10).digitChar], by rw [digits]; rfl, notZero⟩

/-- The zeros at the end of a positive number are not all of its digits. -/
theorem trailingZeros_lt {n : Nat} (positive : 0 < n) :
    ((Nat.toDigits 10 n).reverse.takeWhile (· == '0')).length <
      (Nat.toDigits 10 n).length := by
  obtain ⟨first, others, digits, notZero⟩ := toDigits_eq_cons positive
  have fewer : (others.reverse.takeWhile (· == '0')).length ≤ others.reverse.length :=
    (List.takeWhile_sublist _).length_le
  rw [List.length_reverse] at fewer
  rw [digits, List.reverse_cons, List.takeWhile_append, List.length_cons]
  split
  · simp [notZero]
  · omega

/-- Taking off the zeros at its end leaves something of a positive number. -/
theorem withoutTrailingZeros_pos {d : Digits} (positive : 0 < d.digits) :
    0 < (withoutTrailingZeros d).digits := by
  have fewer := trailingZeros_lt positive
  refine Nat.div_pos ?_ (Nat.pow_pos (by decide))
  generalize ((Nat.toDigits 10 d.digits).reverse.takeWhile (· == '0')).length = zeros at fewer
  by_contra small
  cases zeros with
  | zero => exact small positive
  | succ less =>
      have bounded : (Nat.toDigits 10 d.digits).length ≤ less + 1 :=
        (Nat.length_toDigits_le_iff (by decide) (by omega)).mpr (Nat.not_le.mp small)
      omega

/-- A neighbour is given only if it reads back. -/
theorem ofDecimal_of_neighbour? {mantissa : Nat} {exponent scale : Int} {quotient : Nat × Nat}
    {found : Digits} (isFound : neighbour? mantissa exponent quotient scale = some found) :
    Double.ofDecimal false found.digits found.scale = .finite false mantissa exponent := by
  simp only [neighbour?, decide_eq_true_eq] at isFound
  -- Every branch that gives digits has asked whether they read back.
  split_ifs at isFound <;> cases isFound <;> assumption

/-- Digits that read back as a positive double are not zero. -/
theorem digits_pos_of_ofDecimal {digits mantissa : Nat} {scale exponent : Int}
    (positive : 0 < mantissa)
    (readsBack : Double.ofDecimal false digits scale = .finite false mantissa exponent) :
    0 < digits := by
  rcases Nat.eq_zero_or_pos digits with rfl | notZero
  · rw [Double.ofDecimal, if_pos (.inl rfl), Double.zero] at readsBack
    cases readsBack
    exact absurd positive (by decide)
  · exact notZero

theorem firstGrid_digits_pos {mantissa : Nat} (positive : 0 < mantissa) (exponent : Int)
    (quotient : Nat × Nat) (scales : List Int) :
    0 < (firstGrid mantissa exponent quotient scales).digits := by
  induction scales with
  | nil => exact positive
  | cons scale finer inductionHypothesis =>
      rw [firstGrid]
      split
      next found isFound => exact digits_pos_of_ofDecimal positive (ofDecimal_of_neighbour? isFound)
      next => exact inductionHypothesis

/-- The shortest digits of a positive double are not zero. -/
theorem shortest_digits_pos {mantissa : Nat} (positive : 0 < mantissa) (exponent : Int) :
    0 < (shortest mantissa exponent).digits :=
  firstGrid_digits_pos positive exponent _ _

end Decimal

/-! ### Numerals -/

namespace Json

/-- A number as it is written, without its sign: the whole part, the digits behind the point,
and the sign and the digits of the exponent. -/
structure Numeral where
  whole : List Char
  fraction : List Char := []
  exponent : Option (Bool × List Char) := none

namespace Numeral

/-- A point and the digits behind it, if there are any. -/
def fractionText : List Char → List Char
  | [] => []
  | digits => '.' :: digits

/-- The mark, the sign and the digits of an exponent, if there is one. -/
def exponentText : Option (Bool × List Char) → List Char
  | none => []
  | some (negative, digits) => 'e' :: (if negative then '-' else '+') :: digits

/-- The text of a numeral. -/
def text (numeral : Numeral) : List Char :=
  numeral.whole ++ (fractionText numeral.fraction ++ exponentText numeral.exponent)

/-- Digits, of which the first is zero only if it is the only one. -/
inductive IsWhole : List Char → Prop where
  | zero : IsWhole ['0']
  | positive {whole : List Char} {first : Char} (isFirst : whole.head? = some first)
      (notZero : first ≠ '0') (digits : ∀ c ∈ whole, c.isDigit = true) : IsWhole whole

/-- The parts of a numeral are what they have to be. -/
structure WellFormed (numeral : Numeral) : Prop where
  whole : IsWhole numeral.whole
  fraction : ∀ c ∈ numeral.fraction, c.isDigit = true
  exponent : ∀ power ∈ numeral.exponent, power.2 ≠ [] ∧ ∀ c ∈ power.2, c.isDigit = true

/-- A numeral with a point or an exponent. -/
def IsReal (numeral : Numeral) : Prop :=
  numeral.fraction ≠ [] ∨ numeral.exponent ≠ none

theorem fractionText_of_ne_nil {digits : List Char} (filled : digits ≠ []) :
    fractionText digits = '.' :: digits := by
  obtain ⟨first, others, rfl⟩ := List.exists_cons_of_ne_nil filled
  rfl

theorem IsWhole.isDigit {whole : List Char} (isWhole : IsWhole whole) :
    ∀ c ∈ whole, c.isDigit = true := by
  cases isWhole with
  | zero => exact List.forall_mem_singleton.mpr rfl
  | positive _ _ digits => exact digits

theorem IsWhole.ne_nil {whole : List Char} (isWhole : IsWhole whole) : whole ≠ [] := by
  cases isWhole with
  | zero => decide
  | positive isFirst _ _ =>
      rintro rfl
      cases isFirst

theorem isWhole_toDigits (n : Nat) : IsWhole (Nat.toDigits 10 n) := by
  rcases Nat.eq_zero_or_pos n with rfl | positive
  · exact .zero
  · have digits : ∀ c ∈ Nat.toDigits 10 n, c.isDigit = true :=
      fun c isThere => Nat.isDigit_of_mem_toDigits (by decide) (by decide) isThere
    obtain ⟨first, others, spelled, notZero⟩ := Decimal.toDigits_eq_cons positive
    exact .positive (by rw [spelled]; rfl) notZero digits

theorem IsWhole.append_zeros {n : Nat} (positive : 0 < n) (zeros : Nat) :
    IsWhole (Nat.toDigits 10 n ++ List.replicate zeros '0') := by
  obtain ⟨first, others, spelled, notZero⟩ := Decimal.toDigits_eq_cons positive
  refine .positive (show _ = some first by rw [spelled]; rfl) notZero ?_
  intro c isThere
  rw [List.mem_append, List.mem_replicate] at isThere
  rcases isThere with isThere | ⟨-, rfl⟩
  · exact (isWhole_toDigits n).isDigit c isThere
  · rfl

theorem IsWhole.take {n count : Nat} (positive : 0 < n) (taken : 0 < count) :
    IsWhole ((Nat.toDigits 10 n).take count) := by
  obtain ⟨first, others, spelled, notZero⟩ := Decimal.toDigits_eq_cons positive
  have isFirst : ((Nat.toDigits 10 n).take count).head? = some first := by
    rw [List.head?_take, if_neg taken.ne', spelled]
    rfl
  exact .positive isFirst notZero fun c isThere =>
    (isWhole_toDigits n).isDigit c (List.mem_of_mem_take isThere)

theorem twoDigits_isDigit (n : Nat) :
    (Decimal.twoDigits n).toList ≠ [] ∧
      ∀ c ∈ (Decimal.twoDigits n).toList, c.isDigit = true := by
  have digits := (isWhole_toDigits n).isDigit
  unfold Decimal.twoDigits
  split
  · simpa [Nat.toString_eq_ofList_toDigits] using digits
  · simpa [Nat.toString_eq_ofList_toDigits] using digits

/-- A text that is a numeral with a point or an exponent. -/
def IsRealText (cs : List Char) : Prop :=
  ∃ numeral : Numeral, numeral.WellFormed ∧ numeral.IsReal ∧ cs = numeral.text

theorem isRealText_point {whole fraction : List Char} (isWhole : IsWhole whole)
    (filled : fraction ≠ []) (digits : ∀ c ∈ fraction, c.isDigit = true) :
    IsRealText (whole ++ '.' :: fraction) := by
  refine ⟨⟨whole, fraction, none⟩, ⟨isWhole, digits, by simp⟩, .inl filled, ?_⟩
  rw [text, fractionText_of_ne_nil filled, exponentText, List.append_nil]

theorem isRealText_exponent {whole fraction power : List Char} (isWhole : IsWhole whole)
    (digits : ∀ c ∈ fraction, c.isDigit = true) (negative : Bool)
    (isPower : power ≠ [] ∧ ∀ c ∈ power, c.isDigit = true) :
    IsRealText (whole ++ (fractionText fraction ++ exponentText (some (negative, power)))) := by
  refine ⟨⟨whole, fraction, some (negative, power)⟩, ⟨isWhole, digits, ?_⟩, .inr (by simp), rfl⟩
  rintro other ⟨rfl⟩
  exact isPower

/-- A positive decimal is laid out as a numeral with a point or an exponent. -/
theorem isRealText_positive (layout : Decimal.Layout) {d : Decimal.Digits}
    (positive : 0 < d.digits) : IsRealText (layout.positive d).toList := by
  have left := Decimal.withoutTrailingZeros_pos positive
  unfold Decimal.Layout.positive
  generalize Decimal.withoutTrailingZeros d = shorn at left
  have digits := (isWhole_toDigits shorn.digits).isDigit
  have nonempty : Nat.toDigits 10 shorn.digits ≠ [] := Nat.toDigits_ne_nil
  have dropped (count : Nat) :
      ∀ c ∈ (Nat.toDigits 10 shorn.digits).drop count, c.isDigit = true :=
    fun c isThere => digits c (List.mem_of_mem_drop isThere)
  dsimp only
  generalize placed : ((Nat.toDigits 10 shorn.digits).length : Int) + shorn.scale = place
  split
  · split
    next below =>
      have padded : ∀ c ∈ List.replicate (-place).toNat '0' ++ Nat.toDigits 10 shorn.digits,
          c.isDigit = true := by
        rw [List.forall_mem_append]
        refine ⟨?_, digits⟩
        intro c isThere
        rw [(List.mem_replicate.mp isThere).2]
        rfl
      have laidOut := isRealText_point .zero
        (List.append_ne_nil_of_right_ne_nil _ nonempty) padded
      simpa using laidOut
    next inside =>
      split
      next beyond =>
        have laidOut := isRealText_point (IsWhole.append_zeros left shorn.scale.toNat)
          (List.cons_ne_nil '0' []) (by simp)
        simpa using laidOut
      next between =>
        have behindPoint : (Nat.toDigits 10 shorn.digits).drop place.toNat ≠ [] := by
          rw [Ne, List.drop_eq_nil_iff]
          omega
        have whole := IsWhole.take left (show 0 < place.toNat by omega)
        have laidOut := isRealText_point whole behindPoint (dropped _)
        simpa using laidOut
  · have laidOut := isRealText_exponent (IsWhole.take left Nat.one_pos) (dropped 1)
      (decide (place - 1 < 0)) (twoDigits_isDigit (place - 1).natAbs)
    generalize (Nat.toDigits 10 shorn.digits).drop 1 = fraction at laidOut ⊢
    rw [exponentText] at laidOut
    cases fraction <;> by_cases small : place - 1 < 0 <;>
      simpa [fractionText, small] using laidOut

theorem cr_not_mem_of_isDigit {digits : List Char} (isDigits : ∀ c ∈ digits, c.isDigit = true) :
    '\r' ∉ digits := by
  intro isThere
  exact absurd (isDigits _ isThere) (by decide)

/-- A numeral holds no carriage return. -/
theorem WellFormed.cr_not_mem {numeral : Numeral} (wellFormed : numeral.WellFormed) :
    '\r' ∉ numeral.text := by
  have inFraction : '\r' ∉ fractionText numeral.fraction := by
    have digits := cr_not_mem_of_isDigit wellFormed.fraction
    revert digits
    cases numeral.fraction with
    | nil => exact id
    | cons first others => simp [fractionText]
  have inExponent : '\r' ∉ exponentText numeral.exponent := by
    rcases Option.eq_none_or_eq_some numeral.exponent with noPower | ⟨power, hasPower⟩
    · rw [noPower]
      exact List.not_mem_nil
    · have digits := cr_not_mem_of_isDigit (wellFormed.exponent power hasPower).2
      rw [hasPower]
      cases negative : power.1 <;> simpa [exponentText, negative] using digits
  rw [text, List.mem_append, List.mem_append, not_or, not_or]
  exact ⟨cr_not_mem_of_isDigit wellFormed.whole.isDigit, inFraction, inExponent⟩

end Numeral

/-! ### Reading a numeral -/

namespace Reading

open Numeral (IsWhole fractionText exponentText)

/-- What may stand behind a number: nothing that could belong to it. -/
def EndsNumber (rest : List Char) : Prop :=
  ∀ c ∈ rest.head?, c.isDigit = false ∧ c ≠ '.' ∧ c ≠ 'e' ∧ c ≠ 'E'

theorem endsNumber_nil : EndsNumber [] := by
  rintro c ⟨⟩

theorem span_isDigit {digits rest : List Char} (isDigits : ∀ c ∈ digits, c.isDigit = true)
    (ends : ∀ c ∈ rest.head?, c.isDigit = false) :
    (digits ++ rest).span Char.isDigit = (digits, rest) := by
  have nothingMore : rest.takeWhile Char.isDigit = [] ∧ rest.dropWhile Char.isDigit = rest := by
    cases rest with
    | nil => exact ⟨rfl, rfl⟩
    | cons c others => simp [ends c rfl]
  rw [List.span_eq_takeWhile_dropWhile, List.takeWhile_append_of_pos isDigits,
    List.dropWhile_append_of_pos isDigits, nothingMore.1, nothingMore.2, List.append_nil]

theorem wholeDigits?_append {whole rest : List Char} (isWhole : IsWhole whole)
    (ends : ∀ c ∈ rest.head?, c.isDigit = false) :
    wholeDigits? (whole ++ rest) = some (whole, rest) := by
  cases isWhole with
  | zero => rfl
  | positive isFirst notZero digits =>
      have all := span_isDigit digits ends
      obtain ⟨others, rfl⟩ := List.head?_eq_some_iff.mp isFirst
      rw [List.cons_append] at all ⊢
      rw [wholeDigits?, if_pos (digits _ (.head _)), all]
      exact notZero

theorem fractionDigits_append {fraction rest : List Char}
    (digits : ∀ c ∈ fraction, c.isDigit = true)
    (ends : ∀ c ∈ rest.head?, c.isDigit = false ∧ c ≠ '.') :
    fractionDigits (fractionText fraction ++ rest) = (fraction, rest) := by
  cases fraction with
  | nil =>
      rw [fractionText, List.nil_append, fractionDigits]
      rintro others rfl
      exact (ends '.' rfl).2 rfl
  | cons first others =>
      have all := span_isDigit digits fun c isNext => (ends c isNext).1
      rw [fractionText, List.cons_append, fractionDigits, all]
      · rfl
      · simp

/-- The number that an exponent is. -/
def powerValue (power : Bool × List Char) : Int :=
  if power.1 then -(digitsValue 0 power.2 : Int) else digitsValue 0 power.2

theorem exponent?_append {exponent : Option (Bool × List Char)} {rest : List Char}
    (digits : ∀ power ∈ exponent, power.2 ≠ [] ∧ ∀ c ∈ power.2, c.isDigit = true)
    (ends : EndsNumber rest) :
    exponent? (exponentText exponent ++ rest) =
      exponent.map fun power => (powerValue power, rest) := by
  match exponent with
  | none =>
      cases rest with
      | nil => rfl
      | cons c others =>
          obtain ⟨-, -, notSmall, notCapital⟩ := ends c rfl
          simp [exponent?, exponentText, notSmall, notCapital]
  | some (negative, power) =>
      obtain ⟨filled, isDigits⟩ := digits _ rfl
      have all := span_isDigit isDigits fun c isNext => (ends c isNext).1
      have notEmpty : power.isEmpty = false := List.isEmpty_eq_false_iff.mpr filled
      cases negative <;>
        simp [exponent?, exponentText, powerValue, all, notEmpty,
          -List.span_eq_takeWhile_dropWhile]

theorem head?_exponentText (exponent : Option (Bool × List Char)) {rest : List Char}
    (ends : EndsNumber rest) :
    ∀ c ∈ (exponentText exponent ++ rest).head?, c.isDigit = false ∧ c ≠ '.' := by
  intro c isNext
  cases exponent with
  | none => exact ⟨(ends c isNext).1, (ends c isNext).2.1⟩
  | some power =>
      cases isNext
      decide

theorem head?_fractionText (fraction : List Char) {rest : List Char}
    (ends : ∀ c ∈ rest.head?, c.isDigit = false ∧ c ≠ '.') :
    ∀ c ∈ (fractionText fraction ++ rest).head?, c.isDigit = false := by
  intro c isNext
  cases fraction with
  | nil => exact (ends c isNext).1
  | cons first others =>
      cases isNext
      rfl

/-- Digits alone are read as a whole number. -/
theorem number_whole {whole rest : List Char} (isWhole : IsWhole whole)
    (short : whole.length ≤ digitLimit) (ends : EndsNumber rest) (start : List Char)
    (negative : Bool) :
    number start negative (whole ++ rest) =
      .ok (.int (if negative then -(digitsValue 0 whole : Int) else digitsValue 0 whole),
        rest) := by
  have noFraction : fractionDigits (fractionText [] ++ rest) = ([], rest) :=
    fractionDigits_append (by simp) (head?_exponentText none ends)
  have noExponent : exponent? (exponentText none ++ rest) = none :=
    exponent?_append (by simp) ends
  rw [fractionText, List.nil_append] at noFraction
  rw [exponentText, List.nil_append] at noExponent
  rw [number, wholeDigits?_append isWhole fun c isNext => (ends c isNext).1]
  simp only [noFraction, noExponent]
  rw [if_neg (Nat.not_lt.mpr short)]
  rfl

/-- The double that a numeral is read as. -/
def numeralDouble (negative : Bool) (numeral : Numeral) : Decimal.Double :=
  .ofDecimal negative (digitsValue 0 (numeral.whole ++ numeral.fraction))
    ((numeral.exponent.map powerValue).getD 0 - numeral.fraction.length)

/-- A numeral with a point or an exponent is read as a double. -/
theorem number_real {numeral : Numeral} (wellFormed : numeral.WellFormed)
    (isReal : numeral.IsReal) {rest : List Char} (ends : EndsNumber rest) (start : List Char)
    (negative : Bool) :
    number start negative (numeral.text ++ rest) =
      .ok (.real (numeralDouble negative numeral), rest) := by
  have behindFraction := head?_exponentText numeral.exponent ends
  have behindWhole := head?_fractionText numeral.fraction behindFraction
  rw [Numeral.text, List.append_assoc, List.append_assoc, number,
    wholeDigits?_append wellFormed.whole behindWhole]
  simp only [fractionDigits_append wellFormed.fraction behindFraction,
    exponent?_append wellFormed.exponent ends]
  rcases Option.eq_none_or_eq_some numeral.exponent with noPower | ⟨power, hasPower⟩
  · have filled : numeral.fraction.isEmpty = false := by
      simpa [noPower, Numeral.IsReal] using isReal
    simp [numeralDouble, noPower, filled, exponentText]
  · simp [numeralDouble, hasPower]

/-! ### Whole numbers and doubles -/

/-- The sign of a number that is read. -/
def signText (negative : Bool) : List Char := if negative then ['-'] else []

/-- A text that starts with a digit, behind a sign or not, is a number. -/
theorem scalar_signText {digit : Char} (isDigit : digit.isDigit = true) (negative : Bool)
    (rest : List Char) :
    scalar (signText negative ++ digit :: rest) =
      number (signText negative ++ digit :: rest) negative (digit :: rest) := by
  cases negative with
  | true =>
      rw [signText, if_pos rfl, List.singleton_append, scalar]
      rintro others ⟨rfl⟩
      exact absurd isDigit (by decide)
  | false =>
      rw [signText, if_neg (by decide), List.nil_append, scalar]
      -- No word and no sign starts with a digit.
      all_goals
        rintro others ⟨rfl⟩
        exact absurd isDigit (by decide)

theorem digitsValue_toDigits (n : Nat) : digitsValue 0 (Nat.toDigits 10 n) = n := by
  have sameStep : (fun value (c : Char) => value * 10 + (c.toNat - '0'.toNat)) =
      fun value c => 10 * value + (c.toNat - '0'.toNat) := by
    funext value c
    rw [Nat.mul_comm]
  rw [digitsValue, sameStep, ← Nat.ofDigitChars_eq_foldl, Nat.ofDigitChars_ten_toDigits]

theorem toList_toString_int (n : Int) :
    (toString n).toList = signText (decide (n < 0)) ++ Nat.toDigits 10 n.natAbs := by
  cases n with
  | ofNat m =>
      have spelled : toString (Int.ofNat m) = toString m := rfl
      rw [spelled, Nat.toString_eq_ofList_toDigits, String.toList_ofList, signText,
        if_neg (by simp)]
      rfl
  | negSucc m =>
      have spelled : toString (Int.negSucc m) = "-" ++ toString (m + 1) := rfl
      have sign : "-".toList = ['-'] := rfl
      rw [spelled, Nat.toString_eq_ofList_toDigits, String.toList_append, sign,
        String.toList_ofList, signText, if_pos (decide_eq_true (Int.negSucc_lt_zero m))]
      rfl

/-- A whole number that was written is read as it is. -/
theorem scalar_int {n : Int} (short : (Nat.toDigits 10 n.natAbs).length ≤ digitLimit)
    {rest : List Char} (ends : EndsNumber rest) :
    scalar ((toString n).toList ++ rest) = .ok (.int n, rest) := by
  have isWhole := Numeral.isWhole_toDigits n.natAbs
  have value : (if decide (n < 0) then -((digitsValue 0 (Nat.toDigits 10 n.natAbs) : Nat) : Int)
      else (digitsValue 0 (Nat.toDigits 10 n.natAbs) : Nat)) = n := by
    rw [digitsValue_toDigits]
    simp only [decide_eq_true_eq]
    split <;> omega
  have isNumber := number_whole isWhole short ends
    (signText (decide (n < 0)) ++ (Nat.toDigits 10 n.natAbs ++ rest)) (decide (n < 0))
  rw [value] at isNumber
  rw [toList_toString_int, List.append_assoc]
  have filled : Nat.toDigits 10 n.natAbs ≠ [] := Nat.toDigits_ne_nil
  obtain ⟨first, others, spelled⟩ := List.exists_cons_of_ne_nil filled
  have isDigit := isWhole.isDigit
  rw [spelled] at isNumber isDigit ⊢
  exact (scalar_signText (isDigit first (.head _)) _ _).trans isNumber

/-- A numeral with a point or an exponent, behind a sign or not, is read as a double. -/
theorem scalar_numeral {numeral : Numeral} (wellFormed : numeral.WellFormed)
    (isReal : numeral.IsReal) (negative : Bool) {rest : List Char} (ends : EndsNumber rest) :
    scalar (signText negative ++ numeral.text ++ rest) =
      .ok (.real (numeralDouble negative numeral), rest) := by
  have isNumber := number_real wellFormed isReal ends
    (signText negative ++ (numeral.text ++ rest)) negative
  have isDigit := wellFormed.whole.isDigit
  obtain ⟨first, others, spelled⟩ := List.exists_cons_of_ne_nil wellFormed.whole.ne_nil
  rw [List.append_assoc]
  unfold Numeral.text at isNumber ⊢
  rw [spelled] at isNumber isDigit ⊢
  exact (scalar_signText (isDigit first (.head _)) _ _).trans isNumber

/-- The text of a finite double is a numeral behind its sign. -/
theorem exists_text_eq_finite (negative : Bool) (mantissa : Nat) (exponent : Int) :
    ∃ numeral : Numeral, numeral.WellFormed ∧ numeral.IsReal ∧
      (doubleLayout.text (.finite negative mantissa exponent)).toList =
        signText negative ++ numeral.text := by
  have sign : (if negative then "-" else "").toList = signText negative := by
    cases negative <;> rfl
  have isRealText : Numeral.IsRealText (if mantissa = 0 then "0.0"
      else doubleLayout.positive (Decimal.shortest mantissa exponent)).toList := by
    rcases Nat.eq_zero_or_pos mantissa with rfl | positive
    · have zero := Numeral.isRealText_point .zero (List.cons_ne_nil '0' []) (by simp)
      simpa using zero
    · rw [if_neg positive.ne']
      exact Numeral.isRealText_positive _ (Decimal.shortest_digits_pos positive exponent)
  obtain ⟨numeral, wellFormed, isReal, spelled⟩ := isRealText
  exact ⟨numeral, wellFormed, isReal, by
    rw [Decimal.Layout.text, String.toList_append, sign, spelled]⟩

/-- The double that the text of a double is read as. -/
def rereadDouble (d : Decimal.Double) : Decimal.Double :=
  match scalar (doubleLayout.text d).toList with
  | .ok (.real again, _) => again
  | _ => d

/-- A double that was written is read as a double, and nothing behind it is touched. -/
theorem scalar_double (d : Decimal.Double) {rest : List Char} (ends : EndsNumber rest) :
    scalar ((doubleLayout.text d).toList ++ rest) = .ok (.real (rereadDouble d), rest) := by
  cases d with
  | notANumber => rfl
  | infinite negative => cases negative <;> rfl
  | finite negative mantissa exponent =>
      obtain ⟨numeral, wellFormed, isReal, spelled⟩ :=
        exists_text_eq_finite negative mantissa exponent
      have alone := scalar_numeral wellFormed isReal negative endsNumber_nil
      rw [List.append_nil] at alone
      have again : rereadDouble (.finite negative mantissa exponent) =
          numeralDouble negative numeral := by
        rw [rereadDouble, spelled, alone]
      rw [spelled, scalar_numeral wellFormed isReal negative ends, again]

theorem cr_not_mem_signText (negative : Bool) : '\r' ∉ signText negative := by
  cases negative <;> decide

theorem cr_not_mem_int (n : Int) : '\r' ∉ (toString n).toList := by
  rw [toList_toString_int, List.mem_append, not_or]
  exact ⟨cr_not_mem_signText _,
    Numeral.cr_not_mem_of_isDigit (Numeral.isWhole_toDigits n.natAbs).isDigit⟩

theorem cr_not_mem_double (d : Decimal.Double) : '\r' ∉ (doubleLayout.text d).toList := by
  cases d with
  | notANumber => decide
  | infinite negative => cases negative <;> decide
  | finite negative mantissa exponent =>
      obtain ⟨numeral, wellFormed, -, spelled⟩ :=
        exists_text_eq_finite negative mantissa exponent
      rw [spelled, List.mem_append, not_or]
      exact ⟨cr_not_mem_signText negative, wellFormed.cr_not_mem⟩

end Reading

end Json

end ShellGloss
