/-
Module: ShellGloss.Proofs.JsonScalars
Purpose: What a text, a number or a word takes of a JSON text, whatever stands behind it, and
  why it is refused.
Imports: Mathlib.Data.List.TakeWhile, ShellGloss.Proofs.JsonRoundTrip
Main exports:
  Json.Reading.Quoted, Json.Reading.string_eq_ok_iff, Json.Reading.string_error,
  Json.Reading.Inert, Json.Reading.number_replay, Json.Reading.scalar_replay,
  Json.Reading.Overlong, Json.Reading.scalar_error, Json.Reading.Overlong.scalar_eq
-/
import Mathlib.Data.List.TakeWhile
import ShellGloss.Proofs.JsonRoundTrip

namespace ShellGloss.Json.Reading

open Numeral (IsWhole fractionText exponentText)

/-! ### Texts -/

/-- The body of a text, its closing quote included, by its units. -/
inductive Quoted : List Char → List StringUnit → Prop where
  | closing : Quoted ['\x22'] []
  | code {a b c d : Char} {n : Nat} {body : List Char} {units : List StringUnit}
      (digits : hexUnit? a b c d = some n) (more : Quoted body units) :
      Quoted ('\\' :: 'u' :: a :: b :: c :: d :: body) (.code n :: units)
  | letter {e c : Char} {body : List Char} {units : List StringUnit} (notU : e ≠ 'u')
      (stands : escaped? e = some c) (more : Quoted body units) :
      Quoted ('\\' :: e :: body) (.char c :: units)
  | plain {c : Char} {body : List Char} {units : List StringUnit} (notQuote : c ≠ '\x22')
      (notBackslash : c ≠ '\\') (printed : 0x1F < c.toNat) (more : Quoted body units) :
      Quoted (c :: body) (.char c :: units)

theorem Quoted.stringUnits_eq {body : List Char} {units : List StringUnit}
    (quoted : Quoted body units) (opening left : List Char) :
    stringUnits opening (body ++ left) = .ok (units, left) := by
  induction quoted with
  | closing => exact stringUnits_closing opening left
  | @code a b c d n body units digits more inductionHypothesis =>
      obtain ⟨next, rest, rfl⟩ : ∃ next rest, body = next :: rest := by
        cases more <;> exact ⟨_, _, rfl⟩
      simp only [List.cons_append] at inductionHypothesis ⊢
      rw [stringUnits, digits]
      dsimp only
      rw [inductionHypothesis]
      rfl
  | letter notU stands more inductionHypothesis =>
      rw [List.cons_append, List.cons_append, stringUnits_letter notU stands,
        inductionHypothesis]
      rfl
  | plain notQuote notBackslash printed more inductionHypothesis =>
      rw [List.cons_append, stringUnits_plain notQuote notBackslash printed,
        inductionHypothesis]
      rfl

/-- One more unit in front of those that are read. -/
theorem exists_of_unit_bind {unit : StringUnit}
    {read : Except Stop (List StringUnit × List Char)} {units : List StringUnit}
    {left : List Char}
    (isRead : (do let (units, left) ← read; return (unit :: units, left)) =
      (.ok (units, left) : Except Stop (List StringUnit × List Char))) :
    ∃ others, read = .ok (others, left) ∧ units = unit :: others := by
  cases read with
  | error stop => cases isRead
  | ok pair =>
      cases isRead
      exact ⟨pair.1, rfl, rfl⟩

theorem exists_quoted_of_stringUnits {opening body left : List Char} {units : List StringUnit}
    (read : stringUnits opening body = .ok (units, left)) :
    ∃ quoted, body = quoted ++ left ∧ Quoted quoted units := by
  fun_induction stringUnits opening body generalizing units left with
  | case1 => cases read
  | case2 => cases read
  | case3 a b c d next rest n digits inductionHypothesis =>
      obtain ⟨others, isRead, rfl⟩ := exists_of_unit_bind read
      obtain ⟨quoted, parts, isQuoted⟩ := inductionHypothesis isRead
      rw [parts]
      exact ⟨_ :: _ :: a :: b :: c :: d :: quoted, rfl, .code digits isQuoted⟩
  | case4 => cases read
  | case5 => cases read
  | case6 e rest _ notU c stands inductionHypothesis =>
      obtain ⟨others, isRead, rfl⟩ := exists_of_unit_bind read
      obtain ⟨quoted, rfl, isQuoted⟩ := inductionHypothesis isRead
      exact ⟨_ :: e :: quoted, rfl, .letter notU stands isQuoted⟩
  | case7 => cases read
  | case8 rest =>
      cases read
      exact ⟨['\x22'], rfl, .closing⟩
  | case9 => cases read
  | case10 c rest _ _ noEscape noLast notQuote printed inductionHypothesis =>
      have notBackslash : c ≠ '\\' := by
        rintro rfl
        cases rest with
        | nil => exact noLast rfl rfl
        | cons e behind => exact noEscape e behind rfl rfl
      obtain ⟨others, isRead, rfl⟩ := exists_of_unit_bind read
      obtain ⟨quoted, rfl, isQuoted⟩ := inductionHypothesis isRead
      exact ⟨c :: quoted, rfl, .plain notQuote notBackslash (Nat.not_le.mp printed) isQuoted⟩

theorem string_eq_ok_iff {opening body left : List Char} {content : Text} :
    string opening body = .ok (content, left) ↔
      ∃ quoted units, body = quoted ++ left ∧ Quoted quoted units ∧
        .ofList (joinUnits units) = content := by
  constructor
  · intro read
    rw [string] at read
    cases isRead : stringUnits opening body with
    | error stop =>
        rw [isRead] at read
        cases read
    | ok pair =>
        rw [isRead] at read
        cases read
        obtain ⟨quoted, parts, isQuoted⟩ := exists_quoted_of_stringUnits isRead
        exact ⟨quoted, pair.1, parts, isQuoted, rfl⟩
  · rintro ⟨quoted, units, rfl, isQuoted, rfl⟩
    rw [string, isQuoted.stringUnits_eq]
    rfl

theorem error_of_unit_bind {unit : StringUnit}
    {read : Except Stop (List StringUnit × List Char)} {stop : Stop}
    (isRead : (do let (units, left) ← read; return (unit :: units, left)) =
      (.error stop : Except Stop (List StringUnit × List Char))) : read = .error stop := by
  cases read with
  | error other =>
      cases isRead
      rfl
  | ok pair => cases isRead

theorem stringUnits_error {opening body : List Char} {stop : Stop}
    (read : stringUnits opening body = .error stop) :
    ∃ complaint rest, stop = .malformed complaint rest ∧ complaint ≠ .expectedValue := by
  have stopped {complaint : Complaint} {rest : List Char} (other : complaint ≠ .expectedValue)
      (isStop : (stopAt complaint rest : Except Stop (List StringUnit × List Char)) =
        .error stop) :
      ∃ complaint rest, stop = .malformed complaint rest ∧ complaint ≠ .expectedValue := by
    cases isStop
    exact ⟨complaint, rest, rfl, other⟩
  fun_induction stringUnits opening body with
  | case1 => exact stopped (by decide) read
  | case2 => exact stopped (by decide) read
  | case3 a b c d next rest n digits inductionHypothesis =>
      exact inductionHypothesis (error_of_unit_bind read)
  | case4 => exact stopped (by decide) read
  | case5 => exact stopped (by decide) read
  | case6 e rest _ notU c stands inductionHypothesis =>
      exact inductionHypothesis (error_of_unit_bind read)
  | case7 => exact stopped (by decide) read
  | case8 => cases read
  | case9 => exact stopped (by decide) read
  | case10 c rest _ _ _ _ _ _ inductionHypothesis =>
      exact inductionHypothesis (error_of_unit_bind read)

/-- A text at fault is neither a value that is missing nor beyond a limit. -/
theorem string_error {opening body : List Char} {stop : Stop}
    (read : string opening body = .error stop) :
    ∃ complaint rest, stop = .malformed complaint rest ∧ complaint ≠ .expectedValue := by
  rw [string] at read
  cases isRead : stringUnits opening body with
  | ok pair =>
      rw [isRead] at read
      cases read
  | error other =>
      rw [isRead] at read
      cases read
      exact stringUnits_error isRead

/-! ### Numbers -/

/-- A character that neither opens nor closes anything. -/
def Inert (c : Char) : Prop := c ∉ ['\x22', '[', ']', '\x7b', '\x7d']
deriving Decidable

theorem inert_of_mem_marks {c : Char} (isMark : c ∈ ['e', 'E']) : Inert c := by
  simp only [List.mem_cons, List.not_mem_nil, or_false] at isMark
  rcases isMark with rfl | rfl <;> decide

theorem inert_of_isDigit {c : Char} (isDigit : c.isDigit = true) : Inert c := by
  intro among
  simp only [List.mem_cons, List.not_mem_nil, or_false] at among
  rcases among with rfl | rfl | rfl | rfl | rfl <;> exact absurd isDigit (by decide)

theorem span_isDigit_eq {cs digits rest : List Char}
    (isSpan : cs.span Char.isDigit = (digits, rest)) :
    cs = digits ++ rest ∧ (∀ c ∈ digits, c.isDigit = true) ∧
      ∀ c ∈ rest.head?, c.isDigit = false := by
  rw [List.span_eq_takeWhile_dropWhile, Prod.mk.injEq] at isSpan
  obtain ⟨rfl, rfl⟩ := isSpan
  refine ⟨List.takeWhile_append_dropWhile.symm, fun c => List.mem_takeWhile_imp, ?_⟩
  intro c isHead
  have notDigit := List.head?_dropWhile_not Char.isDigit cs
  rw [Option.mem_def] at isHead
  rw [isHead] at notDigit
  simpa using notDigit

theorem wholeDigits?_eq_some {cs whole rest : List Char}
    (read : wholeDigits? cs = some (whole, rest)) :
    cs = whole ++ rest ∧ IsWhole whole ∧
      (whole = ['0'] ∨ ∀ c ∈ rest.head?, c.isDigit = false) := by
  unfold wholeDigits? at read
  split at read
  next =>
    cases read
    exact ⟨rfl, .zero, .inl rfl⟩
  next first others notZero =>
    split at read
    next isDigit =>
      rw [Option.some.injEq] at read
      obtain ⟨parts, digits, ends⟩ := span_isDigit_eq read
      refine ⟨parts, ?_, .inr ends⟩
      cases whole with
      | nil =>
          rw [List.nil_append] at parts
          rw [← parts] at ends
          rw [ends first rfl] at isDigit
          cases isDigit
      | cons digit more =>
          cases parts
          refine .positive rfl ?_ digits
          rintro rfl
          exact notZero rfl
    next => cases read
  next => cases read

theorem fractionDigits_eq {cs fraction rest : List Char}
    (read : fractionDigits cs = (fraction, rest)) :
    cs = fractionText fraction ++ rest ∧ ∀ c ∈ fraction, c.isDigit = true := by
  unfold fractionDigits at read
  split at read
  next others =>
    cases isSpan : others.span Char.isDigit with
    | mk digits left =>
        obtain ⟨rfl, isDigits, -⟩ := span_isDigit_eq isSpan
        simp only [isSpan] at read
        split at read
        next =>
          cases read
          exact ⟨rfl, by simp⟩
        next filled =>
          cases read
          rw [List.isEmpty_iff] at filled
          rw [Numeral.fractionText_of_ne_nil filled]
          exact ⟨rfl, isDigits⟩
  next =>
    cases read
    exact ⟨rfl, by simp⟩

theorem exponent?_sign {mark : Char} {sign digits rest : List Char} (isMark : mark ∈ ['e', 'E'])
    (isSign : sign ∈ [[], ['-'], ['+']]) (filled : digits ≠ [])
    (isDigits : ∀ c ∈ digits, c.isDigit = true) (ends : ∀ c ∈ rest.head?, c.isDigit = false) :
    exponent? (mark :: (sign ++ (digits ++ rest))) =
      some (powerValue (sign = ['-'], digits), rest) := by
  have all := span_isDigit isDigits ends
  have notEmpty : digits.isEmpty = false := List.isEmpty_eq_false_iff.mpr filled
  have marked : (mark == 'e' || mark == 'E') = true := by simpa using isMark
  obtain ⟨first, others, rfl⟩ := List.exists_cons_of_ne_nil filled
  rw [List.cons_append] at all
  have notMinus : first ≠ '-' := by
    rintro rfl
    exact absurd (isDigits '-' (.head _)) (by decide)
  have notPlus : first ≠ '+' := by
    rintro rfl
    exact absurd (isDigits '+' (.head _)) (by decide)
  simp only [List.mem_cons, List.not_mem_nil, or_false] at isSign
  rcases isSign with rfl | rfl | rfl <;>
    simp [exponent?, marked, powerValue, all, notMinus, notPlus,
          -List.span_eq_takeWhile_dropWhile]

theorem exponent?_eq_some {cs left : List Char} {scale : Int}
    (read : exponent? cs = some (scale, left)) :
    ∃ mark sign digits, cs = mark :: (sign ++ (digits ++ left)) ∧ mark ∈ ['e', 'E'] ∧
      sign ∈ [[], ['-'], ['+']] ∧ digits ≠ [] ∧ (∀ c ∈ digits, c.isDigit = true) ∧
      scale = powerValue (sign = ['-'], digits) := by
  unfold exponent? at read
  split at read
  next mark rest =>
    split at read
    next isMark =>
      have marked : mark ∈ ['e', 'E'] := by simpa using isMark
      split at read
      next negative unsigned signed =>
        have isSign : ∃ sign, rest = sign ++ unsigned ∧ sign ∈ [[], ['-'], ['+']] ∧
            negative = decide (sign = ['-']) := by
          clear read
          split at signed
          next more =>
            cases signed
            exact ⟨['-'], rfl, by simp, rfl⟩
          next more =>
            cases signed
            exact ⟨['+'], rfl, by simp, rfl⟩
          next =>
            cases signed
            exact ⟨[], rfl, by simp, rfl⟩
        clear signed
        obtain ⟨sign, rfl, isSign, rfl⟩ := isSign
        split at read
        next digits behind isSpan =>
          obtain ⟨rfl, isDigits, -⟩ := span_isDigit_eq isSpan
          split at read
          next => cases read
          next filled =>
            cases read
            rw [List.isEmpty_iff] at filled
            exact ⟨mark, sign, digits, rfl, marked, isSign, filled, isDigits, rfl⟩
    next => cases read
  next => cases read

/-- The text of an exponent, if there is one, with something else behind it. -/
theorem exponent?_replay (cs : List Char) :
    ∃ power left, cs = power ++ left ∧ (∀ c ∈ power, Inert c) ∧
      ((exponent? cs).getD (0, cs)).2 = left ∧
      ∀ other, EndsNumber other →
        exponent? (power ++ other) = (exponent? cs).map (fun read => (read.1, other)) ∧
        ∀ c ∈ (power ++ other).head?, c.isDigit = false ∧ c ≠ '.' := by
  cases read : exponent? cs with
  | none =>
      refine ⟨[], cs, rfl, by simp, rfl, ?_⟩
      intro other ends
      have noExponent : exponent? (exponentText none ++ other) = none :=
        exponent?_append (by simp) ends
      exact ⟨noExponent, head?_exponentText none ends⟩
  | some result =>
      obtain ⟨scale, left⟩ := result
      obtain ⟨mark, sign, digits, rfl, isMark, isSign, filled, isDigits, rfl⟩ :=
        exponent?_eq_some read
      refine ⟨mark :: (sign ++ digits), left, by simp, ?_, rfl, ?_⟩
      · intro c among
        rcases List.mem_cons.mp among with rfl | among
        · exact inert_of_mem_marks isMark
        rcases List.mem_append.mp among with isThere | isDigit
        · simp only [List.mem_cons, List.not_mem_nil, or_false] at isSign
          rcases isSign with rfl | rfl | rfl
          · cases isThere
          · rw [List.mem_singleton.mp isThere]
            decide
          · rw [List.mem_singleton.mp isThere]
            decide
        · exact inert_of_isDigit (isDigits c isDigit)
      · intro other ends
        rw [List.cons_append, List.append_assoc,
          exponent?_sign isMark isSign filled isDigits fun c isNext => (ends c isNext).1]
        refine ⟨rfl, ?_⟩
        rintro c ⟨⟩
        simp only [List.mem_cons, List.not_mem_nil, or_false] at isMark
        rcases isMark with rfl | rfl <;> decide

theorem number_of_fraction {whole fraction behind : List Char} (isWhole : IsWhole whole)
    (isDigits : ∀ c ∈ fraction, c.isDigit = true)
    (ends : ∀ c ∈ behind.head?, c.isDigit = false ∧ c ≠ '.') (start : List Char)
    (negative : Bool) (isReal : fraction ≠ [] ∨ exponent? behind ≠ none) :
    number start negative (whole ++ (fractionText fraction ++ behind)) =
      .ok (.real (.ofDecimal negative (digitsValue 0 (whole ++ fraction))
        (((exponent? behind).getD (0, behind)).1 - fraction.length)),
          ((exponent? behind).getD (0, behind)).2) := by
  rw [number, wholeDigits?_append isWhole (head?_fractionText fraction ends)]
  simp only [fractionDigits_append isDigits ends]
  rw [if_neg]
  simpa [← Option.isSome_iff_ne_none, or_iff_not_imp_left] using isReal

theorem inert_fractionText {fraction : List Char} (isDigits : ∀ c ∈ fraction, c.isDigit = true) :
    ∀ c ∈ fractionText fraction, Inert c := by
  intro c among
  cases fraction with
  | nil => cases among
  | cons first others =>
      rcases List.mem_cons.mp among with rfl | isDigit
      · decide
      · exact inert_of_isDigit (isDigits c isDigit)

/-- A number that is read is read again with anything behind it that could not belong to it. -/
theorem number_replay {start cs left : List Char} {negative : Bool} {item : Json}
    (read : number start negative cs = .ok (item, left)) :
    ∃ consumed, cs = consumed ++ left ∧ (∀ c ∈ consumed, Inert c) ∧
      (∃ digit ∈ consumed.head?, digit.isDigit = true) ∧
      ∀ start' left', EndsNumber left' →
        number start' negative (consumed ++ left') = .ok (item, left') := by
  unfold number at read
  split at read
  next => cases read
  next whole afterWhole isRead =>
    obtain ⟨rfl, isWhole, -⟩ := wholeDigits?_eq_some isRead
    have inert : ∀ c ∈ whole, Inert c := fun c among => inert_of_isDigit (isWhole.isDigit c among)
    obtain ⟨digit, others, rfl⟩ := List.exists_cons_of_ne_nil isWhole.ne_nil
    have isDigit : digit.isDigit = true := isWhole.isDigit digit (.head _)
    split at read
    next fraction afterFraction isFraction =>
      obtain ⟨rfl, isDigits⟩ := fractionDigits_eq isFraction
      obtain ⟨power, rest, rfl, powerInert, isLeft, replay⟩ := exponent?_replay afterFraction
      simp only at read
      split at read
      next isInt =>
        split at read
        next => cases read
        next short =>
          cases read
          refine ⟨digit :: others, rfl, inert, ⟨digit, rfl, isDigit⟩, ?_⟩
          intro start' left' ends
          exact number_whole isWhole (Nat.not_lt.mp short) ends start' negative
      next isReal =>
        cases read
        refine ⟨digit :: others ++ (fractionText fraction ++ power), ?_, ?_,
          ⟨digit, rfl, isDigit⟩, ?_⟩
        · simp [isLeft]
        · simp only [List.forall_mem_append]
          exact ⟨inert, inert_fractionText isDigits, powerInert⟩
        · intro start' left' ends
          obtain ⟨same, behind⟩ := replay left' ends
          have again := number_of_fraction isWhole isDigits behind start' negative
          rw [same] at again
          rw [List.append_assoc, List.append_assoc]
          cases isPower : exponent? (power ++ rest) with
          | none =>
              rw [isPower] at isLeft isReal again
              have noPower : power = [] := by simpa using isLeft
              rw [again (.inl (by simpa using isReal))]
              simp [noPower]
          | some scaled =>
              rw [isPower] at again
              rw [again (.inr (by simp))]
              simp

/-! ### Words -/

theorem inert_of_all {cs : List Char} (all : cs.all (fun c => decide (Inert c)) = true) :
    ∀ c ∈ cs, Inert c := by
  intro c among
  exact of_decide_eq_true (List.all_eq_true.mp all c among)

/-- A number or a word that is read is read again with anything behind it that could not belong
to a number. -/
theorem scalar_replay {cs left : List Char} {item : Json}
    (read : scalar cs = .ok (item, left)) :
    ∃ consumed, cs = consumed ++ left ∧ consumed ≠ [] ∧ (∀ c ∈ consumed, Inert c) ∧
      ∀ left', EndsNumber left' → scalar (consumed ++ left') = .ok (item, left') := by
  have numeral (negative : Bool) {start rest : List Char} (parts : cs = signText negative ++ rest)
      (isNumber : number start negative rest = .ok (item, left)) :
      ∃ consumed, cs = consumed ++ left ∧ consumed ≠ [] ∧ (∀ c ∈ consumed, Inert c) ∧
        ∀ left', EndsNumber left' → scalar (consumed ++ left') = .ok (item, left') := by
    obtain ⟨consumed, rfl, inert, ⟨digit, isHead, isDigit⟩, replay⟩ := number_replay isNumber
    obtain ⟨others, rfl⟩ := List.head?_eq_some_iff.mp isHead
    refine ⟨signText negative ++ digit :: others, ?_, by simp, ?_, ?_⟩
    · rw [parts, List.append_assoc]
    · rw [List.forall_mem_append]
      refine ⟨?_, inert⟩
      cases negative
      · exact inert_of_all rfl
      · exact inert_of_all (by decide)
    · intro left' ends
      rw [List.append_assoc, List.cons_append, scalar_signText isDigit]
      exact replay _ left' ends
  unfold scalar at read
  split at read
  next =>
    cases read
    exact ⟨['n', 'u', 'l', 'l'], rfl, by simp, inert_of_all (by decide), fun _ _ => rfl⟩
  next =>
    cases read
    exact ⟨['t', 'r', 'u', 'e'], rfl, by simp, inert_of_all (by decide), fun _ _ => rfl⟩
  next =>
    cases read
    exact ⟨['f', 'a', 'l', 's', 'e'], rfl, by simp, inert_of_all (by decide), fun _ _ => rfl⟩
  next =>
    cases read
    exact ⟨['N', 'a', 'N'], rfl, by simp, inert_of_all (by decide), fun _ _ => rfl⟩
  next =>
    cases read
    exact ⟨['I', 'n', 'f', 'i', 'n', 'i', 't', 'y'], rfl, by simp, inert_of_all (by decide),
      fun _ _ => rfl⟩
  next =>
    cases read
    exact ⟨['-', 'I', 'n', 'f', 'i', 'n', 'i', 't', 'y'], rfl, by simp,
      inert_of_all (by decide), fun _ _ => rfl⟩
  next => exact numeral true rfl read
  next => exact numeral false rfl read

/-! ### Whole numbers that are too long -/

/-- What may stand behind a whole number: no further digit, no fraction and no exponent. -/
structure EndsWhole (rest : List Char) : Prop where
  noDigit : ∀ c ∈ rest.head?, c.isDigit = false
  noFraction : (fractionDigits rest).1 = []
  noExponent : exponent? rest = none

/-- A text that starts with a whole number of so many digits, which are more than may be read. -/
def Overlong (count : Nat) (cs : List Char) : Prop :=
  ∃ negative whole rest, cs = signText negative ++ (whole ++ rest) ∧ IsWhole whole ∧
    EndsWhole rest ∧ whole.length = count ∧ digitLimit < count

theorem number_error {start cs : List Char} {negative : Bool} {stop : Stop}
    (read : number start negative cs = .error stop) :
    stop = .malformed .expectedValue start ∨
      ∃ whole rest, stop = .beyond (.digits whole.length) ∧ cs = whole ++ rest ∧
        IsWhole whole ∧ EndsWhole rest ∧ digitLimit < whole.length := by
  unfold number at read
  split at read
  next =>
    cases read
    exact .inl rfl
  next whole afterWhole isRead =>
    obtain ⟨rfl, isWhole, ends⟩ := wholeDigits?_eq_some isRead
    split at read
    next fraction afterFraction isFraction =>
      obtain ⟨rfl, -⟩ := fractionDigits_eq isFraction
      simp only at read
      split at read
      next isInt =>
        split at read
        next long =>
          cases read
          rw [Bool.and_eq_true, List.isEmpty_iff, Option.isNone_iff_eq_none] at isInt
          obtain ⟨rfl, noExponent⟩ := isInt
          have noDigit : ∀ c ∈ (fractionText [] ++ afterFraction).head?, c.isDigit = false := by
            rcases ends with rfl | noDigit
            · exact absurd long (by decide)
            · exact noDigit
          refine .inr ⟨whole, _, rfl, rfl, isWhole, ⟨noDigit, ?_, noExponent⟩, long⟩
          rw [isFraction]
        next => cases read
      next => cases read

theorem scalar_error {cs : List Char} {stop : Stop} (read : scalar cs = .error stop) :
    stop = .malformed .expectedValue cs ∨
      ∃ count, stop = .beyond (.digits count) ∧ Overlong count cs := by
  have numeral (negative : Bool) {rest : List Char} (parts : cs = signText negative ++ rest)
      (isNumber : number cs negative rest = .error stop) :
      stop = .malformed .expectedValue cs ∨
        ∃ count, stop = .beyond (.digits count) ∧ Overlong count cs := by
    rcases number_error isNumber with missing | ⟨whole, behind, isStop, rfl, isWhole, ends, long⟩
    · exact .inl missing
    · exact .inr ⟨_, isStop, negative, whole, behind, parts, isWhole, ends, rfl, long⟩
  unfold scalar at read
  split at read
  next => cases read
  next => cases read
  next => cases read
  next => cases read
  next => cases read
  next => cases read
  next => exact numeral true rfl read
  next => exact numeral false rfl read

namespace Overlong

theorem exists_eq_cons {count : Nat} {cs : List Char} (overlong : Overlong count cs) :
    ∃ c rest, cs = c :: rest ∧ StartsScalar c := by
  obtain ⟨negative, whole, rest, rfl, isWhole, -⟩ := overlong
  exact exists_signText_eq_cons negative isWhole.ne_nil isWhole.isDigit rest

theorem scalar_eq {count : Nat} {cs : List Char} (overlong : Overlong count cs) :
    scalar cs = .error (.beyond (.digits count)) := by
  obtain ⟨negative, whole, rest, rfl, isWhole, ends, rfl, long⟩ := overlong
  have noFraction : fractionDigits rest = ([], rest) := by
    have noDigits := ends.noFraction
    cases isFraction : fractionDigits rest with
    | mk fraction behind =>
        rw [isFraction] at noDigits
        cases noDigits
        obtain ⟨rfl, -⟩ := fractionDigits_eq isFraction
        rfl
  have isDigit := isWhole.isDigit
  have isNumber (start : List Char) :
      number start negative (whole ++ rest) = .error (.beyond (.digits whole.length)) := by
    rw [number, wholeDigits?_append isWhole ends.noDigit]
    simp only [noFraction, ends.noExponent]
    rw [if_pos long]
    rfl
  obtain ⟨first, others, rfl⟩ := List.exists_cons_of_ne_nil isWhole.ne_nil
  rw [List.cons_append] at isNumber ⊢
  rw [scalar_signText (isDigit first (.head _))]
  exact isNumber _

end Overlong

end ShellGloss.Json.Reading
