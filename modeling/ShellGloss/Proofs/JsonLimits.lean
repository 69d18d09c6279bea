/-
Module: ShellGloss.Proofs.JsonLimits
Purpose: Which JSON texts go beyond the limits of the reader: those with a whole number of too
  many digits where a value is due, and of the others only such as are nested too deep.
Imports: ShellGloss.Proofs.JsonCourse
Main exports:
  Json.Reading.NoValue, Json.Reading.Goes.exists_noValue, Json.Reading.BreaksOff,
  Json.Reading.document_digits_iff, Json.Reading.deepest, Json.nesting, Json.HasOverlong,
  Json.read_digits_iff, Json.nestingLimit_lt_of_read
-/
import ShellGloss.Proofs.JsonCourse

namespace ShellGloss.Json

namespace Reading

/-! ### Where a value is due -/

/-- What may stand where a value is due and is none that can be read: nothing at all, or a whole
number that is too long. -/
inductive NoValue : List Char → Stop → Prop where
  | nothing : NoValue [] (.malformed .expectedValue [])
  | overlong {count : Nat} {cs : List Char} (long : Overlong count cs) :
      NoValue cs (.beyond (.digits count))

theorem NoValue.scalar_eq {cs : List Char} {stop : Stop} (noValue : NoValue cs stop) :
    scalar cs = .error stop := by
  cases noValue with
  | nothing => rfl
  | overlong long => exact long.scalar_eq

theorem NoValue.startsScalar {cs : List Char} {stop : Stop} (noValue : NoValue cs stop) :
    ∀ c ∈ cs.head?, StartsScalar c := by
  cases noValue with
  | nothing => rintro c ⟨⟩
  | overlong long =>
      obtain ⟨first, rest, rfl, starts⟩ := long.exists_eq_cons
      rintro c ⟨⟩
      exact starts

theorem NoValue.notGap {cs : List Char} {stop : Stop} (noValue : NoValue cs stop) :
    ∀ c ∈ cs.head?, isGap c = false :=
  fun c isHead => isGap_of_startsValue (.inl (noValue.startsScalar c isHead))

theorem NoValue.plain {cs : List Char} {stop : Stop} (noValue : NoValue cs stop) :
    ∀ c ∈ cs.head?, c ∉ ['\x22', '[', '\x7b'] := by
  intro c isHead
  have starts := noValue.startsScalar c isHead
  simp only [List.mem_cons, List.not_mem_nil, or_false, not_or]
  exact ⟨starts.ne rfl (by decide), starts.ne rfl (by decide), starts.ne rfl (by decide)⟩

theorem NoValue.ne_closing {cs : List Char} {stop : Stop} (noValue : NoValue cs stop)
    (container : Container) : cs.head? ≠ some container.closing := by
  intro isHead
  have starts := noValue.startsScalar _ isHead
  cases container with
  | list => exact starts.ne rfl (by decide) rfl
  | object => exact starts.ne rfl (by decide) rfl

/-- Reading stops for want of a value at one place of the text, and it stops there whatever
else stands there that is none. -/
theorem Goes.exists_noValue {levels : Nat} {part : Part} {cs : List Char} {stop : Stop}
    (goes : Goes levels part cs (.error stop))
    (wanting : stop = .malformed .expectedValue [] ∨ ∃ count, stop = .beyond (.digits count)) :
    ∃ before place, cs = before ++ place ∧ NoValue place stop ∧
      ∀ other reason, NoValue other reason →
        Goes levels part (before ++ other) (.error reason) := by
  have complaint_eq {complaint : Complaint} {rest : List Char}
      (isStop : stop = .malformed complaint rest) : complaint = .expectedValue := by
    rcases wanting with rfl | ⟨count, rfl⟩
    · cases isStop
      rfl
    · cases isStop
  -- The stop tells where the place is, and what is said of other places does not mention it:
  -- so one induction leads from the end of a text to a number there, and back.
  generalize isError : Except.error stop = result at goes
  induction goes with
  | text read =>
      subst isError
      obtain ⟨complaint, rest, isStop, other⟩ := string_error (leaving_eq_error_iff.mp read)
      exact absurd (complaint_eq isStop) other
  | tooDeep =>
      cases isError
      rcases wanting with isStop | ⟨count, isStop⟩ <;> cases isStop
  | empty => cases isError
  | @filled levels container rest result opened entries inductionHypothesis =>
      obtain ⟨found, place, parts, noValue, onward⟩ := inductionHypothesis isError
      obtain ⟨front, rfl, again⟩ := filled_again parts
      refine ⟨container.opening :: front, place, rfl, noValue, fun other reason lacking => ?_⟩
      apply again other _ (.inr lacking.notGap)
      · cases found with
        | nil => exact lacking.ne_closing container
        | cons first others =>
            rw [parts] at opened
            exact opened
      · exact onward other reason lacking
  | @scalar levels cs result plain read =>
      subst isError
      refine ⟨[], cs, rfl, ?_, fun other reason lacking => .scalar lacking.plain ?_⟩
      · rcases scalar_error (leaving_eq_error_iff.mp read) with rfl | ⟨count, rfl, long⟩
        · rcases wanting with isStop | ⟨count, isStop⟩
          · cases isStop
            exact .nothing
          · cases isStop
        · exact .overlong long
      · exact leaving_eq_error_iff.mpr lacking.scalar_eq
  | badEntry item inductionHypothesis =>
      obtain ⟨before, place, parts, noValue, again⟩ := inductionHypothesis isError
      exact ⟨before, place, parts, noValue, fun other reason lacking =>
        .badEntry (again other reason lacking)⟩
  | lastEntry => cases isError
  | @nextEntry levels container cs between rest result item comma others _ inductionHypothesis =>
      obtain ⟨consumed, rfl, -, replay⟩ := item.replay
      obtain ⟨found, place, parts, noValue, onward⟩ := inductionHypothesis isError
      obtain ⟨front, rfl, again⟩ :=
        nextEntry_again (fun other ends => replay other fun _ => ends) comma parts
      refine ⟨consumed ++ front, place, by simp, noValue, fun other reason lacking => ?_⟩
      rw [List.append_assoc]
      exact again other _ (.inr lacking.notGap) (onward other reason lacking)
  | noComma =>
      cases isError
      cases complaint_eq rfl
  | noName =>
      cases isError
      cases complaint_eq rfl
  | badName read =>
      cases isError
      obtain ⟨complaint, rest, isStop, other⟩ := string_error read
      exact absurd (complaint_eq isStop) other
  | noColon =>
      cases isError
      cases complaint_eq rfl
  | @named levels body between rest name result read colon member inductionHypothesis =>
      obtain ⟨found, place, parts, noValue, onward⟩ := inductionHypothesis isError
      obtain ⟨front, rfl, again⟩ := named_again read colon parts
      refine ⟨'\x22' :: front, place, rfl, noValue, fun other reason lacking => ?_⟩
      exact again other _ (.inr lacking.notGap) (onward other reason lacking)

/-- A text that breaks off where a value is due. -/
def BreaksOff (levels : Nat) (cs : List Char) : Prop :=
  document levels cs = .error (.malformed .expectedValue [])

theorem head?_append_ne {front back other : List Char} {mark : Char}
    (starts : back.head? ≠ some mark) (isHead : (front ++ other).head? ≠ some mark) :
    (front ++ back).head? ≠ some mark := by
  cases front with
  | nil => exact starts
  | cons c rest => exact isHead

theorem NoValue.ne_byteOrderMark {cs : List Char} {stop : Stop} (noValue : NoValue cs stop) :
    cs.head? ≠ some '\uFEFF' := by
  intro isHead
  exact (noValue.startsScalar _ isHead).ne rfl (by decide) rfl

/-- The digits of a whole number are found to be too many exactly if the text up to the number
breaks off where a value is due. -/
theorem document_digits_iff {levels count : Nat} {cs : List Char} :
    document levels cs = .error (.beyond (.digits count)) ↔
      ∃ before number, cs = before ++ number ∧ BreaksOff levels before ∧
        Overlong count number := by
  have digitsStop : document levels cs = .error (.beyond (.digits count)) ↔ _ :=
    document_eq_error_iff (by simp) (by simp)
  have breaksOff (before : List Char) : BreaksOff levels before ↔ _ :=
    document_eq_error_iff (by simp) (by simp)
  rw [digitsStop]
  constructor
  · rintro ⟨unmarked, goes⟩
    obtain ⟨front, number, parts, noValue, again⟩ := goes.exists_noValue (.inr ⟨count, rfl⟩)
    obtain ⟨before, rfl, skipped⟩ := exists_of_skipGaps_eq_append parts
    have nothing := skipped [] (.inr NoValue.nothing.notGap)
    refine ⟨before, number, rfl, (breaksOff before).mpr ⟨?_, ?_⟩, ?_⟩
    · have starts := head?_append_ne NoValue.nothing.ne_byteOrderMark unmarked
      rwa [List.append_nil] at starts
    · rw [List.append_nil] at nothing
      rw [nothing]
      exact again [] _ .nothing
    · cases noValue with
      | overlong long => exact long
  · rintro ⟨before, number, rfl, breaks, long⟩
    obtain ⟨unmarked, goes⟩ := (breaksOff before).mp breaks
    have lacking := NoValue.overlong long
    obtain ⟨front, place, parts, noValue, again⟩ := goes.exists_noValue (.inl rfl)
    cases noValue
    rw [List.append_nil] at parts
    subst parts
    constructor
    · apply head?_append_ne lacking.ne_byteOrderMark
      rwa [List.append_nil]
    · rw [skipGaps_append before lacking.notGap]
      exact again number _ lacking

/-! ### Nesting -/

/-- Where a character stands: outside of texts, in one, or right behind a backslash in one. -/
inductive Zone where
  | outside
  | inside
  | escaped
deriving Repr, Inhabited, DecidableEq

/-- The zone behind a character. -/
def Zone.behind (c : Char) : Zone → Zone
  | .outside => if c = '\x22' then .inside else .outside
  | .inside => if c = '\x22' then .outside else if c = '\\' then .escaped else .inside
  | .escaped => .inside

/-- How many containers are open behind a character. -/
def Zone.depthBehind (depth : Nat) (c : Char) : Zone → Nat
  | .outside =>
      if c ∈ ['[', '\x7b'] then depth + 1
      else if c ∈ [']', '\x7d'] then depth - 1
      else depth
  | _ => depth

/-- The greatest number of containers that are open at a time, from a zone on. -/
def deepest : Zone → Nat → List Char → Nat
  | _, depth, [] => depth
  | zone, depth, c :: rest =>
      max depth (deepest (zone.behind c) (zone.depthBehind depth c) rest)

theorem le_deepest (zone : Zone) (depth : Nat) (cs : List Char) :
    depth ≤ deepest zone depth cs := by
  cases cs with
  | nil => exact Nat.le_refl depth
  | cons c rest => exact Nat.le_max_left _ _

theorem deepest_behind_le (zone : Zone) (depth : Nat) (c : Char) (rest : List Char) :
    deepest (zone.behind c) (zone.depthBehind depth c) rest ≤ deepest zone depth (c :: rest) :=
  Nat.le_max_right _ _

theorem deepest_opening_le (depth : Nat) (container : Container) (rest : List Char) :
    deepest .outside (depth + 1) rest ≤ deepest .outside depth (container.opening :: rest) := by
  cases container with
  | list => exact deepest_behind_le .outside depth '[' rest
  | object => exact deepest_behind_le .outside depth '\x7b' rest

theorem deepest_closing_le (depth : Nat) (container : Container) (rest : List Char) :
    deepest .outside depth rest ≤ deepest .outside (depth + 1) (container.closing :: rest) := by
  cases container with
  | list => exact deepest_behind_le .outside (depth + 1) ']' rest
  | object => exact deepest_behind_le .outside (depth + 1) '\x7d' rest

theorem deepest_inert_le (depth : Nat) {front : List Char} (inert : ∀ c ∈ front, Inert c)
    (back : List Char) : deepest .outside depth back ≤ deepest .outside depth (front ++ back) := by
  induction front with
  | nil => exact Nat.le_refl _
  | cons c rest inductionHypothesis =>
      obtain ⟨first, others⟩ := List.forall_mem_cons.mp inert
      have step := deepest_behind_le .outside depth c (rest ++ back)
      simp only [Inert, List.mem_cons, List.not_mem_nil, or_false, not_or] at first
      simp only [Zone.behind, Zone.depthBehind, List.mem_cons, List.not_mem_nil, first,
        or_self, if_false] at step
      exact (inductionHypothesis others).trans step

theorem deepest_of_inert (depth : Nat) {cs : List Char} (inert : ∀ c ∈ cs, Inert c) :
    deepest .outside depth cs = depth := by
  induction cs with
  | nil => rfl
  | cons c rest inductionHypothesis =>
      obtain ⟨first, others⟩ := List.forall_mem_cons.mp inert
      simp only [Inert, List.mem_cons, List.not_mem_nil, or_false, not_or] at first
      simp only [deepest, Zone.behind, Zone.depthBehind, List.mem_cons, List.not_mem_nil, first,
        or_self, if_false, inductionHypothesis others, Nat.max_self]

theorem deepest_plain_le (depth : Nat) {c : Char} (notQuote : c ≠ '\x22')
    (notBackslash : c ≠ '\\') (rest : List Char) :
    deepest .inside depth rest ≤ deepest .inside depth (c :: rest) := by
  have step := deepest_behind_le .inside depth c rest
  rwa [Zone.behind, if_neg notQuote, if_neg notBackslash] at step

theorem deepest_escape_le (depth : Nat) (c : Char) (rest : List Char) :
    deepest .inside depth rest ≤ deepest .inside depth ('\\' :: c :: rest) :=
  (deepest_behind_le .escaped depth c rest).trans
    (deepest_behind_le .inside depth '\\' (c :: rest))

theorem deepest_hex_le (depth : Nat) {c : Char} {n : Nat} (isDigit : Text.hexValue? c = some n)
    (rest : List Char) : deepest .inside depth rest ≤ deepest .inside depth (c :: rest) := by
  apply deepest_plain_le
  · rintro rfl
    cases isDigit
  · rintro rfl
    cases isDigit

/-- Behind a text the scan is outside of it, as deep as in front. -/
theorem deepest_quoted_le (depth : Nat) {quoted : List Char} {units : List StringUnit}
    (isQuoted : Quoted quoted units) (back : List Char) :
    deepest .outside depth back ≤ deepest .inside depth (quoted ++ back) := by
  induction isQuoted with
  | closing => exact deepest_behind_le .inside depth '\x22' back
  | @code a b c d n body units digits more inductionHypothesis =>
      simp only [hexUnit?, bind, Option.bind_eq_some_iff] at digits
      obtain ⟨_, first, _, second, _, third, _, fourth, -⟩ := digits
      exact inductionHypothesis.trans <| (deepest_hex_le depth fourth _).trans <|
        (deepest_hex_le depth third _).trans <| (deepest_hex_le depth second _).trans <|
          (deepest_hex_le depth first _).trans (deepest_escape_le depth 'u' _)
  | letter notU stands more inductionHypothesis =>
      exact inductionHypothesis.trans (deepest_escape_le depth _ _)
  | plain notQuote notBackslash printed more inductionHypothesis =>
      exact inductionHypothesis.trans (deepest_plain_le depth notQuote notBackslash _)

theorem deepest_string_le (depth : Nat) {opening body left : List Char}
    {content : Text} (read : string opening body = .ok (content, left)) :
    deepest .outside depth left ≤ deepest .outside depth ('\x22' :: body) := by
  obtain ⟨quoted, units, rfl, isQuoted, -⟩ := string_eq_ok_iff.mp read
  exact (deepest_quoted_le depth isQuoted left).trans (deepest_behind_le .outside depth '\x22' _)

theorem inert_of_isGap {c : Char} (gap : isGap c = true) : Inert c := by
  simp only [isGap, Bool.or_eq_true, beq_iff_eq] at gap
  rcases gap with ((rfl | rfl) | rfl) | rfl <;> decide

theorem deepest_skipGaps_le (depth : Nat) (cs : List Char) :
    deepest .outside depth (skipGaps cs) ≤ deepest .outside depth cs := by
  have parts : cs = cs.takeWhile isGap ++ skipGaps cs :=
    List.takeWhile_append_dropWhile.symm
  have inert : ∀ c ∈ cs.takeWhile isGap, Inert c :=
    fun c among => inert_of_isGap (List.mem_takeWhile_imp among)
  calc
    deepest .outside depth (skipGaps cs) ≤
        deepest .outside depth (cs.takeWhile isGap ++ skipGaps cs) :=
      deepest_inert_le depth inert _
    _ = deepest .outside depth cs := by rw [← parts]

/-- What comes behind a comma or a colon and the gaps around it. -/
theorem deepest_next_le (depth : Nat) {left rest : List Char} {c : Char} (inert : Inert c)
    (isNext : skipGaps left = c :: rest) :
    deepest .outside depth (skipGaps rest) ≤ deepest .outside depth left := by
  have single : ∀ other ∈ [c], Inert other := List.forall_mem_singleton.mpr inert
  calc
    deepest .outside depth (skipGaps rest) ≤ deepest .outside depth rest :=
      deepest_skipGaps_le depth rest
    _ ≤ deepest .outside depth (c :: rest) := deepest_inert_le depth single rest
    _ ≤ deepest .outside depth left := by
      rw [← isNext]
      exact deepest_skipGaps_le depth left

/-- How many containers are open where a part starts, more than where it ends. -/
def Part.inner : Part → Nat
  | .value => 0
  | .entry _ => 1
  | .name => 1

theorem Part.inner_first (container : Container) : (first container).inner = 1 := by
  cases container <;> rfl

/-- What a part leaves is nested no deeper than the text that it starts. -/
theorem Goes.deepest_le {levels : Nat} {part : Part} {cs left : List Char}
    (goes : Goes levels part cs (.ok left)) (depth : Nat) :
    deepest .outside depth left ≤ deepest .outside (depth + part.inner) cs := by
  generalize isOk : Except.ok left = result at goes
  induction goes generalizing left depth with
  | text read =>
      subst isOk
      obtain ⟨content, isRead⟩ := leaving_eq_ok_iff.mp read
      exact deepest_string_le depth isRead
  | tooDeep => cases isOk
  | @empty levels container rest left closed =>
      cases isOk
      calc
        deepest .outside depth left ≤ deepest .outside (depth + 1) (container.closing :: left) :=
          deepest_closing_le depth container left
        _ ≤ deepest .outside (depth + 1) rest := by
          rw [← closed]
          exact deepest_skipGaps_le (depth + 1) rest
        _ ≤ deepest .outside depth (container.opening :: rest) :=
          deepest_opening_le depth container rest
  | @filled levels container rest result opened others inductionHypothesis =>
      have fromOthers := inductionHypothesis depth isOk
      rw [Part.inner_first] at fromOthers
      calc
        deepest .outside depth left ≤ deepest .outside (depth + 1) (skipGaps rest) := fromOthers
        _ ≤ deepest .outside (depth + 1) rest := deepest_skipGaps_le (depth + 1) rest
        _ ≤ deepest .outside depth (container.opening :: rest) :=
          deepest_opening_le depth container rest
  | scalar plain read =>
      subst isOk
      obtain ⟨item, isRead⟩ := leaving_eq_ok_iff.mp read
      obtain ⟨consumed, rfl, -, inert, -⟩ := scalar_replay isRead
      exact deepest_inert_le depth inert left
  | badEntry => cases isOk
  | @lastEntry levels container cs between rest item closed inductionHypothesis =>
      cases isOk
      calc
        deepest .outside depth rest ≤ deepest .outside (depth + 1) (container.closing :: rest) :=
          deepest_closing_le depth container rest
        _ ≤ deepest .outside (depth + 1) between := by
          rw [← closed]
          exact deepest_skipGaps_le (depth + 1) between
        _ ≤ deepest .outside (depth + 1) cs := inductionHypothesis (depth + 1) rfl
  | @nextEntry levels container cs between rest result item comma others fromItem fromOthers =>
      have behind := fromOthers depth isOk
      rw [Part.inner_first] at behind
      calc
        deepest .outside depth left ≤ deepest .outside (depth + 1) (skipGaps rest) := behind
        _ ≤ deepest .outside (depth + 1) between := deepest_next_le (depth + 1) (by decide) comma
        _ ≤ deepest .outside (depth + 1) cs := fromItem (depth + 1) rfl
  | noComma => cases isOk
  | noName => cases isOk
  | badName => cases isOk
  | noColon => cases isOk
  | @named levels body between rest name result read colon member inductionHypothesis =>
      calc
        deepest .outside depth left ≤ deepest .outside (depth + 1) (skipGaps rest) :=
          inductionHypothesis depth isOk
        _ ≤ deepest .outside (depth + 1) between := deepest_next_le (depth + 1) (by decide) colon
        _ ≤ deepest .outside (depth + 1) ('\x22' :: body) := deepest_string_le (depth + 1) read

/-- A part is nested too deep only if there are more containers in it than levels. -/
theorem Goes.lt_deepest {levels : Nat} {part : Part} {cs : List Char} {container : Container}
    (goes : Goes levels part cs (.error (.beyond (.nesting container)))) (depth : Nat) :
    depth + levels < deepest .outside depth cs := by
  generalize isError : Except.error (Stop.beyond (.nesting container)) = result at goes
  induction goes generalizing depth with
  | text read =>
      subst isError
      obtain ⟨complaint, rest, isStop, -⟩ := string_error (leaving_eq_error_iff.mp read)
      cases isStop
  | @tooDeep opened rest =>
      calc
        depth + 0 < depth + 1 := Nat.lt_succ_self depth
        _ ≤ deepest .outside (depth + 1) rest := le_deepest .outside (depth + 1) rest
        _ ≤ deepest .outside depth (opened.opening :: rest) := deepest_opening_le depth opened rest
  | empty => cases isError
  | @filled levels opened rest result notClosed others inductionHypothesis =>
      calc
        depth + (levels + 1) = depth + 1 + levels := by omega
        _ < deepest .outside (depth + 1) (skipGaps rest) := inductionHypothesis (depth + 1) isError
        _ ≤ deepest .outside (depth + 1) rest := deepest_skipGaps_le (depth + 1) rest
        _ ≤ deepest .outside depth (opened.opening :: rest) := deepest_opening_le depth opened rest
  | scalar plain read =>
      subst isError
      rcases scalar_error (leaving_eq_error_iff.mp read) with isStop | ⟨count, isStop, -⟩ <;>
        cases isStop
  | badEntry item inductionHypothesis => exact inductionHypothesis depth isError
  | lastEntry => cases isError
  | @nextEntry levels opened cs between rest result item comma others _ inductionHypothesis =>
      calc
        depth + levels < deepest .outside depth (skipGaps rest) :=
          inductionHypothesis depth isError
        _ ≤ deepest .outside depth between := deepest_next_le depth (by decide) comma
        _ ≤ deepest .outside depth cs := item.deepest_le depth
  | noComma => cases isError
  | noName => cases isError
  | badName read =>
      cases isError
      obtain ⟨complaint, rest, isStop, -⟩ := string_error read
      cases isStop
  | noColon => cases isError
  | @named levels body between rest name result read colon member inductionHypothesis =>
      calc
        depth + levels < deepest .outside depth (skipGaps rest) :=
          inductionHypothesis depth isError
        _ ≤ deepest .outside depth between := deepest_next_le depth (by decide) colon
        _ ≤ deepest .outside depth ('\x22' :: body) := deepest_string_le depth read

theorem lt_deepest_of_document {levels : Nat} {cs : List Char} {container : Container}
    (refused : document levels cs = .error (.beyond (.nesting container))) :
    levels < deepest .outside 0 cs := by
  obtain ⟨-, goes⟩ := (document_eq_error_iff (by simp) (by simp)).mp refused
  calc
    levels = 0 + levels := (Nat.zero_add levels).symm
    _ < deepest .outside 0 (skipGaps cs) := goes.lt_deepest 0
    _ ≤ deepest .outside 0 cs := deepest_skipGaps_le 0 cs

theorem deepest_unifyLineEnds (zone : Zone) (depth : Nat) (cs : List Char) :
    deepest zone depth (Text.unifyLineEnds cs) = deepest zone depth cs := by
  fun_induction Text.unifyLineEnds cs generalizing zone depth with
  | case1 => rfl
  | case2 rest inductionHypothesis =>
      cases zone <;> simp [deepest, Zone.behind, Zone.depthBehind, inductionHypothesis]
  | case3 c rest _ inductionHypothesis =>
      by_cases carriage : c = '\r'
      · subst carriage
        cases zone <;> simp [deepest, Zone.behind, Zone.depthBehind, inductionHypothesis]
      · rw [if_neg carriage, deepest, deepest, inductionHypothesis]

end Reading

/-! ### Texts as they are read -/

/-- How deep the containers of a text are nested. -/
def nesting (text : String) : Nat := Reading.deepest .outside 0 text.toList

/-- A text in which, where a value is due, there is a whole number of so many digits, and they
are too many. -/
def HasOverlong (count : Nat) (text : String) : Prop :=
  ∃ before number, text.toList = before ++ number ∧ Reading.BreaksOff nestingLimit before ∧
    Reading.Overlong count number

theorem read_beyond_iff {text : String} {limit : Limit} :
    read text = .error (.beyond limit) ↔
      Reading.document nestingLimit text.toList = .error (.beyond limit) := by
  rw [read, readWithin]
  cases Reading.document nestingLimit text.toList with
  | ok value => simp
  | error stop => cases stop <;> simp [Stop.toFault]

/-- Reading stops at a number that is too long exactly if there is one where a value is due. -/
theorem read_digits_iff {text : String} {count : Nat} :
    read text = .error (.beyond (.digits count)) ↔ HasOverlong count text :=
  read_beyond_iff.trans Reading.document_digits_iff

/-- Only a text that is nested deeper than the limit is refused for its nesting. -/
theorem nestingLimit_lt_of_read {text : String} {container : Container}
    (refused : read text = .error (.beyond (.nesting container))) : nestingLimit < nesting text :=
  Reading.lt_deepest_of_document (read_beyond_iff.mp refused)

end ShellGloss.Json
