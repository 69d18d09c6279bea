/-
Module: ShellGloss.Proofs.JsonCourse
Purpose: The course that the reading of a JSON text takes, as a relation without a bound on the
  steps: what each part leaves of the text, or why it stops.
Imports: ShellGloss.Proofs.JsonScalars
Main exports:
  Json.Reading.leaving, Json.Reading.Part, Json.Reading.Goes, Json.Reading.Goes.replay,
  Json.Reading.leaves, Json.Reading.goes_iff, Json.Reading.document_eq_error_iff
-/
import ShellGloss.Proofs.JsonScalars

namespace ShellGloss.Json

def Container.opening : Container → Char
  | .list => '['
  | .object => '\x7b'

def Container.closing : Container → Char
  | .list => ']'
  | .object => '\x7d'

theorem Container.closing_mem (container : Container) :
    container.closing ∈ [',', ']', '\x7d'] := by
  cases container <;> decide

namespace Reading

/-- What a step of the reader leaves of the text. -/
def leaving {α : Type} (read : Except Stop (α × List Char)) : Except Stop (List Char) :=
  read.map Prod.snd

theorem leaving_eq_ok_iff {α : Type} {read : Except Stop (α × List Char)} {left : List Char} :
    leaving read = .ok left ↔ ∃ item, read = .ok (item, left) := by
  cases read with
  | error stop => simp [leaving, Except.map]
  | ok pair =>
      obtain ⟨item, rest⟩ := pair
      simp [leaving, Except.map]

theorem leaving_eq_error_iff {α : Type} {read : Except Stop (α × List Char)} {stop : Stop} :
    leaving read = .error stop ↔ read = .error stop := by
  cases read <;> simp [leaving, Except.map]

theorem leaving_map {α β : Type} (read : Except Stop (α × List Char)) (f : α → β) :
    leaving (do let (a, left) ← read; return (f a, left)) = leaving read := by
  cases read <;> rfl

/-- What is read: a value, an entry of a container and all that is behind it up to the closing
mark, or the name of a member and all that is behind it. -/
inductive Part where
  | value
  | entry (container : Container)
  | name
deriving Repr, Inhabited, DecidableEq

/-- What stands first in a container, and behind each comma. -/
def Part.first : Container → Part
  | .list => .entry .list
  | .object => .name

theorem Part.first_ne_value (container : Container) : first container ≠ .value := by
  cases container <;> decide

/-- Reading a part of a text within a number of levels leaves the rest of the text, or it
stops. -/
inductive Goes : Nat → Part → List Char → Except Stop (List Char) → Prop where
  | text {levels : Nat} {body : List Char} {result : Except Stop (List Char)}
      (read : leaving (string ('\x22' :: body) body) = result) :
      Goes levels .value ('\x22' :: body) result
  | tooDeep {container : Container} {rest : List Char} :
      Goes 0 .value (container.opening :: rest) (.error (.beyond (.nesting container)))
  | empty {levels : Nat} {container : Container} {rest left : List Char}
      (closed : skipGaps rest = container.closing :: left) :
      Goes (levels + 1) .value (container.opening :: rest) (.ok left)
  | filled {levels : Nat} {container : Container} {rest : List Char}
      {result : Except Stop (List Char)}
      (opened : (skipGaps rest).head? ≠ some container.closing)
      (entries : Goes levels (.first container) (skipGaps rest) result) :
      Goes (levels + 1) .value (container.opening :: rest) result
  | scalar {levels : Nat} {cs : List Char} {result : Except Stop (List Char)}
      (plain : ∀ c ∈ cs.head?, c ∉ ['\x22', '[', '\x7b'])
      (read : leaving (Reading.scalar cs) = result) :
      Goes levels .value cs result
  | badEntry {levels : Nat} {container : Container} {cs : List Char} {stop : Stop}
      (item : Goes levels .value cs (.error stop)) :
      Goes levels (.entry container) cs (.error stop)
  | lastEntry {levels : Nat} {container : Container} {cs left rest : List Char}
      (item : Goes levels .value cs (.ok left))
      (closed : skipGaps left = container.closing :: rest) :
      Goes levels (.entry container) cs (.ok rest)
  | nextEntry {levels : Nat} {container : Container} {cs left rest : List Char}
      {result : Except Stop (List Char)} (item : Goes levels .value cs (.ok left))
      (comma : skipGaps left = ',' :: rest)
      (others : Goes levels (.first container) (skipGaps rest) result) :
      Goes levels (.entry container) cs result
  | noComma {levels : Nat} {container : Container} {cs left : List Char}
      (item : Goes levels .value cs (.ok left))
      (other : ∀ c ∈ (skipGaps left).head?, c ≠ container.closing ∧ c ≠ ',') :
      Goes levels (.entry container) cs (.error (.malformed .expectedComma (skipGaps left)))
  | noName {levels : Nat} {cs : List Char} (other : cs.head? ≠ some '\x22') :
      Goes levels .name cs (.error (.malformed .expectedName cs))
  | badName {levels : Nat} {body : List Char} {stop : Stop}
      (read : string ('\x22' :: body) body = .error stop) :
      Goes levels .name ('\x22' :: body) (.error stop)
  | noColon {levels : Nat} {body left : List Char} {name : Text}
      (read : string ('\x22' :: body) body = .ok (name, left))
      (other : (skipGaps left).head? ≠ some ':') :
      Goes levels .name ('\x22' :: body) (.error (.malformed .expectedColon (skipGaps left)))
  | named {levels : Nat} {body left rest : List Char} {name : Text}
      {result : Except Stop (List Char)}
      (read : string ('\x22' :: body) body = .ok (name, left))
      (colon : skipGaps left = ':' :: rest)
      (member : Goes levels (.entry .object) (skipGaps rest) result) :
      Goes levels .name ('\x22' :: body) result

/-! ### Gaps -/

theorem isGap_head?_skipGaps (cs : List Char) : ∀ c ∈ (skipGaps cs).head?, isGap c = false := by
  intro c isHead
  have notGap := List.head?_dropWhile_not isGap cs
  rw [skipGaps] at isHead
  rw [Option.mem_def] at isHead
  rw [isHead] at notGap
  simpa using notGap

theorem skipGaps_of_head? {cs : List Char} (starts : ∀ c ∈ cs.head?, isGap c = false) :
    skipGaps cs = cs := by
  cases cs with
  | nil => rfl
  | cons c rest => exact skipGaps_cons (starts c rfl) rest

theorem length_skipGaps_le (cs : List Char) : (skipGaps cs).length ≤ cs.length :=
  (List.dropWhile_sublist isGap).length_le

/-- What starts with no gap stays as it is behind a text without its gaps. -/
theorem skipGaps_append (front : List Char) {back : List Char}
    (starts : ∀ c ∈ back.head?, isGap c = false) :
    skipGaps (front ++ back) = skipGaps front ++ back := by
  induction front with
  | nil => exact skipGaps_of_head? starts
  | cons c rest inductionHypothesis =>
      by_cases gap : isGap c = true
      · simpa [skipGaps, gap] using inductionHypothesis
      · simp [skipGaps, gap]

/-- What is found behind gaps is found there with something else behind it, unless that starts
with a gap and nothing was found. -/
theorem exists_of_skipGaps_eq_append {cs front back : List Char}
    (isPart : skipGaps cs = front ++ back) :
    ∃ more, cs = more ++ back ∧
      ∀ other, (front ≠ [] ∨ ∀ c ∈ other.head?, isGap c = false) →
        skipGaps (more ++ other) = front ++ other := by
  refine ⟨cs.takeWhile isGap ++ front, ?_, ?_⟩
  · rw [List.append_assoc, ← isPart, skipGaps, List.takeWhile_append_dropWhile]
  · intro other found
    rw [List.append_assoc, skipGaps, List.dropWhile_append_of_pos fun c => List.mem_takeWhile_imp]
    apply skipGaps_of_head?
    cases front with
    | nil => exact found.resolve_left fun hasChars => hasChars rfl
    | cons c others =>
        have starts := isGap_head?_skipGaps cs
        rw [isPart] at starts
        exact starts

theorem exists_of_skipGaps_eq_cons {cs rest : List Char} {c : Char}
    (isNext : skipGaps cs = c :: rest) :
    ∃ more, cs = more ++ rest ∧ ∀ other, skipGaps (more ++ other) = c :: other := by
  rw [← List.singleton_append] at isNext
  obtain ⟨more, parts, skipped⟩ := exists_of_skipGaps_eq_append isNext
  exact ⟨more, parts, fun other => skipped other (.inl (List.cons_ne_nil c []))⟩

/-- A comma or a closing mark ends a number, and so does a gap in front of it. -/
theorem endsNumber_of_skipGaps {cs rest : List Char} {c : Char} (isNext : skipGaps cs = c :: rest)
    (closes : c ∈ [',', ']', '\x7d']) : EndsNumber cs := by
  intro first isHead
  obtain ⟨others, rfl⟩ := List.head?_eq_some_iff.mp isHead
  by_cases gap : isGap first = true
  · simp only [isGap, Bool.or_eq_true, beq_iff_eq] at gap
    rcases gap with ((rfl | rfl) | rfl) | rfl <;> decide
  · rw [skipGaps_cons (Bool.eq_false_iff.mpr gap)] at isNext
    cases isNext
    simp only [List.mem_cons, List.not_mem_nil, or_false] at closes
    rcases closes with rfl | rfl | rfl <;> decide

/-! ### The same course with something else behind it -/

/-!
Three parts lead on to another one behind some gaps.  Where that one ends, the text may be
changed as long as no gap comes to stand first, and the three parts lead on to it all the same.
-/

theorem Goes.filled_again {levels : Nat} {container : Container} {rest found tail : List Char}
    (parts : skipGaps rest = found ++ tail) :
    ∃ front, rest = front ++ tail ∧
      ∀ other result, (found ≠ [] ∨ ∀ c ∈ other.head?, isGap c = false) →
        (found ++ other).head? ≠ some container.closing →
        Goes levels (.first container) (found ++ other) result →
        Goes (levels + 1) .value (container.opening :: (front ++ other)) result := by
  obtain ⟨front, rfl, skipped⟩ := exists_of_skipGaps_eq_append parts
  refine ⟨front, rfl, ?_⟩
  intro other result goesOn opened entries
  rw [← skipped other goesOn] at opened entries
  exact .filled opened entries

theorem Goes.nextEntry_again {levels : Nat} {container : Container}
    {consumed left rest found tail : List Char}
    (item : ∀ other, EndsNumber other → Goes levels .value (consumed ++ other) (.ok other))
    (comma : skipGaps left = ',' :: rest) (parts : skipGaps rest = found ++ tail) :
    ∃ front, left = front ++ tail ∧
      ∀ other result, (found ≠ [] ∨ ∀ c ∈ other.head?, isGap c = false) →
        Goes levels (.first container) (found ++ other) result →
        Goes levels (.entry container) (consumed ++ (front ++ other)) result := by
  obtain ⟨behind, rfl, skippedBehind⟩ := exists_of_skipGaps_eq_append parts
  obtain ⟨more, rfl, skipped⟩ := exists_of_skipGaps_eq_cons comma
  refine ⟨more ++ behind, (List.append_assoc more behind tail).symm, ?_⟩
  intro other result goesOn others
  rw [← skippedBehind other goesOn] at others
  rw [List.append_assoc]
  have divides := skipped (behind ++ other)
  exact .nextEntry (item _ (endsNumber_of_skipGaps divides (.head _))) divides others

theorem Goes.named_again {levels : Nat} {body left rest found tail : List Char}
    {name : Text} (read : string ('\x22' :: body) body = .ok (name, left))
    (colon : skipGaps left = ':' :: rest) (parts : skipGaps rest = found ++ tail) :
    ∃ front, body = front ++ tail ∧
      ∀ other result, (found ≠ [] ∨ ∀ c ∈ other.head?, isGap c = false) →
        Goes levels (.entry .object) (found ++ other) result →
        Goes levels .name ('\x22' :: (front ++ other)) result := by
  obtain ⟨quoted, units, rfl, isQuoted, -⟩ := string_eq_ok_iff.mp read
  obtain ⟨behind, rfl, skippedBehind⟩ := exists_of_skipGaps_eq_append parts
  obtain ⟨more, rfl, skipped⟩ := exists_of_skipGaps_eq_cons colon
  refine ⟨quoted ++ (more ++ behind), by simp, ?_⟩
  intro other result goesOn member
  rw [← skippedBehind other goesOn] at member
  rw [List.append_assoc, List.append_assoc]
  exact .named (string_eq_ok_iff.mpr ⟨quoted, units, rfl, isQuoted, rfl⟩)
    (skipped (behind ++ other)) member

/-- What a part that is read leaves is the end of the text, and the part is read alike whatever
stands there.  Only a value must not be prolonged by it. -/
theorem Goes.replay {levels : Nat} {part : Part} {cs left : List Char}
    (goes : Goes levels part cs (.ok left)) :
    ∃ consumed, cs = consumed ++ left ∧ consumed ≠ [] ∧
      ∀ other, (part = .value → EndsNumber other) →
        Goes levels part (consumed ++ other) (.ok other) := by
  -- Inside a container a gap, a comma or a closing mark stands behind each value, whatever
  -- `other` is: only a part that is a value itself depends on how `other` starts.
  generalize isOk : Except.ok left = result at goes
  induction goes generalizing left with
  | @text levels body result read =>
      subst isOk
      obtain ⟨content, isRead⟩ := leaving_eq_ok_iff.mp read
      obtain ⟨quoted, units, rfl, isQuoted, -⟩ := string_eq_ok_iff.mp isRead
      refine ⟨'\x22' :: quoted, rfl, by simp, fun other _ => .text ?_⟩
      exact leaving_eq_ok_iff.mpr
        ⟨_, string_eq_ok_iff.mpr ⟨quoted, units, rfl, isQuoted, rfl⟩⟩
  | tooDeep => cases isOk
  | @empty levels container rest left closed =>
      cases isOk
      obtain ⟨more, rfl, skipped⟩ := exists_of_skipGaps_eq_cons closed
      exact ⟨container.opening :: more, rfl, by simp, fun other _ => .empty (skipped other)⟩
  | @filled levels container rest result opened entries inductionHypothesis =>
      obtain ⟨found, parts, hasChars, onward⟩ := inductionHypothesis isOk
      rw [parts, List.head?_append_of_ne_nil _ hasChars] at opened
      obtain ⟨front, rfl, again⟩ := filled_again parts
      refine ⟨container.opening :: front, rfl, List.cons_ne_nil _ _, fun other _ => ?_⟩
      apply again other _ (.inl hasChars)
      · rwa [List.head?_append_of_ne_nil _ hasChars]
      · exact onward other fun isValue => absurd isValue (Part.first_ne_value container)
  | @scalar levels cs result plain read =>
      subst isOk
      obtain ⟨item, isRead⟩ := leaving_eq_ok_iff.mp read
      obtain ⟨consumed, rfl, hasChars, -, again⟩ := scalar_replay isRead
      rw [List.head?_append_of_ne_nil _ hasChars] at plain
      refine ⟨consumed, rfl, hasChars, fun other ends => .scalar ?_ ?_⟩
      · rwa [List.head?_append_of_ne_nil _ hasChars]
      · exact leaving_eq_ok_iff.mpr ⟨item, again other (ends rfl)⟩
  | badEntry => cases isOk
  | @lastEntry levels container cs between rest item closed inductionHypothesis =>
      cases isOk
      obtain ⟨consumed, rfl, hasChars, again⟩ := inductionHypothesis rfl
      obtain ⟨more, rfl, skipped⟩ := exists_of_skipGaps_eq_cons closed
      refine ⟨consumed ++ more, by simp, by simp [hasChars], fun other _ => ?_⟩
      have ends := endsNumber_of_skipGaps (skipped other) container.closing_mem
      rw [List.append_assoc]
      exact .lastEntry (again _ fun _ => ends) (skipped other)
  | @nextEntry levels container cs between rest result item comma others fromItem fromOthers =>
      obtain ⟨consumed, rfl, hasChars, onward⟩ := fromItem rfl
      obtain ⟨found, parts, someFound, further⟩ := fromOthers isOk
      obtain ⟨front, rfl, again⟩ :=
        nextEntry_again (fun other ends => onward other fun _ => ends) comma parts
      refine ⟨consumed ++ front, by simp, by simp [hasChars], fun other _ => ?_⟩
      rw [List.append_assoc]
      apply again other _ (.inl someFound)
      exact further other fun isValue => absurd isValue (Part.first_ne_value container)
  | noComma => cases isOk
  | noName => cases isOk
  | badName => cases isOk
  | noColon => cases isOk
  | @named levels body between rest name result read colon member inductionHypothesis =>
      obtain ⟨found, parts, hasChars, onward⟩ := inductionHypothesis isOk
      obtain ⟨front, rfl, again⟩ := named_again read colon parts
      refine ⟨'\x22' :: front, rfl, List.cons_ne_nil _ _, fun other _ => ?_⟩
      exact again other _ (.inl hasChars) (onward other nofun)

/-! ### Step by step -/

theorem ok_bind {α β : Type} (a : α) (next : α → Except Stop β) :
    (Except.ok a >>= next) = next a := rfl

/-- What reading the entries of a container leaves, in a number of steps. -/
def entries (steps levels : Nat) : Container → List Char → Except Stop (List Char)
  | .list, cs => leaving (items steps levels cs)
  | .object, cs => leaving (pairs steps levels cs)

/-- What is done behind an entry. -/
def behindEntry (steps levels : Nat) (container : Container) (left : List Char) :
    Except Stop (List Char) :=
  match skipGaps left with
  | [] => stopAt .expectedComma []
  | c :: rest =>
      if c = container.closing then .ok rest
      else if c = ',' then entries steps levels container (skipGaps rest)
      else stopAt .expectedComma (c :: rest)

/-- What reading a part leaves, in a number of steps. -/
def leaves (steps levels : Nat) : Part → List Char → Except Stop (List Char)
  | .value, cs => leaving (value steps levels cs)
  | .entry container, cs =>
      leaving (value steps levels cs) >>= behindEntry steps levels container
  | .name, cs => leaving (pairs (steps + 1) levels cs)

theorem behindEntry_last {container : Container} {left rest : List Char}
    (closed : skipGaps left = container.closing :: rest) (steps levels : Nat) :
    behindEntry steps levels container left = .ok rest := by
  rw [behindEntry, closed]
  exact if_pos rfl

theorem behindEntry_next {left rest : List Char} (comma : skipGaps left = ',' :: rest)
    (steps levels : Nat) (container : Container) :
    behindEntry steps levels container left = entries steps levels container (skipGaps rest) := by
  rw [behindEntry, comma]
  cases container <;> rfl

theorem behindEntry_noComma {container : Container} {left : List Char}
    (other : ∀ c ∈ (skipGaps left).head?, c ≠ container.closing ∧ c ≠ ',') (steps levels : Nat) :
    behindEntry steps levels container left = stopAt .expectedComma (skipGaps left) := by
  rw [behindEntry]
  cases isNext : skipGaps left with
  | nil => rfl
  | cons c rest =>
      rw [isNext] at other
      obtain ⟨notClosing, notComma⟩ := other c rfl
      dsimp only
      rw [if_neg notClosing, if_neg notComma]

/-- Behind an entry the container is closed, or another entry follows, or something is amiss. -/
theorem next_cases (container : Container) (left : List Char) :
    (∃ rest, skipGaps left = container.closing :: rest) ∨
      (∃ rest, skipGaps left = ',' :: rest) ∨
      ∀ c ∈ (skipGaps left).head?, c ≠ container.closing ∧ c ≠ ',' := by
  by_cases closed : (skipGaps left).head? = some container.closing
  · exact .inl (List.head?_eq_some_iff.mp closed)
  by_cases comma : (skipGaps left).head? = some ','
  · exact .inr (.inl (List.head?_eq_some_iff.mp comma))
  · refine .inr (.inr ?_)
    intro c isHead
    constructor
    · rintro rfl
      exact closed isHead
    · rintro rfl
      exact comma isHead

theorem leaving_items (steps levels : Nat) (cs : List Char) :
    leaving (items (steps + 1) levels cs) = leaves steps levels (.entry .list) cs := by
  rw [items, leaves]
  cases value steps levels cs with
  | error stop => rfl
  | ok read =>
      obtain ⟨item, left⟩ := read
      rw [ok_bind]
      dsimp only
      change _ = behindEntry steps levels .list left
      rcases next_cases .list left with ⟨rest, closed⟩ | ⟨rest, comma⟩ | other
      · rw [behindEntry_last closed, closed]
        rfl
      · rw [behindEntry_next comma, comma]
        exact leaving_map _ _
      · rw [behindEntry_noComma other]
        split
        next closed =>
          rw [closed] at other
          exact absurd rfl (other _ rfl).1
        next comma =>
          rw [comma] at other
          exact absurd rfl (other _ rfl).2
        next => rfl

theorem leaving_pairs {steps levels : Nat} {body left rest : List Char} {name : Text}
    (read : string ('\x22' :: body) body = .ok (name, left)) (colon : skipGaps left = ':' :: rest) :
    leaving (pairs (steps + 1) levels ('\x22' :: body)) =
      leaves steps levels (.entry .object) (skipGaps rest) := by
  rw [pairs, read, leaves, ok_bind]
  simp only [colon]
  cases value steps levels (skipGaps rest) with
  | error stop => rfl
  | ok read =>
      obtain ⟨item, left⟩ := read
      rw [ok_bind]
      dsimp only
      change _ = behindEntry steps levels .object left
      rcases next_cases .object left with ⟨rest, closed⟩ | ⟨rest, comma⟩ | other
      · rw [behindEntry_last closed, closed]
        rfl
      · rw [behindEntry_next comma, comma]
        exact leaving_map _ _
      · rw [behindEntry_noComma other]
        split
        next closed =>
          rw [closed] at other
          exact absurd rfl (other _ rfl).1
        next comma =>
          rw [comma] at other
          exact absurd rfl (other _ rfl).2
        next => rfl

theorem pairs_noName {cs : List Char} (other : cs.head? ≠ some '\x22') (steps levels : Nat) :
    pairs (steps + 1) levels cs = stopAt .expectedName cs := by
  rw [pairs]
  rintro rest rfl
  exact other rfl

theorem pairs_badName {body : List Char} {stop : Stop}
    (read : string ('\x22' :: body) body = .error stop) (steps levels : Nat) :
    pairs (steps + 1) levels ('\x22' :: body) = .error stop := by
  rw [pairs, read]
  rfl

theorem pairs_noColon {body left : List Char} {name : Text}
    (read : string ('\x22' :: body) body = .ok (name, left))
    (other : (skipGaps left).head? ≠ some ':') (steps levels : Nat) :
    pairs (steps + 1) levels ('\x22' :: body) = stopAt .expectedColon (skipGaps left) := by
  rw [pairs, read, ok_bind]
  dsimp only
  split
  next colon =>
    rw [colon] at other
    exact absurd rfl other
  next => rfl

theorem leaves_entry_of_ok {steps levels : Nat} {cs left : List Char} {container : Container}
    (item : leaves steps levels .value cs = .ok left) :
    leaves steps levels (.entry container) cs = behindEntry steps levels container left :=
  congrArg (· >>= behindEntry steps levels container) item

theorem leaves_entry_of_error {steps levels : Nat} {cs : List Char} {container : Container}
    {stop : Stop} (item : leaves steps levels .value cs = .error stop) :
    leaves steps levels (.entry container) cs = .error stop :=
  congrArg (· >>= behindEntry steps levels container) item

theorem entries_succ (steps levels : Nat) (container : Container) (cs : List Char) :
    entries (steps + 1) levels container cs = leaves steps levels (.first container) cs := by
  cases container with
  | list => exact leaving_items steps levels cs
  | object => rfl

theorem leaving_value_text (steps levels : Nat) (body : List Char) :
    leaving (value (steps + 1) levels ('\x22' :: body)) =
      leaving (string ('\x22' :: body) body) := by
  rw [value]
  exact leaving_map _ _

theorem value_tooDeep (steps : Nat) (container : Container) (rest : List Char) :
    value (steps + 1) 0 (container.opening :: rest) = .error (.beyond (.nesting container)) := by
  cases container <;> rfl

theorem leaving_value_empty {container : Container} {rest left : List Char}
    (closed : skipGaps rest = container.closing :: left) (steps levels : Nat) :
    leaving (value (steps + 1) (levels + 1) (container.opening :: rest)) = .ok left := by
  cases container with
  | list =>
      simp only [Container.opening, value, closed, Container.closing]
      rfl
  | object =>
      simp only [Container.opening, value, closed, Container.closing]
      rfl

theorem leaving_value_filled {container : Container} {rest : List Char}
    (opened : (skipGaps rest).head? ≠ some container.closing) (steps levels : Nat) :
    leaving (value (steps + 1) (levels + 1) (container.opening :: rest)) =
      entries steps levels container (skipGaps rest) := by
  cases container with
  | list =>
      rw [Container.opening, value]
      split
      next closed =>
        rw [closed] at opened
        exact absurd rfl opened
      next => exact leaving_map _ _
  | object =>
      rw [Container.opening, value]
      split
      next closed =>
        rw [closed] at opened
        exact absurd rfl opened
      next => exact leaving_map _ fun pairs => Json.object (Named.ofPairs pairs)

theorem value_of_plain {cs : List Char} (plain : ∀ c ∈ cs.head?, c ∉ ['\x22', '[', '\x7b'])
    (steps levels : Nat) : value (steps + 1) levels cs = scalar cs := by
  cases cs with
  | nil => simp [value]
  | cons c rest =>
      have notThere := plain c rfl
      simp only [List.mem_cons, List.not_mem_nil, or_false, not_or] at notThere
      simp [value, notThere]

theorem length_lt_of_skipGaps {cs rest : List Char} {c : Char} (isNext : skipGaps cs = c :: rest) :
    (skipGaps rest).length < cs.length := by
  have fewer := length_skipGaps_le cs
  rw [isNext, List.length_cons] at fewer
  exact (length_skipGaps_le rest).trans_lt fewer

theorem Goes.length_le {levels : Nat} {part : Part} {cs left : List Char}
    (goes : Goes levels part cs (.ok left)) : left.length ≤ cs.length := by
  obtain ⟨consumed, rfl, -⟩ := goes.replay
  simp

theorem Goes.leaves_eq {levels : Nat} {part : Part} {cs : List Char}
    {result : Except Stop (List Char)} (goes : Goes levels part cs result) {steps : Nat}
    (enough : 2 * cs.length + 1 ≤ steps) : leaves steps levels part cs = result := by
  induction goes generalizing steps with
  | text read =>
      obtain ⟨fewer, rfl⟩ : ∃ fewer, steps = fewer + 1 := ⟨steps - 1, by omega⟩
      rw [leaves, leaving_value_text]
      exact read
  | tooDeep =>
      obtain ⟨fewer, rfl⟩ : ∃ fewer, steps = fewer + 1 := ⟨steps - 1, by omega⟩
      rw [leaves, value_tooDeep]
      rfl
  | empty closed =>
      obtain ⟨fewer, rfl⟩ : ∃ fewer, steps = fewer + 1 := ⟨steps - 1, by omega⟩
      exact leaving_value_empty closed _ _
  | @filled levels container rest result opened others inductionHypothesis =>
      rw [List.length_cons] at enough
      obtain ⟨fewer, rfl⟩ : ∃ fewer, steps = fewer + 2 := ⟨steps - 2, by omega⟩
      have shorter := length_skipGaps_le rest
      rw [leaves, leaving_value_filled opened, entries_succ]
      exact inductionHypothesis (by omega)
  | scalar plain read =>
      obtain ⟨fewer, rfl⟩ : ∃ fewer, steps = fewer + 1 := ⟨steps - 1, by omega⟩
      rw [leaves, value_of_plain plain]
      exact read
  | badEntry item inductionHypothesis => exact leaves_entry_of_error (inductionHypothesis enough)
  | lastEntry item closed inductionHypothesis =>
      rw [leaves_entry_of_ok (inductionHypothesis enough)]
      exact behindEntry_last closed _ _
  | @nextEntry levels container cs left rest result item comma others fromItem fromOthers =>
      have shorter := (length_lt_of_skipGaps comma).trans_le item.length_le
      obtain ⟨fewer, rfl⟩ : ∃ fewer, steps = fewer + 1 := ⟨steps - 1, by omega⟩
      rw [leaves_entry_of_ok (fromItem enough), behindEntry_next comma, entries_succ]
      exact fromOthers (by omega)
  | noComma item other inductionHypothesis =>
      rw [leaves_entry_of_ok (inductionHypothesis enough)]
      exact behindEntry_noComma other _ _
  | noName other => exact congrArg leaving (pairs_noName other _ _)
  | badName read => exact congrArg leaving (pairs_badName read _ _)
  | noColon read other => exact congrArg leaving (pairs_noColon read other _ _)
  | @named levels body left rest name result read colon member inductionHypothesis =>
      obtain ⟨quoted, units, rfl, -⟩ := string_eq_ok_iff.mp read
      have shorter := length_lt_of_skipGaps colon
      rw [List.length_cons, List.length_append] at enough
      rw [leaves, leaving_pairs read colon]
      exact inductionHypothesis (by omega)

/-- Whatever is read in fewer steps goes as it should. -/
def GoesBelow (steps : Nat) : Prop :=
  ∀ fewer < steps, ∀ (levels : Nat) (part : Part) (cs : List Char), 2 * cs.length + 1 ≤ fewer →
    Goes levels part cs (leaves fewer levels part cs)

theorem GoesBelow.entries {steps levels : Nat} (below : GoesBelow steps) {cs : List Char}
    (container : Container) (enough : 2 * cs.length + 2 ≤ steps) :
    Goes levels (.first container) cs (entries steps levels container cs) := by
  obtain ⟨fewer, rfl⟩ : ∃ fewer, steps = fewer + 1 := ⟨steps - 1, by omega⟩
  rw [entries_succ]
  exact below fewer (by omega) levels _ cs (by omega)

theorem GoesBelow.value {steps levels : Nat} (below : GoesBelow steps) {cs : List Char}
    (enough : 2 * cs.length + 1 ≤ steps) :
    Goes levels .value cs (leaves steps levels .value cs) := by
  obtain ⟨fewer, rfl⟩ : ∃ fewer, steps = fewer + 1 := ⟨steps - 1, by omega⟩
  have ofContainer (container : Container) (rest : List Char)
      (enough : 2 * (container.opening :: rest).length + 1 ≤ fewer + 1) :
      Goes levels .value (container.opening :: rest)
        (leaves (fewer + 1) levels .value (container.opening :: rest)) := by
    rw [leaves]
    cases levels with
    | zero =>
        rw [value_tooDeep]
        exact .tooDeep
    | succ levels =>
        by_cases closed : (skipGaps rest).head? = some container.closing
        · obtain ⟨left, closed⟩ := List.head?_eq_some_iff.mp closed
          rw [leaving_value_empty closed]
          exact .empty closed
        · have shorter := length_skipGaps_le rest
          rw [List.length_cons] at enough
          rw [leaving_value_filled closed]
          apply Goes.filled closed
          exact GoesBelow.entries (fun less isLess => below less (by omega)) container (by omega)
  by_cases plain : ∀ c ∈ cs.head?, c ∉ ['\x22', '[', '\x7b']
  · rw [leaves, value_of_plain plain]
    exact .scalar plain rfl
  · obtain ⟨c, rest, rfl, marked⟩ : ∃ c rest, cs = c :: rest ∧ c ∈ ['\x22', '[', '\x7b'] := by
      cases cs with
      | nil => exact absurd (by rintro c ⟨⟩) plain
      | cons c rest =>
          refine ⟨c, rest, rfl, ?_⟩
          by_contra other
          apply plain
          rintro _ ⟨⟩
          exact other
    simp only [List.mem_cons, List.not_mem_nil, or_false] at marked
    rcases marked with rfl | rfl | rfl
    · rw [leaves, leaving_value_text]
      exact .text rfl
    · exact ofContainer .list rest enough
    · exact ofContainer .object rest enough

theorem GoesBelow.entry {steps levels : Nat} (below : GoesBelow steps) {cs : List Char}
    (container : Container) (enough : 2 * cs.length + 1 ≤ steps) :
    Goes levels (.entry container) cs (leaves steps levels (.entry container) cs) := by
  have goes : Goes levels .value cs _ := below.value enough
  cases item : leaves steps levels .value cs with
  | error stop =>
      rw [item] at goes
      rw [leaves_entry_of_error item]
      exact .badEntry goes
  | ok left =>
      rw [item] at goes
      rw [leaves_entry_of_ok item]
      rcases next_cases container left with ⟨rest, closed⟩ | ⟨rest, comma⟩ | other
      · rw [behindEntry_last closed]
        exact .lastEntry goes closed
      · have shorter := (length_lt_of_skipGaps comma).trans_le goes.length_le
        rw [behindEntry_next comma]
        exact .nextEntry goes comma (below.entries container (by omega))
      · rw [behindEntry_noComma other]
        exact .noComma goes other

theorem GoesBelow.name {steps levels : Nat} (below : GoesBelow steps) {cs : List Char}
    (enough : 2 * cs.length + 1 ≤ steps) :
    Goes levels .name cs (leaves steps levels .name cs) := by
  rw [leaves]
  by_cases quoted : cs.head? = some '\x22'
  · obtain ⟨body, rfl⟩ := List.head?_eq_some_iff.mp quoted
    cases read : string ('\x22' :: body) body with
    | error stop =>
        rw [pairs_badName read]
        exact .badName read
    | ok pair =>
        obtain ⟨name, left⟩ := pair
        by_cases colon : (skipGaps left).head? = some ':'
        · obtain ⟨rest, colon⟩ := List.head?_eq_some_iff.mp colon
          obtain ⟨body, units, rfl, -⟩ := string_eq_ok_iff.mp read
          have shorter := length_lt_of_skipGaps colon
          rw [List.length_cons, List.length_append] at enough
          rw [leaving_pairs read colon]
          exact .named read colon (below.entry .object (by omega))
        · rw [pairs_noColon read colon]
          exact .noColon read colon
  · rw [pairs_noName quoted]
    exact .noName quoted

theorem goes_leaves {steps levels : Nat} (part : Part) {cs : List Char}
    (enough : 2 * cs.length + 1 ≤ steps) : Goes levels part cs (leaves steps levels part cs) := by
  induction steps using Nat.strong_induction_on generalizing levels part cs with
  | _ steps inductionHypothesis =>
      -- An entry is read in as many steps as its value, which is therefore settled first.
      have below : GoesBelow steps := fun fewer less levels part cs enough =>
        inductionHypothesis fewer less part enough
      cases part with
      | value => exact below.value enough
      | entry container => exact below.entry container enough
      | name => exact below.name enough

/-- The reading of a part goes exactly as its steps do, if there are enough of them. -/
theorem goes_iff {steps levels : Nat} {part : Part} {cs : List Char}
    {result : Except Stop (List Char)} (enough : 2 * cs.length + 1 ≤ steps) :
    Goes levels part cs result ↔ leaves steps levels part cs = result := by
  constructor
  · intro goes
    exact goes.leaves_eq enough
  · rintro rfl
    exact goes_leaves part enough

/-! ### Whole texts -/

/-- A text is refused for a reason that is no mark in front of it and nothing behind its value
exactly if its value is. -/
theorem document_eq_error_iff {levels : Nat} {cs : List Char} {stop : Stop}
    (noMark : ∀ rest, stop ≠ .malformed .byteOrderMark rest)
    (noMore : ∀ rest, stop ≠ .malformed .extraData rest) :
    document levels cs = .error stop ↔
      cs.head? ≠ some '\uFEFF' ∧ Goes levels .value (skipGaps cs) (.error stop) := by
  have enough : 2 * (skipGaps cs).length + 1 ≤ 2 * cs.length + 1 := by
    have shorter := length_skipGaps_le cs
    omega
  rw [goes_iff enough, leaves, leaving_eq_error_iff]
  unfold document
  split
  next rest =>
    refine ⟨?_, fun refused => absurd rfl refused.1⟩
    intro refused
    cases refused
    exact absurd rfl (noMark _)
  next others =>
    have unmarked : cs.head? ≠ some '\uFEFF' := by
      intro marked
      obtain ⟨rest, rfl⟩ := List.head?_eq_some_iff.mp marked
      exact others rest rfl
    cases value (2 * cs.length + 1) levels (skipGaps cs) with
    | error reason => simp [unmarked, bind, Except.bind]
    | ok pair =>
        obtain ⟨result, left⟩ := pair
        rw [ok_bind]
        refine ⟨?_, fun refused => nomatch refused.2⟩
        intro refused
        dsimp only at refused
        split at refused
        next => cases refused
        next =>
          cases refused
          exact absurd rfl (noMore _)

end Reading

end ShellGloss.Json
