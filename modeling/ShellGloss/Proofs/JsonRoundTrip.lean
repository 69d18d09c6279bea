/-
Module: ShellGloss.Proofs.JsonRoundTrip
Purpose: A value that was written is read as it is.  Only of its doubles no more is said than
  that they are read as doubles.
Imports: ShellGloss.Proofs.JsonNumbers, ShellGloss.Proofs.JsonStrings,
  ShellGloss.Text.Lines
Main exports:
  Json.Style.wide, Json.Style.Legible, Json.FitsWithin, Json.reread,
  Json.read_write_legible, Json.read_write, Json.unifyLineEnds_write
-/
import ShellGloss.Proofs.JsonNumbers
import ShellGloss.Proofs.JsonStrings
import ShellGloss.Text.Lines

namespace ShellGloss.Json

/-! ### Values that can be read -/

/-- A blank behind each comma and colon. -/
def Style.wide (asciiOnly : Bool) : Style := ⟨", ", ": ", asciiOnly⟩

theorem Style.itemGap_wide (asciiOnly : Bool) :
    (Style.wide asciiOnly).itemGap.toList = [',', ' '] := by
  simp [Style.wide]

theorem Style.nameGap_wide (asciiOnly : Bool) :
    (Style.wide asciiOnly).nameGap.toList = [':', ' '] := by
  simp [Style.wide]

/-- A style in which a comma divides items and a colon ends a name, each with nothing but gaps
behind it. -/
structure Style.Legible (style : Style) : Prop where
  item : ∃ gaps, style.itemGap.toList = ',' :: gaps ∧ ∀ c ∈ gaps, Reading.isGap c = true
  name : ∃ gaps, style.nameGap.toList = ':' :: gaps ∧ ∀ c ∈ gaps, Reading.isGap c = true

theorem Style.legible_wide (asciiOnly : Bool) : (Style.wide asciiOnly).Legible := by
  have blank : ∀ c ∈ [' '], Reading.isGap c = true := List.forall_mem_singleton.mpr rfl
  exact ⟨⟨[' '], itemGap_wide asciiOnly, blank⟩, ⟨[' '], nameGap_wide asciiOnly, blank⟩⟩

/-- A value as reading within a number of levels can give it: its whole numbers are not too
long, its texts and names are settled, and the names in each object are distinct. -/
def FitsWithin : Nat → Json → Prop
  | _, .null => True
  | _, .bool _ => True
  | _, .real _ => True
  | _, .text s => s.Settled
  | _, .int n => (Nat.toDigits 10 n.natAbs).length ≤ Reading.digitLimit
  | levels + 1, .array items => ∀ item ∈ items, item.FitsWithin levels
  | levels + 1, .object members =>
      (members.map (·.1)).Nodup ∧
        ∀ member ∈ members, member.1.Settled ∧ member.2.FitsWithin levels
  | 0, .array _ => False
  | 0, .object _ => False

theorem sizeOf_member_lt {α : Type} [SizeOf α] {members : Named α} {member : α × Json}
    (isMember : member ∈ members) : sizeOf member.2 < sizeOf members := by
  have smaller := List.sizeOf_lt_of_mem isMember
  have parts : sizeOf member = 1 + sizeOf member.1 + sizeOf member.2 := rfl
  omega

/-- A value with each double replaced by the one that its text is read as. -/
def reread : Json → Json
  | .null => .null
  | .bool flag => .bool flag
  | .int n => .int n
  | .real d => .real (Reading.rereadDouble d)
  | .text s => .text s
  | .array items => .array (items.map reread)
  | .object members => .object (members.map fun member => (member.1, reread member.2))
decreasing_by
  all_goals simp only [Json.array.sizeOf_spec, Json.object.sizeOf_spec]
  · have smaller := List.sizeOf_lt_of_mem ‹_ ∈ items›
    omega
  · have smaller := sizeOf_member_lt ‹_ ∈ members›
    omega

theorem map_fst_reread {α : Type} (members : Named α) :
    (members.map fun member => (member.1, member.2.reread)).map (·.1) = members.map (·.1) := by
  rw [List.map_map]
  rfl

/-! ### Objects from pairs -/

theorem Named.put_of_not_mem {α : Type} [DecidableEq α] {members : Named α} {name : α}
    (new : name ∉ members.map (·.1)) (item : Json) :
    members.put name item = members ++ [(name, item)] := by
  induction members with
  | nil => rfl
  | cons member others inductionHypothesis =>
      rw [List.map_cons, List.mem_cons, not_or] at new
      rw [put, if_neg (Ne.symm new.1), inductionHypothesis new.2]
      rfl

/-- Pairs whose names are new and distinct are put one behind the other. -/
theorem Named.foldl_put_eq_append {α : Type} [DecidableEq α] {members pairs : Named α}
    (distinct : ((members ++ pairs).map (·.1)).Nodup) :
    pairs.foldl (fun members pair => put members pair.1 pair.2) members = members ++ pairs := by
  induction pairs generalizing members with
  | nil => simp
  | cons pair others inductionHypothesis =>
      have new : pair.1 ∉ members.map (·.1) := by
        intro known
        rw [List.map_append, List.nodup_append] at distinct
        exact distinct.2.2 pair.1 known pair.1 (.head _) rfl
      rw [List.foldl_cons, put_of_not_mem new, inductionHypothesis (by simpa using distinct),
        List.append_assoc, List.singleton_append]

theorem Named.ofPairs_eq_self {α : Type} [DecidableEq α] {pairs : List (α × Json)}
    (distinct : (pairs.map (·.1)).Nodup) : ofPairs pairs = pairs :=
  foldl_put_eq_append distinct

/-! ### How values start -/

/-- The characters that a value which is neither text nor container starts with. -/
def StartsScalar (c : Char) : Prop := c.isDigit = true ∨ c ∈ ['-', 'n', 't', 'f', 'N', 'I']

/-- The characters that a value starts with. -/
def StartsValue (c : Char) : Prop := StartsScalar c ∨ c ∈ ['\x22', '[', '\x7b']

theorem StartsScalar.ne {c other : Char} (starts : StartsScalar c)
    (notDigit : other.isDigit = false) (notThere : other ∉ ['-', 'n', 't', 'f', 'N', 'I']) :
    c ≠ other := by
  rintro rfl
  rcases starts with isDigit | isThere
  · exact Bool.false_ne_true (notDigit.symm.trans isDigit)
  · exact notThere isThere

theorem StartsValue.ne {c other : Char} (starts : StartsValue c)
    (notDigit : other.isDigit = false)
    (notThere : other ∉ ['-', 'n', 't', 'f', 'N', 'I', '\x22', '[', '\x7b']) :
    c ≠ other := by
  rcases starts with starts | isThere
  · exact starts.ne notDigit fun isThere => notThere (List.mem_append_left _ isThere)
  · rintro rfl
    exact notThere (List.mem_append_right ['-', 'n', 't', 'f', 'N', 'I'] isThere)

namespace Reading

theorem exists_signText_eq_cons (negative : Bool) {digits : List Char} (hasDigits : digits ≠ [])
    (isDigits : ∀ c ∈ digits, c.isDigit = true) (rest : List Char) :
    ∃ c others, signText negative ++ (digits ++ rest) = c :: others ∧ StartsScalar c := by
  cases negative with
  | true => exact ⟨'-', digits ++ rest, rfl, .inr (by decide)⟩
  | false =>
      obtain ⟨first, others, rfl⟩ := List.exists_cons_of_ne_nil hasDigits
      exact ⟨first, others ++ rest, rfl, .inl (isDigits first (.head _))⟩

theorem exists_int_eq_cons (n : Int) :
    ∃ c others, (toString n).toList = c :: others ∧ StartsScalar c := by
  have starts := exists_signText_eq_cons (decide (n < 0)) Nat.toDigits_ne_nil
    (Numeral.isWhole_toDigits n.natAbs).isDigit []
  rwa [List.append_nil, ← toList_toString_int] at starts

theorem exists_double_eq_cons (d : Decimal.Double) :
    ∃ c others, (doubleLayout.text d).toList = c :: others ∧ StartsScalar c := by
  cases d with
  | notANumber => exact ⟨'N', _, rfl, .inr (by decide)⟩
  | infinite negative =>
      cases negative with
      | true => exact ⟨'-', _, rfl, .inr (by decide)⟩
      | false => exact ⟨'I', _, rfl, .inr (by decide)⟩
  | finite negative mantissa exponent =>
      obtain ⟨numeral, wellFormed, -, spelled⟩ :=
        exists_text_eq_finite negative mantissa exponent
      rw [spelled]
      exact exists_signText_eq_cons negative wellFormed.whole.ne_nil wellFormed.whole.isDigit _

end Reading

theorem exists_valueText_eq_cons (style : Style) (value : Json) :
    ∃ c others, Writing.valueText style value = c :: others ∧ StartsValue c := by
  have scalar {text : List Char} (starts : ∃ c others, text = c :: others ∧ StartsScalar c) :
      ∃ c others, text = c :: others ∧ StartsValue c := by
    obtain ⟨c, others, spelled, starts⟩ := starts
    exact ⟨c, others, spelled, .inl starts⟩
  cases value with
  | null => exact scalar ⟨'n', _, by rw [Writing.valueText]; rfl, .inr (by decide)⟩
  | bool flag =>
      cases flag with
      | true => exact scalar ⟨'t', _, by rw [Writing.valueText]; rfl, .inr (by decide)⟩
      | false => exact scalar ⟨'f', _, by rw [Writing.valueText]; rfl, .inr (by decide)⟩
  | int n =>
      rw [Writing.valueText]
      exact scalar (Reading.exists_int_eq_cons n)
  | real d =>
      rw [Writing.valueText]
      exact scalar (Reading.exists_double_eq_cons d)
  | text s => exact ⟨'\x22', _, by rw [Writing.valueText, Writing.stringText], .inr (by decide)⟩
  | array items => exact ⟨'[', _, by rw [Writing.valueText], .inr (by decide)⟩
  | object members => exact ⟨'\x7b', _, by rw [Writing.valueText], .inr (by decide)⟩

/-! ### Reading parts -/

namespace Reading

theorem skipGaps_cons {c : Char} (notGap : isGap c = false) (rest : List Char) :
    skipGaps (c :: rest) = c :: rest := by
  rw [skipGaps, List.dropWhile_cons_of_neg (by simp [notGap])]

theorem isGap_of_startsValue {c : Char} (starts : StartsValue c) : isGap c = false := by
  simp only [isGap, Bool.or_eq_false_iff, beq_eq_false_iff_ne]
  exact ⟨⟨⟨starts.ne rfl (by decide), starts.ne rfl (by decide)⟩, starts.ne rfl (by decide)⟩,
    starts.ne rfl (by decide)⟩

theorem skipGaps_append_cons {gaps : List Char} (areGaps : ∀ c ∈ gaps, isGap c = true) {c : Char}
    (notGap : isGap c = false) (rest : List Char) : skipGaps (gaps ++ c :: rest) = c :: rest := by
  rw [skipGaps, List.dropWhile_append_of_pos areGaps]
  exact skipGaps_cons notGap rest

/-- The gaps behind a comma or a colon do not count. -/
theorem skipGaps_append_valueText (style : Style) {gaps : List Char}
    (areGaps : ∀ c ∈ gaps, isGap c = true) (item : Json) (rest : List Char) :
    skipGaps (gaps ++ (Writing.valueText style item ++ rest)) =
      Writing.valueText style item ++ rest := by
  obtain ⟨c, others, spelled, starts⟩ := exists_valueText_eq_cons style item
  rw [spelled, List.cons_append]
  exact skipGaps_append_cons areGaps (isGap_of_startsValue starts) _

theorem value_scalar {c : Char} (starts : StartsScalar c) (steps levels : Nat)
    (rest : List Char) : value (steps + 1) levels (c :: rest) = scalar (c :: rest) := by
  have notQuote : c ≠ '\x22' := starts.ne rfl (by decide)
  have notBracket : c ≠ '[' := starts.ne rfl (by decide)
  have notBrace : c ≠ '\x7b' := starts.ne rfl (by decide)
  simp [value, notQuote, notBracket, notBrace]

theorem value_stringText (asciiOnly : Bool) {s : Text} (settled : s.Settled)
    (steps levels : Nat) (rest : List Char) :
    value (steps + 1) levels (Writing.stringText asciiOnly s ++ rest) = .ok (.text s, rest) := by
  have content := string_glyphs asciiOnly settled (Writing.stringText asciiOnly s ++ rest) rest
  rw [Writing.stringText, List.cons_append, List.append_assoc, List.singleton_append] at content ⊢
  rw [value, content]
  rfl

theorem value_items {c : Char} (starts : StartsValue c) (steps levels : Nat)
    (rest : List Char) :
    value (steps + 1) (levels + 1) ('[' :: c :: rest) =
      (items steps levels (c :: rest)).map fun read => (.array read.1, read.2) := by
  have notClosing : c ≠ ']' := starts.ne rfl (by decide)
  rw [value, skipGaps_cons (isGap_of_startsValue starts)]
  split
  next same =>
    cases same
    exact absurd rfl notClosing
  next => cases items steps levels (c :: rest) <;> rfl

theorem value_pairs (steps levels : Nat) (rest : List Char) :
    value (steps + 1) (levels + 1) ('\x7b' :: '\x22' :: rest) =
      (pairs steps levels ('\x22' :: rest)).map fun read =>
        (.object (Named.ofPairs read.1), read.2) := by
  rw [value, skipGaps_cons rfl]
  split
  next same => cases same
  next => cases pairs steps levels ('\x22' :: rest) <;> rfl

theorem items_last {steps levels : Nat} {text rest : List Char} {item : Json}
    (isItem : value steps levels text = .ok (item, ']' :: rest)) :
    items (steps + 1) levels text = .ok ([item], rest) := by
  rw [items, isItem]
  rfl

theorem items_more {steps levels : Nat} {text more rest : List Char} {item : Json}
    {others : List Json} (isItem : value steps levels text = .ok (item, ',' :: more))
    (areOthers : items steps levels (skipGaps more) = .ok (others, rest)) :
    items (steps + 1) levels text = .ok (item :: others, rest) := by
  rw [items, isItem]
  have notGap : skipGaps (',' :: more) = ',' :: more := rfl
  simp only [bind, Except.bind, notGap, areOthers]
  rfl

theorem pairs_last {steps levels : Nat} {text more rest : List Char} {name : Text}
    {item : Json} (isName : string ('\x22' :: text) text = .ok (name, ':' :: more))
    (isItem : value steps levels (skipGaps more) = .ok (item, '\x7d' :: rest)) :
    pairs (steps + 1) levels ('\x22' :: text) = .ok ([(name, item)], rest) := by
  rw [pairs, isName]
  have notGap : skipGaps (':' :: more) = ':' :: more := rfl
  simp only [bind, Except.bind, notGap, isItem]
  rfl

theorem pairs_more {steps levels : Nat} {text more behind rest : List Char} {name : Text}
    {item : Json} {others : List (Text × Json)}
    (isName : string ('\x22' :: text) text = .ok (name, ':' :: more))
    (isItem : value steps levels (skipGaps more) = .ok (item, ',' :: behind))
    (areOthers : pairs steps levels (skipGaps behind) = .ok (others, rest)) :
    pairs (steps + 1) levels ('\x22' :: text) = .ok ((name, item) :: others, rest) := by
  rw [pairs, isName]
  have notGap : skipGaps (':' :: more) = ':' :: more := rfl
  have notGapBehind : skipGaps (',' :: behind) = ',' :: behind := rfl
  simp only [bind, Except.bind, notGap, isItem, notGapBehind, areOthers]
  rfl

/-! ### Reading whole values -/

/-- The text of a value, with anything behind it that does not prolong a number, is read as
the value again. -/
def ReadsBack (style : Style) (levels : Nat) (item : Json) : Prop :=
  -- Each character costs the reader two steps at most: one for a value, one for its container.
  ∀ steps rest, 2 * (Writing.valueText style item).length ≤ steps →
    EndsNumber rest →
      value steps levels (Writing.valueText style item ++ rest) =
        .ok (item.reread, rest)

theorem endsNumber_cons {c : Char} (notDigit : c.isDigit = false) (notPart : c ∉ ['.', 'e', 'E'])
    (rest : List Char) : EndsNumber (c :: rest) := by
  rintro next ⟨⟩
  simp only [List.mem_cons, List.not_mem_nil, or_false, not_or] at notPart
  exact ⟨notDigit, notPart⟩

theorem exists_itemsText_eq_cons (style : Style) {listed : List Json} (hasItems : listed ≠ []) :
    ∃ c others, Writing.itemsText style listed = c :: others ∧ StartsValue c := by
  match listed with
  | [] => exact absurd rfl hasItems
  | [item] =>
      obtain ⟨c, others, spelled, starts⟩ := exists_valueText_eq_cons style item
      exact ⟨c, _, by rw [Writing.itemsText, spelled, List.cons_append], starts⟩
  | item :: next :: more =>
      obtain ⟨c, others, spelled, starts⟩ := exists_valueText_eq_cons style item
      exact ⟨c, _, by rw [Writing.itemsText, spelled, List.cons_append, List.cons_append], starts⟩

theorem items_itemsText {style : Style} (legible : style.Legible) {levels : Nat}
    {listed : List Json} (each : ∀ item ∈ listed, ReadsBack style levels item)
    (hasItems : listed ≠ []) {steps : Nat}
    (enough : 2 * (Writing.itemsText style listed).length ≤ steps) (rest : List Char) :
    items steps levels (Writing.itemsText style listed ++ rest) =
      .ok (listed.map reread, rest) := by
  induction listed generalizing steps with
  | nil => exact absurd rfl hasItems
  | cons item others inductionHypothesis =>
      obtain ⟨first, behind⟩ := List.forall_mem_cons.mp each
      cases others with
      | nil =>
          rw [Writing.itemsText] at enough ⊢
          rw [List.length_append, List.length_singleton] at enough
          obtain ⟨fewer, rfl⟩ : ∃ fewer, steps = fewer + 1 := ⟨steps - 1, by omega⟩
          rw [List.append_assoc, List.singleton_append]
          exact items_last (first fewer _ (by omega) (endsNumber_cons rfl (by decide) rest))
      | cons next more =>
          obtain ⟨gaps, itemGap, areGaps⟩ := legible.item
          rw [Writing.itemsText, itemGap] at enough ⊢
          rw [List.length_append, List.length_append, List.length_cons] at enough
          obtain ⟨fewer, rfl⟩ : ∃ fewer, steps = fewer + 1 := ⟨steps - 1, by omega⟩
          rw [List.append_assoc, List.append_assoc, List.cons_append]
          refine items_more (first fewer _ (by omega) (endsNumber_cons rfl (by decide) _)) ?_
          have areOthers := @inductionHypothesis behind (by simp) fewer (by omega)
          obtain ⟨c, others, spelled, starts⟩ :=
            exists_itemsText_eq_cons style (List.cons_ne_nil next more)
          rw [spelled, List.cons_append] at areOthers ⊢
          rw [skipGaps_append_cons areGaps (isGap_of_startsValue starts), areOthers]

/-- A string as the name of a member. -/
theorem string_stringText (asciiOnly : Bool) {name : Text} (settled : name.Settled)
    (rest : List Char) :
    ∃ text, Writing.stringText asciiOnly name ++ rest = '\x22' :: text ∧
      string ('\x22' :: text) text = .ok (name, rest) := by
  refine ⟨name.toList.flatMap (Writing.glyphText asciiOnly) ++ '\x22' :: rest, ?_,
    string_glyphs asciiOnly settled _ rest⟩
  rw [Writing.stringText, List.cons_append, List.append_assoc, List.singleton_append]

theorem exists_membersText_eq_cons (style : Style) {members : List (Text × Json)}
    (hasMembers : members ≠ []) :
    ∃ others, Writing.membersText style members = '\x22' :: others := by
  match members with
  | [] => exact absurd rfl hasMembers
  | [member] => exact ⟨_, by rw [Writing.membersText, Writing.stringText]; rfl⟩
  | member :: next :: more =>
      exact ⟨_, by rw [Writing.membersText, Writing.stringText]; rfl⟩

theorem pairs_membersText {style : Style} (legible : style.Legible) {levels : Nat}
    {members : List (Text × Json)}
    (each : ∀ member ∈ members, member.1.Settled ∧ ReadsBack style levels member.2)
    (hasMembers : members ≠ []) {steps : Nat}
    (enough : 2 * (Writing.membersText style members).length ≤ steps)
    (rest : List Char) :
    pairs steps levels (Writing.membersText style members ++ rest) =
      .ok (members.map fun member => (member.1, reread member.2), rest) := by
  induction members generalizing steps with
  | nil => exact absurd rfl hasMembers
  | cons member others inductionHypothesis =>
      obtain ⟨name, item⟩ := member
      obtain ⟨⟨settled, first⟩, behind⟩ := List.forall_mem_cons.mp each
      dsimp only at settled first
      cases others with
      | nil =>
          obtain ⟨gaps, nameGap, areGaps⟩ := legible.name
          rw [Writing.membersText, nameGap] at enough ⊢
          simp only [List.length_append, List.length_cons, List.length_nil] at enough
          obtain ⟨fewer, rfl⟩ : ∃ fewer, steps = fewer + 1 := ⟨steps - 1, by omega⟩
          simp only [List.append_assoc, List.cons_append, List.nil_append]
          obtain ⟨text, spelled, isName⟩ := string_stringText style.asciiOnly settled
            (':' :: (gaps ++ (Writing.valueText style item ++ '\x7d' :: rest)))
          rw [spelled]
          refine pairs_last isName ?_
          rw [skipGaps_append_valueText style areGaps]
          exact first fewer _ (by omega) (endsNumber_cons rfl (by decide) rest)
      | cons next more =>
          obtain ⟨gaps, nameGap, areGaps⟩ := legible.name
          obtain ⟨itemGaps, itemGap, areItemGaps⟩ := legible.item
          rw [Writing.membersText, nameGap, itemGap] at enough ⊢
          simp only [List.length_append, List.length_cons] at enough
          obtain ⟨fewer, rfl⟩ : ∃ fewer, steps = fewer + 1 := ⟨steps - 1, by omega⟩
          simp only [List.append_assoc, List.cons_append]
          obtain ⟨text, spelled, isName⟩ := string_stringText style.asciiOnly settled
            (':' :: (gaps ++ (Writing.valueText style item ++ ',' :: (itemGaps ++
              (Writing.membersText style (next :: more) ++ rest)))))
          have isItem := first fewer (',' :: (itemGaps ++
            (Writing.membersText style (next :: more) ++ rest))) (by omega)
            (endsNumber_cons rfl (by decide) _)
          rw [← skipGaps_append_valueText style areGaps] at isItem
          have areOthers := @inductionHypothesis behind (by simp) fewer (by omega)
          rw [spelled]
          refine pairs_more isName isItem ?_
          obtain ⟨others, opening⟩ := exists_membersText_eq_cons style
            (List.cons_ne_nil next more)
          rw [opening, List.cons_append] at areOthers ⊢
          rw [skipGaps_append_cons areItemGaps rfl, areOthers]

theorem readsBack_of_scalar {style : Style} {item : Json}
    (starts : ∃ c others, Writing.valueText style item = c :: others ∧
      StartsScalar c)
    (isScalar : ∀ rest, EndsNumber rest →
      scalar (Writing.valueText style item ++ rest) = .ok (item.reread, rest))
    (levels : Nat) : ReadsBack style levels item := by
  intro steps rest enough ends
  have read := isScalar rest ends
  obtain ⟨c, others, spelled, starts⟩ := starts
  rw [spelled] at enough read ⊢
  obtain ⟨fewer, rfl⟩ : ∃ fewer, steps = fewer + 1 := ⟨steps - 1, by
    rw [List.length_cons] at enough
    omega⟩
  exact (value_scalar starts fewer levels _).trans read

theorem readsBack_text {style : Style} {s : Text} (settled : s.Settled) (levels : Nat) :
    ReadsBack style levels (.text s) := by
  intro steps rest enough ends
  rw [Writing.valueText] at enough ⊢
  obtain ⟨fewer, rfl⟩ : ∃ fewer, steps = fewer + 1 := ⟨steps - 1, by
    rw [Writing.stringText, List.length_cons] at enough
    omega⟩
  rw [value_stringText _ settled, reread]

theorem readsBack_array {style : Style} (legible : style.Legible) {levels : Nat}
    {listed : List Json} (each : ∀ item ∈ listed, ReadsBack style levels item) :
    ReadsBack style (levels + 1) (.array listed) := by
  intro steps rest enough ends
  rw [Writing.valueText] at enough ⊢
  rw [List.length_cons] at enough
  obtain ⟨fewer, rfl⟩ : ∃ fewer, steps = fewer + 1 := ⟨steps - 1, by omega⟩
  rw [reread]
  rcases eq_or_ne listed [] with rfl | hasItems
  · rw [Writing.itemsText]
    rfl
  · have areItems := @items_itemsText _ legible _ _ each hasItems fewer (by omega) rest
    obtain ⟨c, others, spelled, starts⟩ := exists_itemsText_eq_cons style hasItems
    rw [spelled] at areItems ⊢
    exact (value_items starts fewer levels _).trans (congrArg _ areItems)

theorem readsBack_object {style : Style} (legible : style.Legible) {levels : Nat}
    {members : Members} (distinct : (members.map (·.1)).Nodup)
    (each : ∀ member ∈ members, member.1.Settled ∧ ReadsBack style levels member.2) :
    ReadsBack style (levels + 1) (.object members) := by
  have again := Named.ofPairs_eq_self (by rwa [map_fst_reread members])
  intro steps rest enough ends
  rw [Writing.valueText] at enough ⊢
  rw [List.length_cons] at enough
  obtain ⟨fewer, rfl⟩ : ∃ fewer, steps = fewer + 1 := ⟨steps - 1, by omega⟩
  rw [reread, ← again]
  rcases eq_or_ne members [] with rfl | hasMembers
  · rw [Writing.membersText]
    rfl
  · have areMembers := @pairs_membersText _ legible _ _ each hasMembers fewer (by omega) rest
    obtain ⟨others, opening⟩ := exists_membersText_eq_cons style hasMembers
    rw [opening] at areMembers ⊢
    exact (value_pairs fewer levels _).trans (congrArg _ areMembers)

/-- Every value that fits is read back.  The recursion is on the levels, which last as long as
containers are opened. -/
theorem readsBack_of_fitsWithin {style : Style} (legible : style.Legible) :
    ∀ levels item, FitsWithin levels item → ReadsBack style levels item
  | levels, .null, _ => by
      apply readsBack_of_scalar
      · exact ⟨'n', _, by rw [Writing.valueText]; rfl, .inr (by decide)⟩
      · intro rest ends
        rw [Writing.valueText, reread]
        rfl
  | levels, .bool flag, _ => by
      apply readsBack_of_scalar
      · cases flag with
        | true => exact ⟨'t', _, by rw [Writing.valueText]; rfl, .inr (by decide)⟩
        | false => exact ⟨'f', _, by rw [Writing.valueText]; rfl, .inr (by decide)⟩
      · intro rest ends
        rw [reread]
        cases flag <;> rw [Writing.valueText] <;> rfl
  | levels, .int n, fits => by
      rw [FitsWithin] at fits
      apply readsBack_of_scalar
      · rw [Writing.valueText]
        exact exists_int_eq_cons n
      · intro rest ends
        rw [Writing.valueText, reread]
        exact scalar_int fits ends
  | levels, .real d, _ => by
      apply readsBack_of_scalar
      · rw [Writing.valueText]
        exact exists_double_eq_cons d
      · intro rest ends
        rw [Writing.valueText, reread]
        exact scalar_double d ends
  | levels, .text s, fits => by
      rw [FitsWithin] at fits
      exact readsBack_text fits levels
  | levels + 1, .array items, each => by
      apply readsBack_array legible
      intro item isThere
      exact readsBack_of_fitsWithin legible levels item (each item isThere)
  | levels + 1, .object members, ⟨distinct, each⟩ => by
      apply readsBack_object legible distinct
      intro member isMember
      obtain ⟨settled, fits⟩ := each member isMember
      exact ⟨settled, readsBack_of_fitsWithin legible levels member.2 fits⟩

theorem document_valueText {style : Style} (legible : style.Legible) {levels : Nat} {item : Json}
    (fits : item.FitsWithin levels) :
    document levels (Writing.valueText style item) = .ok item.reread := by
  have readsBack := readsBack_of_fitsWithin legible levels item fits
    (2 * (Writing.valueText style item).length + 1) [] (by omega) endsNumber_nil
  obtain ⟨c, others, spelled, starts⟩ := exists_valueText_eq_cons style item
  have noMark : c ≠ '\uFEFF' := starts.ne rfl (by decide)
  rw [List.append_nil, spelled] at readsBack
  rw [spelled, document, skipGaps_cons (isGap_of_startsValue starts), readsBack]
  · rfl
  · rintro rest ⟨⟩
    exact noMark rfl

end Reading

/-! ### Line ends -/

namespace Writing

theorem cr_not_mem_hexDigits (width n : Nat) : '\r' ∉ Text.hexDigits width n := by
  have digit : ∀ m < 16, '\r' ≠ Text.hexDigit m := by decide
  induction width generalizing n with
  | zero => exact List.not_mem_nil
  | succ less inductionHypothesis =>
      rw [Text.hexDigits, List.mem_append, List.mem_singleton, not_or]
      exact ⟨inductionHypothesis (n / 16), digit (n % 16) (Nat.mod_lt n (by decide))⟩

theorem cr_not_mem_unitEscape (n : Nat) : '\r' ∉ unitEscape n := by
  have digits := cr_not_mem_hexDigits 4 n
  simpa [unitEscape] using digits

theorem cr_not_mem_charText (asciiOnly : Bool) (c : Char) : '\r' ∉ charText asciiOnly c := by
  rcases charText_cases asciiOnly c with
    spelled | ⟨e, spelled, -, stands⟩ | ⟨spelled, -, -, printed⟩
  · rw [spelled, charEscape]
    split
    · exact cr_not_mem_unitEscape _
    · rw [List.mem_append, not_or]
      exact ⟨cr_not_mem_unitEscape _, cr_not_mem_unitEscape _⟩
  · rw [spelled]
    intro isThere
    have same : '\r' = e := by simpa using isThere
    subst same
    cases stands
  · rw [spelled, List.mem_singleton]
    rintro rfl
    exact absurd printed (by decide)

theorem cr_not_mem_stringText (asciiOnly : Bool) (s : Text) :
    '\r' ∉ stringText asciiOnly s := by
  have content : '\r' ∉ s.toList.flatMap (glyphText asciiOnly) := by
    rw [List.mem_flatMap]
    rintro ⟨glyph, -, isThere⟩
    cases glyph with
    | char c => exact cr_not_mem_charText asciiOnly c isThere
    | half index => exact cr_not_mem_unitEscape _ isThere
  simpa [stringText] using content

theorem cr_not_mem_itemsText {asciiOnly : Bool} {listed : List Json}
    (each : ∀ item ∈ listed, '\r' ∉ valueText (.wide asciiOnly) item) :
    '\r' ∉ itemsText (.wide asciiOnly) listed := by
  induction listed with
  | nil => simp [itemsText]
  | cons item others inductionHypothesis =>
      obtain ⟨first, behind⟩ := List.forall_mem_cons.mp each
      cases others with
      | nil => simpa [itemsText] using first
      | cons next more =>
          simpa [itemsText, Style.itemGap_wide, first] using inductionHypothesis behind

theorem cr_not_mem_membersText {asciiOnly : Bool} {members : List (Text × Json)}
    (each : ∀ member ∈ members, '\r' ∉ valueText (.wide asciiOnly) member.2) :
    '\r' ∉ membersText (.wide asciiOnly) members := by
  induction members with
  | nil => simp [membersText]
  | cons member others inductionHypothesis =>
      obtain ⟨first, behind⟩ := List.forall_mem_cons.mp each
      have name := cr_not_mem_stringText (Style.wide asciiOnly).asciiOnly member.1
      cases others with
      | nil => simpa [membersText, Style.nameGap_wide, name] using first
      | cons next more =>
          simpa [membersText, Style.nameGap_wide, Style.itemGap_wide, name, first] using
            inductionHypothesis behind

/-- No value is written with a carriage return. -/
theorem cr_not_mem_valueText (asciiOnly : Bool) :
    ∀ levels item, FitsWithin levels item → '\r' ∉ valueText (.wide asciiOnly) item
  | _, .null, _ => by
      rw [valueText]
      decide
  | _, .bool flag, _ => by
      cases flag <;> rw [valueText] <;> decide
  | _, .int n, _ => by
      rw [valueText]
      exact Reading.cr_not_mem_int n
  | _, .real d, _ => by
      rw [valueText]
      exact Reading.cr_not_mem_double d
  | _, .text s, _ => by
      rw [valueText]
      exact cr_not_mem_stringText _ _
  | levels + 1, .array items, each => by
      have content := cr_not_mem_itemsText fun item isThere =>
        cr_not_mem_valueText asciiOnly levels item (each item isThere)
      simpa [valueText] using content
  | levels + 1, .object members, ⟨_, each⟩ => by
      have content := cr_not_mem_membersText fun member isMember =>
        cr_not_mem_valueText asciiOnly levels member.2 (each member isMember).2
      simpa [valueText] using content

end Writing

/-! ### Texts -/

/-- A value that was written is read as it is, its doubles apart. -/
theorem read_write_legible {style : Style} (legible : style.Legible) {item : Json}
    (fits : item.FitsWithin nestingLimit) : read (item.write style) = .ok item.reread := by
  rw [read, readWithin, write, String.toList_ofList, Reading.document_valueText legible fits]

theorem read_write {asciiOnly : Bool} {item : Json} (fits : item.FitsWithin nestingLimit) :
    read (item.write (.wide asciiOnly)) = .ok item.reread :=
  read_write_legible (Style.legible_wide asciiOnly) fits

/-- Making all line ends alike changes nothing in a written value. -/
theorem unifyLineEnds_write {asciiOnly : Bool} {item : Json} {levels : Nat}
    (fits : item.FitsWithin levels) :
    Text.unifyLineEnds (item.write (.wide asciiOnly)).toList =
      (item.write (.wide asciiOnly)).toList := by
  apply Text.unifyLineEnds_eq_self
  rw [write, String.toList_ofList]
  exact Writing.cr_not_mem_valueText asciiOnly levels item fits

end ShellGloss.Json
