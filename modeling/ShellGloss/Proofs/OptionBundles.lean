/-
Module: ShellGloss.Proofs.OptionBundles
Purpose: A bundle of short options such as `-la` is read as its letters would be, each in a
  word of its own; a letter that takes a value turns the letters behind it into that value.
Imports: Mathlib.Data.List.Forall2, ShellGloss.Catalog.Bundled,
  ShellGloss.Proofs.CommandGrammar
Main exports:
  Line.Stage.LooksUp, Bundle, Lexeme.SpellsLetter, clusterGroup_append,
  Line.groups_letters, Line.StandsFor, Line.bundle_standsFor_letters
-/
import Mathlib.Data.List.Forall2
import ShellGloss.Catalog.Bundled
import ShellGloss.Proofs.CommandGrammar

namespace ShellGloss

/-! ### Bundles and their letters -/

/-- What a content tells about an option, sticky or not. -/
def Content.optionInfo? : Content → Option OptionInfo
  | .option info | .stickyOption info => some info
  | _ => none

/-- What a node tells about an option. -/
def Node.optionInfo? (node : Node) : Option OptionInfo := node.content.optionInfo?

/-- What is told about a letter by itself. -/
def letterInfo (table : Table) (letter : Glyph) : OptionInfo :=
  OptionInfo.of (table.option? (letterAlias letter)) (letterAlias letter)

/-- What some letters are read as, each by itself. -/
def letterContents (table : Table) (letters : List Glyph) : List Content :=
  letters.map fun letter => .option (letterInfo table letter)

/-- A word of a dash and two letters or more, none of them a dash, that the table does not
have as an alias. -/
structure Bundle (table : Table) (word : Lexeme) (letters : List Glyph) : Prop where
  isWord : word.control = false
  spelled : word.text.toList = Glyph.char '-' :: letters
  several : 2 ≤ letters.length
  noDash : Glyph.char '-' ∉ letters
  unknown : table.option? word.text = none

/-- A word of a dash and one letter. -/
def Lexeme.SpellsLetter (word : Lexeme) (letter : Glyph) : Prop :=
  word.control = false ∧ word.text = letterAlias letter

theorem startsLong_eq_false {letter : Glyph} (notDash : letter ≠ '-') (rest : List Glyph) :
    startsLong ('-' :: letter :: rest) = false := by
  unfold startsLong
  split
  next same =>
    cases same
    exact absurd rfl notDash
  · rfl

theorem isOptionWord_of_letter {word : Lexeme} {letter : Glyph} {rest : List Glyph}
    (spelled : word.text.toList = Glyph.char '-' :: letter :: rest) (notDash : letter ≠ '-') :
    Line.isOptionWord word = true := by
  rw [Line.isOptionWord_iff, OptionShaped, ← Text.length_toList, spelled]
  refine ⟨rfl, ?_, ?_⟩
  · simp
  · intro dashes
    rw [dashes] at spelled
    cases spelled
    exact notDash rfl

theorem takesValue_eq_false_iff (table : Table) (spelling : Text) :
    takesValue (table.option? spelling) = false ↔ ¬ table.Takes spelling := by
  rw [← takesValue_iff, Bool.not_eq_true]

/-- A letter by itself is one option, found as a whole word or as a bundle of one. -/
theorem Lexeme.SpellsLetter.optionGroup_eq {word : Lexeme} {letter : Glyph}
    (spells : word.SpellsLetter letter) (notDash : letter ≠ '-') (table : Table) :
    optionGroup table word =
      ⟨[⟨word.span, .option (letterInfo table letter)⟩],
        takesValue (table.option? (letterAlias letter))⟩ := by
  have spelled : word.text.toList = [.char '-', letter] := by
    rw [spells.2, letterAlias, Text.toList_ofList]
  have width : word.text.length = 2 := by
    rw [← Text.length_toList, spelled]
    rfl
  rw [optionGroup, spelled, startsLong_eq_false notDash, if_neg Bool.false_ne_true, shortGroup,
    letterInfo, Lexeme.span, width, spelled, spells.2]
  cases found : table.option? (letterAlias letter) with
  | some entry => rfl
  | none => simp [clusterGroup, found, takesValue]

theorem Bundle.begins {table : Table} {word : Lexeme} {letters : List Glyph}
    (bundle : Bundle table word letters) :
    ∃ letter rest, letters = letter :: rest ∧ letter ≠ '-' := by
  obtain ⟨-, -, several, noDash, -⟩ := bundle
  cases letters with
  | nil => cases several
  | cons letter rest =>
      refine ⟨letter, rest, rfl, ?_⟩
      rintro rfl
      exact noDash List.mem_cons_self

theorem Bundle.isOptionWord_eq {table : Table} {word : Lexeme} {letters : List Glyph}
    (bundle : Bundle table word letters) : Line.isOptionWord word = true := by
  obtain ⟨letter, rest, rfl, notDash⟩ := bundle.begins
  exact isOptionWord_of_letter bundle.spelled notDash

theorem Bundle.optionGroup_eq {table : Table} {word : Lexeme} {letters : List Glyph}
    (bundle : Bundle table word letters) :
    optionGroup table word = clusterGroup table 1 word.start letters := by
  obtain ⟨letter, rest, rfl, notDash⟩ := bundle.begins
  rw [optionGroup, bundle.spelled, startsLong_eq_false notDash, if_neg Bool.false_ne_true,
    shortGroup, bundle.unknown, bundle.spelled]
  rfl

/-- The letters of a bundle in front of the first that takes a value are options of their
own, and the others are read as if the bundle began with them. -/
theorem clusterGroup_append {table : Table} {front : List Glyph}
    (plain : ∀ letter ∈ front, ¬ table.Takes (letterAlias letter)) (rest : List Glyph)
    (lead start : Nat) :
    ∃ nextLead nextStart,
      (clusterGroup table lead start (front ++ rest)).nodes.map Node.content =
        letterContents table front ++
          (clusterGroup table nextLead nextStart rest).nodes.map Node.content ∧
      (clusterGroup table lead start (front ++ rest)).needsValue =
        (clusterGroup table nextLead nextStart rest).needsValue := by
  induction front generalizing lead start with
  | nil => exact ⟨lead, start, rfl, rfl⟩
  | cons letter others inductionHypothesis =>
      obtain ⟨here, behind⟩ := List.forall_mem_cons.mp plain
      obtain ⟨nextLead, nextStart, contents, needs⟩ :=
        inductionHypothesis behind 0 (start + lead + 1)
      have first : clusterGroup table lead start (letter :: (others ++ rest)) =
          ⟨⟨⟨start, lead + 1⟩, .option (letterInfo table letter)⟩ ::
              (clusterGroup table 0 (start + lead + 1) (others ++ rest)).nodes,
            (clusterGroup table 0 (start + lead + 1) (others ++ rest)).needsValue⟩ := by
        rw [← takesValue_eq_false_iff] at here
        simp [clusterGroup, here, letterInfo]
      refine ⟨nextLead, nextStart, ?_, ?_⟩
      · rw [List.cons_append, first, List.map_cons, contents]
        rfl
      · rw [List.cons_append, first, needs]

/-- A bundle whose last letter alone may take a value. -/
theorem clusterGroup_snoc {table : Table} {front : List Glyph}
    (plain : ∀ letter ∈ front, ¬ table.Takes (letterAlias letter)) (last : Glyph)
    (lead start : Nat) :
    (clusterGroup table lead start (front ++ [last])).nodes.map Node.content =
        letterContents table (front ++ [last]) ∧
      (clusterGroup table lead start (front ++ [last])).needsValue =
        takesValue (table.option? (letterAlias last)) := by
  obtain ⟨nextLead, nextStart, contents, needs⟩ := clusterGroup_append plain [last] lead start
  rw [contents, needs, letterContents, letterContents, List.map_append]
  cases takes : takesValue (table.option? (letterAlias last)) with
  | true => simp [clusterGroup, takes, letterInfo]
  | false => simp [clusterGroup, takes, letterInfo]

/-- A bundle with a letter that takes the others as its value. -/
theorem clusterGroup_sticky {table : Table} {front : List Glyph}
    (plain : ∀ letter ∈ front, ¬ table.Takes (letterAlias letter)) {letter : Glyph}
    (takes : table.Takes (letterAlias letter)) {others : List Glyph} (swallows : others ≠ [])
    (lead start : Nat) :
    (clusterGroup table lead start (front ++ letter :: others)).nodes.map Node.content =
        letterContents table front ++ [.stickyOption (letterInfo table letter)] ∧
      (clusterGroup table lead start (front ++ letter :: others)).needsValue = false := by
  obtain ⟨nextLead, nextStart, contents, needs⟩ :=
    clusterGroup_append plain (letter :: others) lead start
  rw [← takesValue_iff] at takes
  rw [contents, needs]
  simp [clusterGroup, takes, swallows, letterInfo]

/-! ### The words behind a bundle -/

namespace Line

/-- The stages in which option words are looked up in a table: among the options of `sudo`,
and in a tail in which `--` has not come. -/
inductive Stage.LooksUp (table : Table) : Stage → Prop where
  | sudoOptions : LooksUp table (.sudoOptions table)
  | tail {mode : TailMode} (goesOn : mode ≠ .ended) : LooksUp table (.tail table mode)

/-- One word in place of `separate`, each of them one option, and `values` behind them: its
nodes are of some kinds and tell what the separate words tell, one by one, and every word
behind is read the same. -/
structure StandsFor (catalog : Catalog) (progress : Progress) (word : Lexeme)
    (separate values : List Lexeme) (kinds : List Kind) : Prop where
  kinds_eq : (step catalog progress word).1.map Node.kind = kinds
  infos_eq : ((step catalog progress word).1.map fun node => [node.optionInfo?]) =
    (groups catalog progress separate).map (List.map Node.optionInfo?)
  behind_eq : ∀ rest, (groups catalog progress (word :: rest)).drop 1 =
    (groups catalog progress (separate ++ values ++ rest)).drop (separate ++ values).length

section

variable {table : Table} {stage : Stage}

theorem Stage.LooksUp.step_eq (looksUp : stage.LooksUp table) (catalog : Catalog)
    {word : Lexeme} (isWord : word.control = false) (isOption : isOptionWord word = true) :
    step catalog ⟨stage, false⟩ word =
      ((optionGroup table word).nodes, ⟨stage, (optionGroup table word).needsValue⟩) := by
  cases looksUp with
  | sudoOptions => exact (Reading.sudoOption isWord isOption).step_eq
  | tail goesOn => exact (Reading.tailOption isWord goesOn isOption).step_eq

theorem Stage.LooksUp.step_letter (looksUp : stage.LooksUp table) (catalog : Catalog)
    {word : Lexeme} {letter : Glyph} (spells : word.SpellsLetter letter)
    (notDash : letter ≠ '-') :
    step catalog ⟨stage, false⟩ word =
      ([⟨word.span, .option (letterInfo table letter)⟩],
        ⟨stage, takesValue (table.option? (letterAlias letter))⟩) := by
  have spelled : word.text.toList = [.char '-', letter] := by
    rw [spells.2, letterAlias, Text.toList_ofList]
  rw [looksUp.step_eq catalog spells.1 (isOptionWord_of_letter spelled notDash),
    spells.optionGroup_eq notDash]

/-- Letters in words of their own: one option each, and the value is awaited that the last
one takes. -/
theorem groups_letters (looksUp : stage.LooksUp table) (catalog : Catalog)
    {front : List Glyph} {last : Glyph} {separate : List Lexeme}
    (spells : List.Forall₂ Lexeme.SpellsLetter separate (front ++ [last]))
    (noDash : Glyph.char '-' ∉ front ++ [last])
    (plain : ∀ letter ∈ front, ¬ table.Takes (letterAlias letter)) :
    (groups catalog ⟨stage, false⟩ separate).map (List.map Node.optionInfo?) =
        (letterContents table (front ++ [last])).map (fun content => [content.optionInfo?]) ∧
      advance catalog ⟨stage, false⟩ separate =
        ⟨stage, takesValue (table.option? (letterAlias last))⟩ := by
  induction front generalizing separate with
  | nil =>
      cases spells with
      | cons here others =>
          cases others
          have notDash : last ≠ '-' := by
            rintro rfl
            exact noDash List.mem_cons_self
          have read := looksUp.step_letter catalog here notDash
          constructor
          · rw [groups, read]
            rfl
          · rw [advance, read]
            rfl
  | cons letter front inductionHypothesis =>
      cases spells with
      | cons here others =>
          obtain ⟨notDash, noDash⟩ := not_or.mp (mt List.mem_cons.mpr noDash)
          obtain ⟨takesNot, plain⟩ := List.forall_mem_cons.mp plain
          have read := looksUp.step_letter catalog here (Ne.symm notDash)
          rw [(takesValue_eq_false_iff table _).mpr takesNot] at read
          obtain ⟨infos, behind⟩ := inductionHypothesis others noDash plain
          constructor
          · rw [groups, read, List.map_cons, infos]
            rfl
          · rw [advance, read]
            exact behind

/-- A word stands for others when its nodes tell what theirs tell and it leads to the same
progress. -/
theorem standsFor_of_contents {catalog : Catalog} {progress : Progress} {word : Lexeme}
    {separate values : List Lexeme} {contents : List Content}
    (told : (step catalog progress word).1.map Node.content = contents)
    (infos : (groups catalog progress separate).map (List.map Node.optionInfo?) =
      contents.map fun content => [content.optionInfo?])
    (progressed : (step catalog progress word).2 =
      advance catalog progress (separate ++ values)) :
    StandsFor catalog progress word separate values (contents.map Content.kind) := by
  subst told
  refine ⟨?_, ?_, ?_⟩
  · rw [List.map_map]
    rfl
  · rw [infos, List.map_map]
    rfl
  · intro rest
    have skipped := length_groups catalog progress (separate ++ values)
    rw [groups_append, ← skipped, List.drop_left, ← progressed]
    rfl

end

/-- A bundle is read as its letters in words of their own.  If no letter but the last takes a
value, they are all options, and the next word is the value of the last one if it takes one.
If an earlier letter takes a value, it is the last node, a sticky one, and what follows is
read as behind that letter and its value in words of their own. -/
theorem bundle_standsFor_letters {table : Table} {stage : Stage}
    (looksUp : stage.LooksUp table) {word : Lexeme} {letters : List Glyph}
    (bundle : Bundle table word letters) (catalog : Catalog) :
    (∀ front last separate, letters = front ++ [last] →
        (∀ letter ∈ front, ¬ table.Takes (letterAlias letter)) →
        List.Forall₂ Lexeme.SpellsLetter separate letters →
        StandsFor catalog ⟨stage, false⟩ word separate [] (letters.map fun _ => .option) ∧
          ((step catalog ⟨stage, false⟩ word).2.awaitsValue = true ↔
            table.Takes (letterAlias last))) ∧
      (∀ front letter others separate value, letters = front ++ letter :: others →
        others ≠ [] → (∀ letter ∈ front, ¬ table.Takes (letterAlias letter)) →
        table.Takes (letterAlias letter) →
        List.Forall₂ Lexeme.SpellsLetter separate (front ++ [letter]) →
        value.control = false →
        StandsFor catalog ⟨stage, false⟩ word separate [value]
          ((front.map fun _ => .option) ++ [.stickyOption])) := by
  have read := looksUp.step_eq catalog bundle.isWord bundle.isOptionWord_eq
  rw [bundle.optionGroup_eq] at read
  constructor
  · rintro front last separate rfl plain spells
    obtain ⟨contents, needs⟩ := clusterGroup_snoc plain last 1 word.start
    obtain ⟨infos, progressed⟩ := groups_letters looksUp catalog spells bundle.noDash plain
    rw [needs] at read
    constructor
    · have told : (step catalog ⟨stage, false⟩ word).1.map Node.content =
          letterContents table (front ++ [last]) := by
        rw [read, contents]
      have reached : (step catalog ⟨stage, false⟩ word).2 =
          advance catalog ⟨stage, false⟩ (separate ++ []) := by
        rw [read, List.append_nil, progressed]
      have stands := standsFor_of_contents told infos reached
      rw [letterContents, List.map_map] at stands
      exact stands
    · rw [read]
      exact takesValue_iff table (letterAlias last)
  · rintro front letter others separate value rfl swallows plain takes spells isWord
    obtain ⟨contents, needs⟩ := clusterGroup_sticky plain takes swallows 1 word.start
    have noDash : Glyph.char '-' ∉ front ++ [letter] := by
      have without := bundle.noDash
      simp only [List.mem_append, List.mem_cons, not_or] at without
      simp [without]
    obtain ⟨infos, progressed⟩ := groups_letters looksUp catalog spells noDash plain
    rw [(takesValue_iff table _).mpr takes] at progressed
    rw [needs] at read
    have told : (step catalog ⟨stage, false⟩ word).1.map Node.content =
        letterContents table front ++ [.stickyOption (letterInfo table letter)] := by
      rw [read, contents]
    have alike : (groups catalog ⟨stage, false⟩ separate).map (List.map Node.optionInfo?) =
        (letterContents table front ++ [Content.stickyOption (letterInfo table letter)]).map
          fun content => [content.optionInfo?] := by
      rw [infos, letterContents, letterContents, List.map_append, List.map_append,
        List.map_append]
      rfl
    have reached : (step catalog ⟨stage, false⟩ word).2 =
        advance catalog ⟨stage, false⟩ (separate ++ [value]) := by
      rw [read, advance_append, progressed, advance, (Reading.value isWord).step_eq]
      rfl
    have stands := standsFor_of_contents told alike reached
    rw [letterContents, List.map_append, List.map_map] at stands
    exact stands

/-- `tar -xvf` waits for the archive; behind `sudo`, the `-u` of `-Eui` has its user. -/
theorem bundle_standsFor_letters_tar_sudo :
    (StandsFor .bundled ⟨.tail (some Catalog.Bundled.tar) .arguments, false⟩
          ⟨"-xvf", 6, false⟩ [⟨"-x", 6, false⟩, ⟨"-v", 9, false⟩, ⟨"-f", 12, false⟩] []
          [.option, .option, .option] ∧
        (step .bundled ⟨.tail (some Catalog.Bundled.tar) .arguments, false⟩
          ⟨"-xvf", 6, false⟩).2.awaitsValue = true) ∧
      StandsFor .bundled ⟨.sudoOptions (some Catalog.Bundled.superuser), false⟩
        ⟨"-Eui", 5, false⟩ [⟨"-E", 5, false⟩, ⟨"-u", 8, false⟩] [⟨"i", 11, false⟩]
        [.option, .stickyOption] := by
  have notEnded : TailMode.arguments ≠ .ended := TailMode.noConfusion
  have tarBundle : Bundle (some Catalog.Bundled.tar) ⟨"-xvf", 6, false⟩ ['x', 'v', 'f'] :=
    ⟨rfl, rfl, by decide, by decide, rfl⟩
  have sudoBundle : Bundle (some Catalog.Bundled.superuser) ⟨"-Eui", 5, false⟩
      ['E', 'u', 'i'] :=
    ⟨rfl, rfl, by decide, by decide, rfl⟩
  have tarLetters := (bundle_standsFor_letters (.tail notEnded) tarBundle .bundled).1
    ['x', 'v'] 'f' [⟨"-x", 6, false⟩, ⟨"-v", 9, false⟩, ⟨"-f", 12, false⟩] rfl
  have sudoLetters := (bundle_standsFor_letters .sudoOptions sudoBundle .bundled).2
    ['E'] 'u' ['i'] [⟨"-E", 5, false⟩, ⟨"-u", 8, false⟩] ⟨"i", 11, false⟩ rfl
  constructor
  · have plain : ∀ letter ∈ [Glyph.char 'x', 'v'],
        ¬ Table.Takes (some Catalog.Bundled.tar) (letterAlias letter) := by
      simp only [List.forall_mem_cons, ← takesValue_eq_false_iff]
      exact ⟨rfl, rfl, by simp⟩
    obtain ⟨stands, awaits⟩ := tarLetters plain
      (.cons ⟨rfl, rfl⟩ (.cons ⟨rfl, rfl⟩ (.cons ⟨rfl, rfl⟩ .nil)))
    exact ⟨stands, awaits.mpr ⟨_, rfl, rfl⟩⟩
  · have plain : ∀ letter ∈ [Glyph.char 'E'],
        ¬ Table.Takes (some Catalog.Bundled.superuser) (letterAlias letter) := by
      simp only [List.forall_mem_cons, ← takesValue_eq_false_iff]
      exact ⟨rfl, by simp⟩
    exact sudoLetters (by simp) plain ⟨_, rfl, rfl⟩ (.cons ⟨rfl, rfl⟩ (.cons ⟨rfl, rfl⟩ .nil)) rfl

end Line

end ShellGloss
