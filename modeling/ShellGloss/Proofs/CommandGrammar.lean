/-
Module: ShellGloss.Proofs.CommandGrammar
Purpose: The grammar of simple commands: which words are assignments, `sudo`, options and
  their values, the program, and what its tail may hold.
Imports: Mathlib.Data.List.Basic, Mathlib.Data.List.TakeWhile,
  ShellGloss.Catalog.Bundled, ShellGloss.Proofs.TableScope
Main exports:
  Part, NeedsValue, Line.optionGroup_needsValue_iff, OptionRun, Awaited, FreeIn,
  TailWord, Ending, SudoPart, SimpleCommand, Line.TailAgrees, Line.TailAgrees.step,
  parse_simpleCommand
-/
import Mathlib.Data.List.Basic
import Mathlib.Data.List.TakeWhile
import ShellGloss.Catalog.Bundled
import ShellGloss.Proofs.TableScope

namespace ShellGloss

/-! ### Words by their spelling -/

/-- A dash and more, `--` by itself apart. -/
def OptionShaped (text : Text) : Prop :=
  text.toList.head? = some (.char '-') ∧ 1 < text.length ∧ text ≠ "--"

/-- A name of letters, digits and underscores that starts with no digit, an equals sign and
anything behind it. -/
def Assigns (text : Text) : Prop :=
  ∃ (first : Glyph) (name value : List Glyph), text.toList = first :: (name ++ .char '=' :: value) ∧
    (first.isAlpha = true ∨ first = '_') ∧ ∀ c ∈ name, c.isAlphanum = true ∨ c = '_'

namespace Line

theorem isOptionWord_iff (word : Lexeme) :
    isOptionWord word = true ↔ OptionShaped word.text := by
  unfold isOptionWord OptionShaped
  rw [← Text.length_toList]
  split
  next letter rest spelled => simp [spelled]
  next other =>
    refine ⟨fun no => absurd no Bool.false_ne_true, ?_⟩
    rintro ⟨dash, longer, -⟩
    obtain ⟨tail, spelled⟩ := List.head?_eq_some_iff.mp dash
    cases tail with
    | nil => simp [spelled] at longer
    | cons letter rest => exact absurd spelled (other letter rest)

theorem isAssignment_iff (text : Text) : isAssignment text.toList = true ↔ Assigns text := by
  unfold Assigns
  cases text.toList with
  | nil => simp [isAssignment]
  | cons first rest =>
      simp only [isAssignment, Bool.and_eq_true, Bool.or_eq_true, beq_iff_eq]
      constructor
      · rintro ⟨starts, ends⟩
        obtain ⟨value, behind⟩ := List.head?_eq_some_iff.mp ends
        have halves := List.takeWhile_append_dropWhile
          (p := fun d : Glyph => d.isAlphanum || d == '_') (l := rest)
        rw [behind] at halves
        refine ⟨first, _, value, congrArg (first :: ·) halves.symm, starts, ?_⟩
        intro c among
        simpa using List.mem_takeWhile_imp among
      · rintro ⟨_, name, value, same, starts, named⟩
        obtain ⟨rfl, rfl⟩ := List.cons.inj same
        refine ⟨starts, ?_⟩
        rw [List.dropWhile_append_of_pos]
        · rfl
        · simpa using named

end Line

/-! ### Options that need a value -/

/-- Whether a table has an option of an alias that takes a value. -/
def Table.Takes (table : Table) (spelling : Text) : Prop :=
  ∃ entry, table.option? spelling = some entry ∧ entry.takesValue = true

/-- Whether the value of an option word is to be the next word: an option with two dashes
takes one and brings none behind an equals sign, an alias of one dash takes one, or the last
letter of a cluster does and none in front of it. -/
inductive NeedsValue (table : Table) (word : Lexeme) : Prop where
  | long (dashes : startsLong word.text.toList = true)
      (noEquals : Glyph.char '=' ∉ word.text.toList) (takes : table.Takes word.text)
  | known (notLong : startsLong word.text.toList = false) (takes : table.Takes word.text)
  | letters {front : List Glyph} {letter : Glyph}
      (notLong : startsLong word.text.toList = false)
      (unknown : table.option? word.text = none)
      (spelled : word.text.toList = Glyph.char '-' :: (front ++ [letter]))
      (takes : table.Takes (letterAlias letter))
      (others : ∀ other ∈ front, ¬ table.Takes (letterAlias other))

theorem takesValue_iff (table : Table) (spelling : Text) :
    takesValue (table.option? spelling) = true ↔ table.Takes spelling := by
  rw [takesValue, Option.any_eq_true]
  exact Iff.rfl

theorem clusterGroup_needsValue_iff (table : Table) (lead start : Nat) (letters : List Glyph) :
    (clusterGroup table lead start letters).needsValue = true ↔
      ∃ front letter, letters = front ++ [letter] ∧ table.Takes (letterAlias letter) ∧
        ∀ other ∈ front, ¬ table.Takes (letterAlias other) := by
  induction letters generalizing lead start with
  | nil => simp [clusterGroup]
  | cons letter rest inductionHypothesis =>
      simp only [clusterGroup]
      split
      next takes =>
        rw [takesValue_iff] at takes
        split
        next last =>
          rw [List.isEmpty_iff] at last
          subst last
          exact ⟨fun _ => ⟨[], letter, rfl, takes, by simp⟩, fun _ => rfl⟩
        next more =>
          refine ⟨fun no => absurd no Bool.false_ne_true, ?_⟩
          rintro ⟨front, last, same, -, others⟩
          cases front with
          | nil =>
              obtain ⟨-, rfl⟩ := List.cons.inj same
              exact absurd rfl more
          | cons first tail =>
              obtain ⟨rfl, -⟩ := List.cons.inj same
              exact absurd takes (others letter List.mem_cons_self)
      next takesNot =>
        rw [takesValue_iff] at takesNot
        rw [inductionHypothesis]
        constructor
        · rintro ⟨front, last, rfl, takes, others⟩
          exact ⟨letter :: front, last, rfl, takes, List.forall_mem_cons.mpr ⟨takesNot, others⟩⟩
        · rintro ⟨front, last, same, takes, others⟩
          cases front with
          | nil =>
              obtain ⟨rfl, -⟩ := List.cons.inj same
              exact absurd takes takesNot
          | cons first tail =>
              obtain ⟨-, rfl⟩ := List.cons.inj same
              exact ⟨tail, last, rfl, takes, (List.forall_mem_cons.mp others).2⟩

theorem beforeFirst_eq_self {mark : Glyph} {chars : List Glyph} (without : mark ∉ chars) :
    Text.beforeFirst mark chars = chars := by
  rw [Text.beforeFirst, List.takeWhile_eq_self_iff]
  intro c among
  rw [bne_iff_ne]
  rintro rfl
  exact without among

/-- The value of an option word is awaited if the word needs one. -/
theorem Line.optionGroup_needsValue_iff {word : Lexeme} (isOption : isOptionWord word = true)
    (table : Table) :
    (optionGroup table word).needsValue = true ↔ NeedsValue table word := by
  obtain ⟨letters, spelled⟩ : ∃ letters, word.text.toList = Glyph.char '-' :: letters := by
    obtain ⟨dash, -⟩ := (isOptionWord_iff word).mp isOption
    exact List.head?_eq_some_iff.mp dash
  unfold optionGroup
  split
  next long =>
    simp only [longGroup, Bool.and_eq_true, Bool.not_eq_true', takesValue_iff]
    have contains :
        word.text.toList.contains (.char '=') = false ↔ Glyph.char '=' ∉ word.text.toList := by
      simp
    rw [contains]
    constructor
    · rintro ⟨takes, noEquals⟩
      rw [beforeFirst_eq_self noEquals, Text.ofList_toList] at takes
      exact .long long noEquals takes
    · rintro (⟨-, noEquals, takes⟩ | ⟨notLong, -⟩ | ⟨notLong, -⟩)
      · rw [beforeFirst_eq_self noEquals, Text.ofList_toList]
        exact ⟨takes, noEquals⟩
      · rw [long] at notLong
        cases notLong
      · rw [long] at notLong
        cases notLong
  next short =>
    rw [Bool.not_eq_true] at short
    unfold shortGroup
    split
    next entry known =>
      constructor
      · intro takes
        exact .known short ⟨entry, known, takes⟩
      · rintro (⟨dashes, -⟩ | ⟨-, ⟨other, found, takes⟩⟩ | ⟨-, unknown, -⟩)
        · rw [short] at dashes
          cases dashes
        · rw [known] at found
          cases found
          exact takes
        · rw [known] at unknown
          cases unknown
    next unknown =>
      rw [spelled, List.drop_one, List.tail_cons, clusterGroup_needsValue_iff]
      constructor
      · rintro ⟨front, letter, rfl, takes, others⟩
        exact .letters short unknown spelled takes others
      · rintro (⟨dashes, -⟩ | ⟨-, ⟨entry, known, -⟩⟩ | ⟨-, -, same, takes, others⟩)
        · rw [short] at dashes
          cases dashes
        · rw [unknown] at known
          cases known
        · rw [spelled] at same
          exact ⟨_, _, (List.cons.inj same).2, takes, others⟩

/-! ### The grammar

A simple command is a run of words between control operators, each with the group it was
read as.  What a tail may hold is told for each word from the words in front of it in the
tail, without the progress of the reading.
-/

/-- A word and the group it was read as. -/
structure Part where
  word : Lexeme
  group : List Node

/-- One node of a kind. -/
def Part.Is (kind : Kind) (part : Part) : Prop := part.group.map Node.kind = [kind]

/-- An option group: options and nothing else. -/
def Part.IsOptions (part : Part) : Prop :=
  part.group ≠ [] ∧ ∀ node ∈ part.group, node.IsOption

/-- All nodes of some parts in a row. -/
def Part.nodes (parts : List Part) : List Node := (parts.map Part.group).flatten

/-- Assignments and nothing else. -/
def Assignments (parts : List Part) : Prop :=
  ∀ part ∈ parts, part.Is .assignment ∧ Assigns part.word.text

/-- Option groups in front of `rest`, each with the argument that is its value behind it when
it needs one and a word is left. -/
inductive OptionRun (table : Table) : List Part → List Part → Prop where
  | nil (rest : List Part) : OptionRun table [] rest
  | plain {part : Part} {more rest : List Part} (isOptions : part.IsOptions)
      (shaped : OptionShaped part.word.text) (needsNone : ¬ NeedsValue table part.word)
      (others : OptionRun table more rest) : OptionRun table (part :: more) rest
  | valued {part value : Part} {more rest : List Part} (isOptions : part.IsOptions)
      (shaped : OptionShaped part.word.text) (needs : NeedsValue table part.word)
      (isValue : value.Is .argument) (others : OptionRun table more rest) :
      OptionRun table (part :: value :: more) rest
  | unfinished {part : Part} (isOptions : part.IsOptions)
      (shaped : OptionShaped part.word.text) (needs : NeedsValue table part.word) :
      OptionRun table [part] []

section Tail

-- The scope behind the first parts of a tail.
variable (scope : List Part → Option Scope)

/-- Whether the next word of a tail is the value of the option group right before it. -/
def Awaited (done : List Part) : Prop :=
  ∃ front part here, done = front ++ [part] ∧ part.IsOptions ∧ scope front = some here ∧
    NeedsValue here.table part.word

/-- Whether there is a free word with a property among the first parts of a tail, free
meaning that it is not the value of an option. -/
def FreeIn (holds : Part → Prop) (done : List Part) : Prop :=
  ∃ front part rest, done = front ++ part :: rest ∧ ¬ Awaited scope front ∧ holds part

/-- What a word of a tail may be, by the parts in front of it. -/
structure TailWord (done : List Part) (part : Part) : Prop where
  kinds : part.IsOptions ∨ part.Is .argument ∨ part.Is .subcommand
  /-- The value of an option is an argument. -/
  value : Awaited scope done → part.Is .argument
  /-- A free word is an option group by its spelling, until a free `--` has come. -/
  option_iff : ¬ Awaited scope done →
    (part.IsOptions ↔
      OptionShaped part.word.text ∧ ¬ FreeIn scope (·.word.text = "--") done)
  /-- A free word is a subcommand if no free argument has come and the command in force has a
  subcommand of this name. -/
  subcommand_iff : part.Is .subcommand ↔
    ¬ Awaited scope done ∧ ¬ OptionShaped part.word.text ∧ part.word.text ≠ "--" ∧
      ¬ FreeIn scope (Part.Is .argument) done ∧
      ∃ parent entry, scope done = some (.ofCommand (some parent)) ∧
        parent.subcommand? part.word.text = some entry
  /-- Behind the first free `--` there are arguments only. -/
  ended : FreeIn scope (·.word.text = "--") done → part.Is .argument

/-- The parts behind a program. -/
def Tail (parts : List Part) : Prop :=
  ∀ done part rest, parts = done ++ part :: rest → TailWord scope done part

end Tail

/-- The scope behind a program and the first parts of its tail. -/
def tailScope (catalog : Catalog) (query : Text) (program : Part) (done : List Part) :
    Option Scope :=
  scopeBehind catalog query (Part.nodes (program :: done))

/-- The program with its tail, if words are left for it. -/
inductive Ending (catalog : Catalog) (query : Text) : List Part → Prop where
  | nothing : Ending catalog query []
  | program {program : Part} {tail : List Part} (isProgram : program.Is .program)
      (assignsNot : ¬ Assigns program.word.text)
      (behind : Tail (tailScope catalog query program) tail) :
      Ending catalog query (program :: tail)

/-- `--`, or nothing in front of a word that is neither that nor options. -/
inductive EndMark : List Part → List Part → Prop where
  | dashes {part : Part} (isArgument : part.Is .argument) (spelled : part.word.text = "--")
      (rest : List Part) : EndMark [part] rest
  | missing {rest : List Part}
      (different : ∀ part ∈ rest.head?,
        part.word.text ≠ "--" ∧ ¬ OptionShaped part.word.text) : EndMark [] rest

/-- `sudo` with its options and the assignments it passes on, in front of `rest`; or nothing,
and then the next word is not `sudo`. -/
inductive SudoPart (catalog : Catalog) : List Part → List Part → Prop where
  | missing {rest : List Part} (different : ∀ part ∈ rest.head?, part.word.text ≠ "sudo") :
      SudoPart catalog [] rest
  | present {mark : Part} {options ended environment rest : List Part}
      (isSudo : mark.Is .sudo) (spelled : mark.word.text = "sudo")
      (optionRun : OptionRun (catalog.command? "sudo") options (ended ++ environment ++ rest))
      (endMark : EndMark ended (environment ++ rest))
      (assigned : Assignments environment) :
      SudoPart catalog (mark :: (options ++ ended ++ environment)) rest

/-- A simple command: assignments, perhaps `sudo` and what belongs to it, and the program
with its tail if words are left. -/
def SimpleCommand (catalog : Catalog) (query : Text) (parts : List Part) : Prop :=
  ∃ opening sudoPart rest, parts = opening ++ sudoPart ++ rest ∧ Assignments opening ∧
    SudoPart catalog sudoPart rest ∧ Ending catalog query rest

/-! ### Kinds of groups -/

theorem Part.Is.unique {part : Part} {one two : Kind} (first : part.Is one)
    (second : part.Is two) : one = two := by
  rw [Part.Is, first] at second
  exact List.singleton_inj.mp second

theorem Part.Is.not_isOptions {part : Part} {kind : Kind} (isKind : part.Is kind)
    (notOption : kind ≠ .option) (notSticky : kind ≠ .stickyOption) : ¬ part.IsOptions := by
  rintro ⟨nonempty, areOptions⟩
  obtain ⟨node, rest, group⟩ := List.exists_cons_of_ne_nil nonempty
  rw [Part.Is, group] at isKind
  obtain ⟨rfl, -⟩ := List.cons.inj isKind
  rcases areOptions node (by simp [group]) with option | sticky
  · exact notOption option
  · exact notSticky sticky

namespace Line

theorem optionGroup_isOptions {word : Lexeme} (isOption : isOptionWord word = true)
    (table : Table) : Part.IsOptions ⟨word, (optionGroup table word).nodes⟩ := by
  refine ⟨?_, optionGroup_isOption table word⟩
  obtain ⟨dash, longer, -⟩ := (isOptionWord_iff word).mp isOption
  obtain ⟨letters, spelled⟩ := List.head?_eq_some_iff.mp dash
  rw [← Text.length_toList, spelled] at longer
  cases letters with
  | nil => simp at longer
  | cons letter rest =>
      unfold optionGroup
      split
      · exact List.cons_ne_nil _ _
      · unfold shortGroup
        split
        · exact List.cons_ne_nil _ _
        · rw [spelled]
          simp only [List.drop_one, List.tail_cons, clusterGroup]
          split
          · split <;> exact List.cons_ne_nil _ _
          · exact List.cons_ne_nil _ _

/-! ### The tail, word by word -/

section

variable {scope : List Part → Option Scope} {done : List Part} {part : Part}

theorem awaited_snoc_iff {here : Scope} (inForce : scope done = some here) :
    Awaited scope (done ++ [part]) ↔ part.IsOptions ∧ NeedsValue here.table part.word := by
  constructor
  · rintro ⟨front, last, other, same, isOptions, found, needs⟩
    obtain ⟨rfl, lasts⟩ := List.append_inj' same rfl
    obtain rfl := List.singleton_inj.mp lasts
    rw [inForce] at found
    cases found
    exact ⟨isOptions, needs⟩
  · rintro ⟨isOptions, needs⟩
    exact ⟨done, part, here, rfl, isOptions, inForce, needs⟩

theorem freeIn_snoc_iff {holds : Part → Prop} :
    FreeIn scope holds (done ++ [part]) ↔
      FreeIn scope holds done ∨ (¬ Awaited scope done ∧ holds part) := by
  constructor
  · rintro ⟨front, found, rest, same, free, held⟩
    rcases List.eq_nil_or_concat' rest with rfl | ⟨others, last, rfl⟩
    · obtain ⟨rfl, lasts⟩ := List.append_inj' same rfl
      obtain rfl := List.singleton_inj.mp lasts
      exact .inr ⟨free, held⟩
    · have regrouped : done ++ [part] = (front ++ found :: others) ++ [last] := by
        rw [same, List.append_assoc, List.cons_append]
      obtain ⟨rfl, -⟩ := List.append_inj' regrouped rfl
      exact .inl ⟨front, found, others, rfl, free, held⟩
  · rintro (⟨front, found, rest, rfl, free, held⟩ | ⟨free, held⟩)
    · refine ⟨front, found, rest ++ [part], ?_, free, held⟩
      rw [List.append_assoc, List.cons_append]
    · exact ⟨done, part, [], rfl, free, held⟩

end

/-- What the progress of a tail says about the parts that have been read: the table in force,
whether a value is awaited, and whether a free `--` or a free argument has come. -/
structure TailAgrees (scope : List Part → Option Scope) (done : List Part) (table : Table)
    (mode : TailMode) (awaits : Bool) : Prop where
  inForce : scope done = some (.ofCommand table)
  awaits_iff : awaits = true ↔ Awaited scope done
  ended_iff : mode = .ended ↔ FreeIn scope (·.word.text = "--") done
  commands_iff : mode = .commands ↔ ¬ FreeIn scope (Part.Is .argument) done

theorem TailAgrees.free {scope : List Part → Option Scope} {done : List Part} {table : Table}
    {mode : TailMode} (agrees : TailAgrees scope done table mode false) :
    ¬ Awaited scope done := by
  intro awaited
  exact Bool.false_ne_true (agrees.awaits_iff.mpr awaited)

/-- One more part of a tail, by what it changes. -/
theorem TailAgrees.snoc {scope : List Part → Option Scope} {done : List Part} {part : Part}
    {table next : Table} {mode nextMode : TailMode} {awaits nextAwaits : Bool}
    (agrees : TailAgrees scope done table mode awaits)
    (inForce : scope (done ++ [part]) = some (.ofCommand next))
    (awaiting : nextAwaits = true ↔ part.IsOptions ∧ NeedsValue table part.word)
    (ended : nextMode = .ended ↔ mode = .ended ∨ (awaits = false ∧ part.word.text = "--"))
    (commands : nextMode = .commands ↔
      mode = .commands ∧ ¬ (awaits = false ∧ part.Is .argument)) :
    TailAgrees scope (done ++ [part]) next nextMode nextAwaits := by
  have free : awaits = false ↔ ¬ Awaited scope done := by
    rw [← agrees.awaits_iff, Bool.not_eq_true]
  refine ⟨inForce, ?_, ?_, ?_⟩
  · rw [awaiting, awaited_snoc_iff agrees.inForce]
    rfl
  · rw [ended, freeIn_snoc_iff, agrees.ended_iff, free]
  · rw [commands, freeIn_snoc_iff, agrees.commands_iff, free, not_or]

theorem tailScope_snoc (catalog : Catalog) (query : Text) (program : Part)
    (done : List Part) (part : Part) :
    tailScope catalog query program (done ++ [part]) =
      scopeBehind catalog query (Part.nodes (program :: done) ++ part.group) := by
  simp [tailScope, Part.nodes]

theorem isEndOfOptions_iff (word : Lexeme) :
    isEndOfOptions word = true ↔ word.text = "--" := beq_iff_eq

theorem argument_is (word : Lexeme) : Part.Is .argument ⟨word, argument word⟩ := rfl

theorem argument_not_isOptions (word : Lexeme) : ¬ Part.IsOptions ⟨word, argument word⟩ :=
  (argument_is word).not_isOptions Kind.noConfusion Kind.noConfusion

/-- An argument is in its place where neither an option nor a subcommand could stand. -/
theorem argument_tailWord {scope : List Part → Option Scope} {done : List Part} (word : Lexeme)
    (notOption : ¬ Awaited scope done → OptionShaped word.text →
      FreeIn scope (·.word.text = "--") done)
    (notSubcommand : ¬ Awaited scope done → ¬ OptionShaped word.text → word.text ≠ "--" →
      ¬ FreeIn scope (Part.Is .argument) done → ∀ parent,
        scope done = some (.ofCommand (some parent)) → parent.subcommand? word.text = none) :
    TailWord scope done ⟨word, argument word⟩ where
  kinds := .inr (.inl (argument_is word))
  value := fun _ => argument_is word
  option_iff := by
    intro free
    refine ⟨fun isOptions => absurd isOptions (argument_not_isOptions word), ?_⟩
    rintro ⟨shaped, goesOn⟩
    exact absurd (notOption free shaped) goesOn
  subcommand_iff := by
    constructor
    · intro isSubcommand
      cases (argument_is word).unique isSubcommand
    · rintro ⟨free, notShaped, notEnd, noArgument, parent, entry, inForce, found⟩
      rw [notSubcommand free notShaped notEnd noArgument parent inForce] at found
      cases found
  ended := fun _ => argument_is word

section

variable {catalog : Catalog} {query : Text} {program : Part} {done : List Part}
  {table : Table} {mode : TailMode} {awaits : Bool} {word : Lexeme} {group : List Node}
  {next : Progress}

/-- One word of a tail is what the parts in front of it allow. -/
theorem TailAgrees.tailWord
    (agrees : TailAgrees (tailScope catalog query program) done table mode awaits)
    (isWord : word.control = false)
    (reading : Reading catalog word ⟨.tail table mode, awaits⟩ group next) :
    TailWord (tailScope catalog query program) done ⟨word, group⟩ := by
  cases reading with
  | control isControl =>
      rw [isWord] at isControl
      cases isControl
  | value =>
      have awaited := agrees.awaits_iff.mp rfl
      apply argument_tailWord
      · intro free
        exact absurd awaited free
      · intro free
        exact absurd awaited free
  | assignment _ leads => cases leads
  | program _ leads => cases leads
  | tailEnded =>
      have ended := agrees.ended_iff.mp rfl
      apply argument_tailWord
      · intro _ _
        exact ended
      · intro _ _ _ noArgument
        cases agrees.commands_iff.mpr noArgument
  | tailEnd _ goesOn ends =>
      rw [isEndOfOptions_iff] at ends
      apply argument_tailWord
      · intro _ shaped
        exact absurd ends shaped.2.2
      · intro _ _ notEnd
        exact absurd ends notEnd
  | tailOption _ goesOn isOption =>
      have free := agrees.free
      have isOptions := optionGroup_isOptions isOption table
      have shaped := (isOptionWord_iff word).mp isOption
      have notEnded : ¬ FreeIn _ _ done := fun ended => goesOn (agrees.ended_iff.mpr ended)
      refine ⟨.inl isOptions, fun awaited => absurd awaited free, ?_, ?_, ?_⟩
      · intro _
        exact ⟨fun _ => ⟨shaped, notEnded⟩, fun _ => isOptions⟩
      · constructor
        · intro isSubcommand
          exact absurd isOptions
            (isSubcommand.not_isOptions Kind.noConfusion Kind.noConfusion)
        · rintro ⟨-, notShaped, -⟩
          exact absurd shaped notShaped
      · intro ended
        exact absurd ended notEnded
  | @subcommand table entry _ notEnd notOption known =>
      have free := agrees.free
      have isSubcommand : Part.Is .subcommand
          ⟨word, whole word (.subcommand (CommandInfo.of (some entry) word.text))⟩ := rfl
      rw [← Bool.not_eq_true, isEndOfOptions_iff] at notEnd
      rw [← Bool.not_eq_true, isOptionWord_iff] at notOption
      obtain ⟨parent, rfl, found⟩ := Option.bind_eq_some_iff.mp known
      refine ⟨.inr (.inr isSubcommand), fun awaited => absurd awaited free, ?_, ?_, ?_⟩
      · intro _
        constructor
        · intro isOptions
          exact absurd isOptions
            (isSubcommand.not_isOptions Kind.noConfusion Kind.noConfusion)
        · rintro ⟨shaped, -⟩
          exact absurd shaped notOption
      · exact ⟨fun _ => ⟨free, notOption, notEnd, agrees.commands_iff.mp rfl, parent, entry,
          agrees.inForce, found⟩, fun _ => isSubcommand⟩
      · intro ended
        cases agrees.ended_iff.mpr ended
  | tailArgument _ goesOn notEnd notOption unknown =>
      rw [← Bool.not_eq_true, isOptionWord_iff] at notOption
      apply argument_tailWord
      · intro _ shaped
        exact absurd shaped notOption
      · intro _ _ _ noArgument parent inForce
        rw [agrees.inForce] at inForce
        cases inForce
        exact unknown (agrees.commands_iff.mpr noArgument)

/-- Behind one word of a tail the progress agrees with one part more. -/
theorem TailAgrees.step
    (agrees : TailAgrees (tailScope catalog query program) done table mode awaits)
    (isWord : word.control = false) (stands : word.StandsIn query)
    (reading : Reading catalog word ⟨.tail table mode, awaits⟩ group next) :
    ∃ nextTable nextMode nextAwaits, next = ⟨.tail nextTable nextMode, nextAwaits⟩ ∧
      TailAgrees (tailScope catalog query program) (done ++ [⟨word, group⟩]) nextTable
        nextMode nextAwaits := by
  have behind := reading.agrees stands agrees.inForce
  rw [← tailScope_snoc catalog query program done ⟨word, group⟩] at behind
  have notOptions := argument_not_isOptions word
  have isArgument := argument_is word
  cases reading with
  | control isControl =>
      rw [isWord] at isControl
      cases isControl
  | value => exact ⟨_, _, _, rfl, agrees.snoc behind (by simp [notOptions]) (by simp) (by simp)⟩
  | assignment _ leads => cases leads
  | program _ leads => cases leads
  | tailEnded =>
      exact ⟨_, _, _, rfl, agrees.snoc behind (by simp [notOptions]) (by simp) (by simp)⟩
  | tailEnd _ goesOn ends =>
      rw [isEndOfOptions_iff] at ends
      exact ⟨_, _, _, rfl,
        agrees.snoc behind (by simp [notOptions]) (by simp [ends]) (by simp [isArgument])⟩
  | tailOption _ goesOn isOption =>
      have isOptions := optionGroup_isOptions isOption table
      have shaped := (isOptionWord_iff word).mp isOption
      have notArgument : ¬ Part.Is .argument ⟨word, (optionGroup table word).nodes⟩ :=
        fun argument =>
          argument.not_isOptions Kind.noConfusion Kind.noConfusion isOptions
      refine ⟨_, _, _, rfl, agrees.snoc behind ?_ (by simp [shaped.2.2]) (by simp [notArgument])⟩
      rw [optionGroup_needsValue_iff isOption]
      exact ⟨fun needs => ⟨isOptions, needs⟩, fun needed => needed.2⟩
  | @subcommand table entry _ notEnd notOption known =>
      have isSubcommand : Part.Is .subcommand
          ⟨word, whole word (.subcommand (CommandInfo.of (some entry) word.text))⟩ := rfl
      have notArgument : ¬ Part.Is .argument
          ⟨word, whole word (.subcommand (CommandInfo.of (some entry) word.text))⟩ :=
        fun argument => absurd (argument.unique isSubcommand) Kind.noConfusion
      have noOptions := isSubcommand.not_isOptions Kind.noConfusion Kind.noConfusion
      rw [← Bool.not_eq_true, isEndOfOptions_iff] at notEnd
      exact ⟨_, _, _, rfl, agrees.snoc behind (by simp [noOptions]) (by simp [notEnd])
        (by simp [notArgument])⟩
  | tailArgument _ goesOn notEnd =>
      rw [← Bool.not_eq_true, isEndOfOptions_iff] at notEnd
      exact ⟨_, _, _, rfl, agrees.snoc behind (by simp [notOptions]) (by simp [goesOn, notEnd])
        (by simp [isArgument])⟩

end

/-! ### A run of words, stage by stage -/

/-- The parts that some words are read as from a progress on. -/
def readParts (catalog : Catalog) (progress : Progress) (words : List Lexeme) : List Part :=
  words.zipWith Part.mk (groups catalog progress words)

theorem readParts_cons (catalog : Catalog) (progress : Progress) (word : Lexeme)
    (rest : List Lexeme) :
    ∃ group next, Reading catalog word progress group next ∧
      readParts catalog progress (word :: rest) =
        ⟨word, group⟩ :: readParts catalog next rest :=
  ⟨_, _, step_reading catalog progress word, rfl⟩

/-- What is asked of the words of a run: none is a control operator, and all stand in the
query. -/
def Run (query : Text) (words : List Lexeme) : Prop :=
  ∀ word ∈ words, word.control = false ∧ word.StandsIn query

/-- The words behind a program are a tail. -/
theorem TailAgrees.tail {catalog : Catalog} {query : Text} {program : Part}
    {done : List Part} {table : Table} {mode : TailMode} {awaits : Bool}
    (agrees : TailAgrees (tailScope catalog query program) done table mode awaits)
    {words : List Lexeme} (run : Run query words) {front : List Part} {part : Part}
    {rest : List Part}
    (split : readParts catalog ⟨.tail table mode, awaits⟩ words = front ++ part :: rest) :
    TailWord (tailScope catalog query program) (done ++ front) part := by
  -- `done` has been read; each word goes over to it with what its progress says.
  induction words generalizing done table mode awaits front with
  | nil => simp [readParts] at split
  | cons word words inductionHypothesis =>
      obtain ⟨⟨isWord, stands⟩, run⟩ := List.forall_mem_cons.mp run
      obtain ⟨group, next, reading, parts⟩ := readParts_cons catalog ⟨.tail table mode, awaits⟩
        word words
      rw [parts] at split
      cases front with
      | nil =>
          obtain ⟨rfl, -⟩ := List.cons.inj split
          rw [List.append_nil]
          exact agrees.tailWord isWord reading
      | cons first others =>
          obtain ⟨rfl, later⟩ := List.cons.inj split
          obtain ⟨_, _, _, rfl, agreesBehind⟩ := agrees.step isWord stands reading
          have found := inductionHypothesis agreesBehind run later
          rw [List.append_assoc] at found
          exact found

theorem ending_program {catalog : Catalog} {query : Text} {word : Lexeme}
    (stands : word.StandsIn query) (assignsNot : isAssignment word.text.toList = false)
    {rest : List Lexeme} (run : Run query rest) :
    Ending catalog query
      (⟨word, whole word (.program (CommandInfo.of (catalog.command? word.text) word.text))⟩ ::
        readParts catalog ⟨.tail (catalog.command? word.text) .commands, false⟩ rest) := by
  refine .program rfl ?_ ?_
  · rw [← isAssignment_iff, assignsNot]
    exact Bool.false_ne_true
  · intro done part others split
    have start : TailAgrees (tailScope catalog query ⟨word, whole word
        (.program (CommandInfo.of (catalog.command? word.text) word.text))⟩) []
        (catalog.command? word.text) .commands false := by
      refine ⟨?_, ?_, ?_, ?_⟩
      · exact congrArg (fun text => some (Scope.ofCommand (catalog.command? text)))
          (stands.text_eq _)
      · simp [Awaited]
      · simp [FreeIn]
      · simp [FreeIn]
    exact start.tail run split

/-- Assignments, then the program with its tail if words are left. -/
def Leading (catalog : Catalog) (query : Text) (parts : List Part) : Prop :=
  ∃ environment rest, parts = environment ++ rest ∧ Assignments environment ∧
    Ending catalog query rest

theorem assignments_nil : Assignments [] := by simp [Assignments]

theorem assignments_cons {word : Lexeme} (assigns : isAssignment word.text.toList = true)
    {parts : List Part} (others : Assignments parts) :
    Assignments (⟨word, whole word (.assignment word.text)⟩ :: parts) :=
  List.forall_mem_cons.mpr ⟨⟨rfl, (isAssignment_iff word.text).mp assigns⟩, others⟩

theorem Leading.cons {catalog : Catalog} {query : Text} {parts : List Part}
    (leading : Leading catalog query parts) {word : Lexeme}
    (assigns : isAssignment word.text.toList = true) :
    Leading catalog query (⟨word, whole word (.assignment word.text)⟩ :: parts) := by
  obtain ⟨environment, rest, rfl, assigned, ending⟩ := leading
  exact ⟨_ :: environment, rest, rfl, assignments_cons assigns assigned, ending⟩

theorem leading_of_ending {catalog : Catalog} {query : Text} {parts : List Part}
    (ending : Ending catalog query parts) : Leading catalog query parts :=
  ⟨[], parts, rfl, assignments_nil, ending⟩

/-- The words behind the options of `sudo`. -/
theorem readParts_environment (catalog : Catalog) {query : Text} {words : List Lexeme}
    (run : Run query words) :
    Leading catalog query (readParts catalog ⟨.environment, false⟩ words) := by
  induction words with
  | nil => exact leading_of_ending .nothing
  | cons word words inductionHypothesis =>
      obtain ⟨⟨isWord, stands⟩, run⟩ := List.forall_mem_cons.mp run
      obtain ⟨group, next, reading, parts⟩ := readParts_cons catalog ⟨.environment, false⟩
        word words
      rw [parts]
      cases reading with
      | control isControl =>
          rw [isWord] at isControl
          cases isControl
      | assignment _ leads assigns =>
          cases leads
          exact (inductionHypothesis run).cons assigns
      | program _ leads assignsNot => exact leading_of_ending (ending_program stands assignsNot run)

/-- Behind `sudo`: its options, perhaps `--`, assignments and the program. -/
def SudoRest (catalog : Catalog) (query : Text) (table : Table) (parts : List Part) : Prop :=
  ∃ options ended environment rest, parts = options ++ ended ++ environment ++ rest ∧
    OptionRun table options (ended ++ environment ++ rest) ∧
    EndMark ended (environment ++ rest) ∧ Assignments environment ∧
    Ending catalog query rest

/-- What is left when a word is neither `--` nor options. -/
theorem Leading.sudoRest {catalog : Catalog} {query : Text} {parts : List Part}
    (leading : Leading catalog query parts) (table : Table)
    (different : ∀ part ∈ parts.head?,
      part.word.text ≠ "--" ∧ ¬ OptionShaped part.word.text) :
    SudoRest catalog query table parts := by
  obtain ⟨environment, rest, rfl, assigned, ending⟩ := leading
  exact ⟨[], [], environment, rest, rfl, .nil _, .missing different, assigned, ending⟩

/-- The words behind `sudo` as one of its options leaves them: the value first if it needs
one. -/
def SudoAwaits (catalog : Catalog) (query : Text) (table : Table) (parts : List Part) :
    Prop :=
  parts = [] ∨ ∃ value more, parts = value :: more ∧ value.Is .argument ∧
    SudoRest catalog query table more

theorem SudoRest.option {catalog : Catalog} {query : Text} {table : Table} {word : Lexeme}
    (isOption : isOptionWord word = true) {parts : List Part}
    (free : (optionGroup table word).needsValue = false → SudoRest catalog query table parts)
    (awaiting : (optionGroup table word).needsValue = true →
      SudoAwaits catalog query table parts) :
    SudoRest catalog query table (⟨word, (optionGroup table word).nodes⟩ :: parts) := by
  have isOptions := optionGroup_isOptions isOption table
  have shaped := (isOptionWord_iff word).mp isOption
  have needs := optionGroup_needsValue_iff isOption table
  cases needed : (optionGroup table word).needsValue with
  | false =>
      have needsNone : ¬ NeedsValue table word := by
        rw [← needs, needed]
        exact Bool.false_ne_true
      obtain ⟨options, ended, environment, rest, rfl, optionRun, others⟩ := free needed
      exact ⟨_ :: options, ended, environment, rest, rfl,
        .plain isOptions shaped needsNone optionRun, others⟩
  | true =>
      have asked := needs.mp needed
      rcases awaiting needed with rfl | ⟨value, more, rfl, isValue, behind⟩
      · have noMark : EndMark [] [] := .missing (by simp)
        exact ⟨[_], [], [], [], rfl, .unfinished isOptions shaped asked, noMark,
          assignments_nil, .nothing⟩
      · obtain ⟨options, ended, environment, rest, rfl, optionRun, others⟩ := behind
        exact ⟨_ :: value :: options, ended, environment, rest, rfl,
          .valued isOptions shaped asked isValue optionRun, others⟩

/-- A word that leads behind the options of `sudo` is neither `--` nor options. -/
theorem Leads.different {word : Lexeme} {table : Table} {next : Stage}
    (leads : Leads word (.sudoOptions table) next) :
    word.text ≠ "--" ∧ ¬ OptionShaped word.text := by
  cases leads with
  | sudoOptions _ notEnd notOption =>
      rw [← Bool.not_eq_true, isEndOfOptions_iff] at notEnd
      rw [← Bool.not_eq_true, isOptionWord_iff] at notOption
      exact ⟨notEnd, notOption⟩

/-- The words behind `sudo`, with no value awaited and with one. -/
theorem readParts_sudoOptions (catalog : Catalog) {query : Text} (table : Table)
    {words : List Lexeme} (run : Run query words) :
    SudoRest catalog query table (readParts catalog ⟨.sudoOptions table, false⟩ words) ∧
      SudoAwaits catalog query table
        (readParts catalog ⟨.sudoOptions table, true⟩ words) := by
  -- Both at once: an option that needs a value hands over to the second, a value to the first.
  induction words with
  | nil =>
      have nothingLeft : Leading catalog query [] := leading_of_ending .nothing
      exact ⟨nothingLeft.sudoRest table (by simp), .inl rfl⟩
  | cons word words inductionHypothesis =>
      obtain ⟨⟨isWord, stands⟩, run⟩ := List.forall_mem_cons.mp run
      obtain ⟨free, awaiting⟩ := inductionHypothesis run
      constructor
      · obtain ⟨group, next, reading, parts⟩ :=
          readParts_cons catalog ⟨.sudoOptions table, false⟩ word words
        rw [parts]
        cases reading with
        | control isControl =>
            rw [isWord] at isControl
            cases isControl
        | assignment _ leads assigns =>
            have different := leads.different
            cases leads
            apply ((readParts_environment catalog run).cons assigns).sudoRest
            rintro part ⟨⟩
            exact different
        | program _ leads assignsNot =>
            apply (leading_of_ending (ending_program stands assignsNot run)).sudoRest
            rintro part ⟨⟩
            exact leads.different
        | sudoOption _ isOption =>
            refine .option isOption ?_ ?_
            · intro needed
              rw [needed]
              exact free
            · intro needed
              rw [needed]
              exact awaiting
        | sudoEnd _ ends =>
            rw [isEndOfOptions_iff] at ends
            obtain ⟨environment, rest, same, assigned, ending⟩ :=
              readParts_environment catalog run
            exact ⟨[], [_], environment, rest, congrArg (_ :: ·) same, .nil _,
              .dashes (argument_is word) ends _, assigned, ending⟩
      · obtain ⟨group, next, reading, parts⟩ :=
          readParts_cons catalog ⟨.sudoOptions table, true⟩ word words
        rw [parts]
        cases reading with
        | control isControl =>
            rw [isWord] at isControl
            cases isControl
        | value => exact .inr ⟨_, _, rfl, argument_is word, free⟩

/-- A run of words is a simple command. -/
theorem readParts_simpleCommand (catalog : Catalog) {query : Text} {words : List Lexeme}
    (run : Run query words) :
    SimpleCommand catalog query (readParts catalog ⟨.opening, false⟩ words) := by
  induction words with
  | nil =>
      have noSudo : SudoPart catalog [] [] := .missing (by simp)
      exact ⟨[], [], [], rfl, assignments_nil, noSudo, .nothing⟩
  | cons word words inductionHypothesis =>
      obtain ⟨⟨isWord, stands⟩, run⟩ := List.forall_mem_cons.mp run
      obtain ⟨group, next, reading, parts⟩ := readParts_cons catalog ⟨.opening, false⟩
        word words
      rw [parts]
      cases reading with
      | control isControl =>
          rw [isWord] at isControl
          cases isControl
      | callsSudo _ spelled =>
          obtain ⟨options, ended, environment, rest, same, optionRun, endMark, assigned,
            ending⟩ := (readParts_sudoOptions catalog (catalog.command? "sudo") run).1
          have isSudo : Part.Is .sudo ⟨word,
              whole word (.sudo (CommandInfo.of (catalog.command? "sudo") "sudo"))⟩ := rfl
          rw [same]
          refine ⟨[], _, rest, ?_, assignments_nil,
            .present isSudo spelled optionRun endMark assigned, ending⟩
          simp
      | assignment _ leads assigns =>
          cases leads
          obtain ⟨opening, sudoPart, rest, same, assigned, others⟩ := inductionHypothesis run
          exact ⟨_ :: opening, sudoPart, rest, congrArg (_ :: ·) same,
            assignments_cons assigns assigned, others⟩
      | program _ leads assignsNot =>
          obtain notSudo | _ | _ := leads
          refine ⟨[], [], _, rfl, assignments_nil, .missing ?_,
            ending_program stands assignsNot run⟩
          rintro part ⟨⟩
          exact notSudo

/-! ### The runs of a line -/

theorem advance_append (catalog : Catalog) (progress : Progress)
    (first second : List Lexeme) :
    advance catalog progress (first ++ second) =
      advance catalog (advance catalog progress first) second := by
  induction first generalizing progress with
  | nil => rfl
  | cons lexeme rest inductionHypothesis => exact inductionHypothesis _

/-- Nothing is carried across a control operator. -/
theorem advance_initial (catalog : Catalog) {before : List Lexeme}
    (opens : ∀ lexeme ∈ before.getLast?, lexeme.control = true) :
    advance catalog .initial before = .initial := by
  rcases List.eq_nil_or_concat' before with rfl | ⟨front, operator, rfl⟩
  · rfl
  · have isControl : operator.control = true := opens operator (by simp)
    rw [advance_append, advance, step, if_pos isControl]
    rfl

/-- The words of `list` between two control operators, or the ends of the line, behind
`before` and in front of `after`. -/
structure Between (list before run after : List Lexeme) : Prop where
  split : list = before ++ run ++ after
  words : ∀ word ∈ run, word.control = false
  opens : ∀ lexeme ∈ before.getLast?, lexeme.control = true
  closes : ∀ lexeme ∈ after.head?, lexeme.control = true

/-- The groups of a run are those it would have by itself. -/
theorem Between.groups_eq {list before run after : List Lexeme}
    (between : Between list before run after) (catalog : Catalog) :
    ((groups catalog .initial list).drop before.length).take run.length =
      groups catalog .initial run := by
  rw [between.split, List.append_assoc, groups_append, groups_append,
    advance_initial catalog between.opens]
  have skipped := length_groups catalog .initial before
  have taken := length_groups catalog .initial run
  rw [← skipped, List.drop_left, ← taken, List.take_left]

end Line

/-- Every run of words between control operators is a simple command, as its groups are. -/
theorem parse_simpleCommand {catalog : Catalog} {query : Text} {groups : List (List Node)}
    (parsed : parse catalog query = some groups) :
    ∃ list, lexemes query = .ok list ∧ list.length = groups.length ∧
      ∀ before run after, Line.Between list before run after →
        SimpleCommand catalog query
          (run.zipWith Part.mk ((groups.drop before.length).take run.length)) := by
  obtain ⟨list, closed, -, rfl⟩ := parse_eq_some_iff.mp parsed
  refine ⟨list, closed, (Line.length_groups catalog .initial list).symm, ?_⟩
  intro before run after between
  have stand := lexemes_standIn closed
  have isRun : Line.Run query run := by
    intro word among
    have inLine : word ∈ list := by
      rw [between.split]
      simp [among]
    exact ⟨between.words word among, stand word inLine⟩
  rw [between.groups_eq catalog]
  exact Line.readParts_simpleCommand catalog isRun

theorem parse_simpleCommand_value_dashes :
    ∃ groups,
      parse Catalog.bundled "A=1 sudo -u -- B=2 git -C -- log -n 3 -- -x; ls" = some groups ∧
        ∃ list, lexemes "A=1 sudo -u -- B=2 git -C -- log -n 3 -- -x; ls" = .ok list ∧
          list.length = groups.length ∧
          ∀ before run after, Line.Between list before run after →
            SimpleCommand Catalog.bundled "A=1 sudo -u -- B=2 git -C -- log -n 3 -- -x; ls"
              (run.zipWith Part.mk ((groups.drop before.length).take run.length)) := by
  have answered : (parse Catalog.bundled
      "A=1 sudo -u -- B=2 git -C -- log -n 3 -- -x; ls").isSome = true := by
    decide +kernel
  obtain ⟨groups, parsed⟩ := Option.isSome_iff_exists.mp answered
  exact ⟨groups, parsed, parse_simpleCommand parsed⟩

end ShellGloss
