/-
Module: ShellGloss.Proofs.ArgumentGrammar
Purpose: The arguments that are accepted are settings one behind the other, of which the last
  of each sort counts; any others are refused for the first place where no setting stands.
Imports: Mathlib.Data.List.Induction, ShellGloss.Arguments
Main exports:
  Setting, Setting.words, Setting.Placed, Setting.Fault, Setting.Yields,
  Setting.exists_settings, readArguments_grammar
-/
import Mathlib.Data.List.Induction
import ShellGloss.Arguments

namespace ShellGloss

/-- One setting of a run, as it is given. -/
inductive Setting where
  | query (value : Text)
  | catalogFile (path : Text)
  | logFile (path : Text)
  | noColor
deriving Repr, Inhabited, DecidableEq

namespace Setting

/-- The arguments that give a setting.  A value is any text, also one that looks like a flag. -/
def words : Setting → List Text
  | .query value => ["--query", value]
  | .catalogFile path => ["--knowledge", path]
  | .logFile path => ["--log", path]
  | .noColor => ["--no-color"]

def query? : Setting → Option Text
  | .query value => some value
  | _ => none

def catalogPath? : Setting → Option Text
  | .catalogFile path => some path
  | _ => none

def logPath? : Setting → Option Text
  | .logFile path => some path
  | _ => none

/-- The path of the setting, if it has one, names a place. -/
def Placed (around : Surroundings) : Setting → Prop
  | .catalogFile path | .logFile path => ∃ location, mapPath around path = .ok location
  | .query _ | .noColor => True

/-- Settings and the arguments that give them, all paths among them being those of places. -/
structure Spells (around : Surroundings) (settings : List Setting) (argv : List Text) :
    Prop where
  words_eq : settings.flatMap words = argv
  placed : ∀ setting ∈ settings, setting.Placed around

/-- Arguments that do not start with a setting, and what is wrong with them. -/
inductive Fault (around : Surroundings) : List Text → ArgumentError → Prop where
  | unknown {word : Text} {rest : List Text}
      (noFlag : word ∉ (["--query", "--knowledge", "--log", "--no-color"] : List Text)) :
      Fault around (word :: rest) (.unknown word)
  | missingValue {flag : Text}
      (takesValue : flag ∈ (["--query", "--knowledge", "--log"] : List Text)) :
      Fault around [flag] (.missingValue flag)
  | badPath {flag path : Text} {rest : List Text} {error : PathError}
      (takesPath : flag ∈ (["--knowledge", "--log"] : List Text))
      (refused : mapPath around path = .error error) :
      Fault around (flag :: path :: rest) (.badPath flag error)

/-- What settings come to: the last of each sort counts, and colors are on if neither a setting
nor the variable against them says otherwise. -/
structure Yields (around : Surroundings) (settings : List Setting) (arguments : Arguments) :
    Prop where
  query : arguments.query = (settings.filterMap query?).getLast?
  catalogFile : arguments.catalogFile.map .ok =
    (settings.filterMap catalogPath?).getLast?.map (mapPath around)
  logFile : arguments.logFile.map .ok =
    (settings.filterMap logPath?).getLast?.map (mapPath around)
  color : arguments.color = true ↔
    (around.noColor = none ∨ around.noColor = some "") ∧ .noColor ∉ settings

/-! ### One setting -/

/-- The arguments so far with one more setting. -/
def apply (around : Surroundings) (sofar : Arguments) : Setting → Arguments
  | .query value => { sofar with query := some value }
  | .catalogFile path => { sofar with catalogFile := (mapPath around path).toOption }
  | .logFile path => { sofar with logFile := (mapPath around path).toOption }
  | .noColor => { sofar with color := false }

theorem collect_words {around : Surroundings} {setting : Setting}
    (placed : setting.Placed around) (sofar : Arguments) (rest : List Text) :
    Arguments.collect around sofar (setting.words ++ rest) =
      Arguments.collect around (setting.apply around sofar) rest := by
  cases setting with
  | query value => rfl
  | catalogFile path =>
      obtain ⟨location, mapped⟩ := placed
      simp [words, Arguments.collect, Arguments.place, apply, mapped, Except.toOption]
  | logFile path =>
      obtain ⟨location, mapped⟩ := placed
      simp [words, Arguments.collect, Arguments.place, apply, mapped, Except.toOption]
  | noColor => cases rest <;> rfl

theorem Fault.collect_eq {around : Surroundings} {argv : List Text} {error : ArgumentError}
    (fault : Fault around argv error) (sofar : Arguments) :
    Arguments.collect around sofar argv = .error error := by
  cases fault with
  | @unknown word rest noFlag =>
      simp only [List.mem_cons, List.not_mem_nil, or_false, not_or] at noFlag
      obtain ⟨notQuery, notCatalog, notLog, notColor⟩ := noFlag
      cases rest <;> simp [Arguments.collect, notQuery, notCatalog, notLog, notColor]
  | missingValue takesValue =>
      simp only [List.mem_cons, List.not_mem_nil, or_false] at takesValue
      rcases takesValue with rfl | rfl | rfl <;> simp [Arguments.collect]
  | badPath takesPath refused =>
      simp only [List.mem_cons, List.not_mem_nil, or_false] at takesPath
      rcases takesPath with rfl | rfl <;> simp [Arguments.collect, Arguments.place, refused]

/-- A path at the head of some arguments is that of a setting, or it names no place. -/
theorem placed_or_fault (around : Surroundings) {flag : Text}
    (takesPath : flag ∈ (["--knowledge", "--log"] : List Text)) (path : Text) (rest : List Text) :
    (∃ setting, flag :: path :: rest = words setting ++ rest ∧ setting.Placed around) ∨
      ∃ error, Fault around (flag :: path :: rest) error := by
  cases mapped : mapPath around path with
  | error error => exact .inr ⟨_, .badPath takesPath mapped⟩
  | ok location =>
      simp only [List.mem_cons, List.not_mem_nil, or_false] at takesPath
      refine .inl ?_
      rcases takesPath with rfl | rfl
      · exact ⟨.catalogFile path, rfl, location, mapped⟩
      · exact ⟨.logFile path, rfl, location, mapped⟩

/-- Arguments start with a setting, or something is wrong with them. -/
theorem setting_or_fault (around : Surroundings) (word : Text) (behind : List Text) :
    (∃ setting rest, word :: behind = words setting ++ rest ∧ setting.Placed around) ∨
      ∃ error, Fault around (word :: behind) error := by
  by_cases noColor : word = "--no-color"
  · exact .inl ⟨.noColor, behind, by rw [noColor]; rfl, trivial⟩
  by_cases takesValue : word ∈ (["--query", "--knowledge", "--log"] : List Text)
  · cases behind with
    | nil => exact .inr ⟨_, .missingValue takesValue⟩
    | cons value rest =>
        rcases List.mem_cons.mp takesValue with rfl | takesPath
        · exact .inl ⟨.query value, rest, rfl, trivial⟩
        · rcases placed_or_fault around takesPath value rest with ⟨setting, given⟩ | fault
          · exact .inl ⟨setting, rest, given⟩
          · exact .inr fault
  · refine .inr ⟨_, .unknown ?_⟩
    simp only [List.mem_cons, List.not_mem_nil, or_false, not_or] at takesValue ⊢
    exact ⟨takesValue.1, takesValue.2.1, takesValue.2.2, noColor⟩

/-! ### All settings -/

theorem Spells.nil (around : Surroundings) : Spells around [] [] where
  words_eq := rfl
  placed := by simp

theorem Spells.cons {around : Surroundings} {setting : Setting} {settings : List Setting}
    {argv : List Text} (placed : setting.Placed around)
    (others : Spells around settings argv) :
    Spells around (setting :: settings) (setting.words ++ argv) where
  words_eq := by rw [List.flatMap_cons, others.words_eq]
  placed := List.forall_mem_cons.mpr ⟨placed, others.placed⟩

theorem collect_flatMap_words {around : Surroundings} {settings : List Setting}
    (placed : ∀ setting ∈ settings, setting.Placed around) (sofar : Arguments)
    (rest : List Text) :
    Arguments.collect around sofar (settings.flatMap words ++ rest) =
      Arguments.collect around (settings.foldl (apply around) sofar) rest := by
  induction settings generalizing sofar with
  | nil => rfl
  | cons setting others inductionHypothesis =>
      rw [List.forall_mem_cons] at placed
      rw [List.flatMap_cons, List.append_assoc, collect_words placed.1,
        inductionHypothesis placed.2, List.foldl_cons]

theorem Spells.collect_eq {around : Surroundings} {settings : List Setting}
    {argv : List Text} (spells : Spells around settings argv) (sofar : Arguments)
    (rest : List Text) :
    Arguments.collect around sofar (argv ++ rest) =
      Arguments.collect around (settings.foldl (apply around) sofar) rest := by
  rw [← spells.words_eq]
  exact collect_flatMap_words spells.placed sofar rest

/-- Arguments are settings up to their end or up to the first fault. -/
theorem exists_settings (around : Surroundings) (argv : List Text) :
    ∃ settings front rest, argv = front ++ rest ∧ Spells around settings front ∧
      (rest = [] ∨ ∃ error, Fault around rest error) := by
  obtain ⟨size, isSize⟩ : ∃ size, argv.length = size := ⟨_, rfl⟩
  induction size using Nat.strongRecOn generalizing argv with
  | ind size inductionHypothesis =>
      cases argv with
      | nil => exact ⟨[], [], [], rfl, .nil around, .inl rfl⟩
      | cons word behind =>
          rcases setting_or_fault around word behind with ⟨setting, rest, given, placed⟩ | fault
          · have shorter : rest.length < size := by
              rw [← isSize, given, List.length_append]
              cases setting <;> simp [words]
            obtain ⟨settings, front, last, rfl, spells, ends⟩ :=
              inductionHypothesis rest.length shorter rest rfl
            rw [given, ← List.append_assoc]
            exact ⟨setting :: settings, _, last, rfl, .cons placed spells, ends⟩
          · exact ⟨[], [], word :: behind, rfl, .nil around, .inr fault⟩

theorem Placed.toOption_eq {around : Surroundings} {path : Text}
    (placed : ∃ location, mapPath around path = .ok location) :
    (mapPath around path).toOption.map Except.ok = some (mapPath around path) := by
  obtain ⟨location, mapped⟩ := placed
  rw [mapped]
  rfl

/-- One more setting replaces what the others of its sort came to. -/
theorem Yields.snoc {around : Surroundings} {settings : List Setting} {arguments : Arguments}
    (yields : Yields around settings arguments) {setting : Setting}
    (placed : setting.Placed around) :
    Yields around (settings ++ [setting]) (setting.apply around arguments) := by
  obtain ⟨query, catalogFile, logFile, color⟩ := yields
  cases setting with
  | query value =>
      constructor <;> simp [apply, query?, catalogPath?, logPath?, *]
  | catalogFile path =>
      constructor <;> simp [apply, query?, catalogPath?, logPath?, Placed.toOption_eq placed, *]
  | logFile path =>
      constructor <;> simp [apply, query?, catalogPath?, logPath?, Placed.toOption_eq placed, *]
  | noColor =>
      constructor <;> simp [apply, query?, catalogPath?, logPath?, *]

theorem yields_nil (around : Surroundings) :
    Yields around [] { color := Arguments.defaultColor around } where
  query := rfl
  catalogFile := rfl
  logFile := rfl
  color := by
    simp only [Arguments.defaultColor]
    cases around.noColor <;> simp

/-- Settings that can be taken come to what is collected from them. -/
theorem yields_foldl {around : Surroundings} {settings : List Setting}
    (placed : ∀ setting ∈ settings, setting.Placed around) :
    Yields around settings
      (settings.foldl (apply around) { color := Arguments.defaultColor around }) := by
  induction settings using List.reverseRecOn with
  | nil => exact yields_nil around
  | append_singleton settings setting inductionHypothesis =>
      rw [List.forall_mem_append, List.forall_mem_singleton] at placed
      rw [List.foldl_append]
      exact (inductionHypothesis placed.1).snoc placed.2

/-- Settings come to one thing only. -/
theorem Yields.unique {around : Surroundings} {settings : List Setting} {one two : Arguments}
    (first : Yields around settings one) (second : Yields around settings two) : one = two := by
  have sameQuery := first.query.trans second.query.symm
  have sameCatalog := Option.map_injective (fun _ _ => Except.ok.inj)
    (first.catalogFile.trans second.catalogFile.symm)
  have sameLog := Option.map_injective (fun _ _ => Except.ok.inj)
    (first.logFile.trans second.logFile.symm)
  have sameColor : one.color = two.color :=
    Bool.eq_iff_iff.mpr (first.color.trans second.color.symm)
  cases one
  cases two
  rw [Arguments.mk.injEq]
  exact ⟨sameQuery, sameCatalog, sameLog, sameColor⟩

/-- Arguments are settings all through, or settings with a fault behind them. -/
theorem settings_or_fault (around : Surroundings) (argv : List Text) :
    (∃ settings arguments, Spells around settings argv ∧ Yields around settings arguments) ∨
      ∃ settings front rest error, argv = front ++ rest ∧ Spells around settings front ∧
        Fault around rest error := by
  obtain ⟨settings, front, rest, parts, spells, ends⟩ := exists_settings around argv
  rcases ends with rfl | ⟨error, fault⟩
  · rw [List.append_nil] at parts
    subst parts
    exact .inl ⟨settings, _, spells, yields_foldl spells.placed⟩
  · exact .inr ⟨settings, front, rest, error, parts, spells, fault⟩

end Setting

/-! ### The outcome -/

theorem Arguments.settle_cases (arguments : Arguments) :
    (arguments.settle = .ok arguments ∧
      ∀ value ∈ arguments.query, Text.isBlankText value = false) ∨
    (arguments.settle = .error .blankQuery ∧
      ∃ value ∈ arguments.query, Text.isBlankText value = true) := by
  rw [settle]
  cases arguments.query with
  | none => simp
  | some query => cases blank : Text.isBlankText query <;> simp [blank]

section

variable {around : Surroundings} {argv : List Text} (noHelp : ("--help" : Text) ∉ argv)
  (noShortHelp : ("-h" : Text) ∉ argv)

include noHelp noShortHelp

theorem readArguments_eq_collect :
    readArguments around argv =
      ((Arguments.collect around { color := Arguments.defaultColor around } argv).bind
        Arguments.settle).map .run := by
  have noCall : ¬ (argv.contains "--help" || argv.contains "-h") = true := by
    simp [noHelp, noShortHelp]
  rw [readArguments, if_neg noCall]
  cases Arguments.collect around { color := Arguments.defaultColor around } argv with
  | error error => rfl
  | ok arguments =>
      simp only [Except.bind]
      cases arguments.settle <;> rfl

theorem Setting.Spells.readArguments_eq {settings : List Setting} {arguments : Arguments}
    (spells : Spells around settings argv) (yields : Yields around settings arguments) :
    readArguments around argv = arguments.settle.map .run := by
  have collected := spells.collect_eq { color := Arguments.defaultColor around } []
  rw [List.append_nil, (yields_foldl spells.placed).unique yields] at collected
  rw [readArguments_eq_collect noHelp noShortHelp, collected]
  rfl

theorem Setting.Fault.readArguments_eq {settings : List Setting} {front rest : List Text}
    {error : ArgumentError} (parts : argv = front ++ rest) (spells : Spells around settings front)
    (fault : Fault around rest error) : readArguments around argv = .error error := by
  rw [readArguments_eq_collect noHelp noShortHelp, parts, spells.collect_eq, fault.collect_eq]
  rfl

theorem readArguments_eq_ok_iff {invocation : Invocation} :
    readArguments around argv = .ok invocation ↔
      ∃ settings arguments, Setting.Spells around settings argv ∧
        Setting.Yields around settings arguments ∧
        (∀ value ∈ arguments.query, Text.isBlankText value = false) ∧
        invocation = .run arguments := by
  constructor
  · intro accepted
    rcases Setting.settings_or_fault around argv with
      ⟨settings, arguments, spells, yields⟩ | ⟨settings, front, rest, error, parts, spells, fault⟩
    · rw [spells.readArguments_eq noHelp noShortHelp yields] at accepted
      rcases arguments.settle_cases with ⟨isSettled, notBlank⟩ | ⟨isSettled, -⟩
      · rw [isSettled] at accepted
        cases accepted
        exact ⟨settings, arguments, spells, yields, notBlank, rfl⟩
      · rw [isSettled] at accepted
        cases accepted
    · rw [fault.readArguments_eq noHelp noShortHelp parts spells] at accepted
      cases accepted
  · rintro ⟨settings, arguments, spells, yields, notBlank, rfl⟩
    rw [spells.readArguments_eq noHelp noShortHelp yields]
    rcases arguments.settle_cases with ⟨isSettled, -⟩ | ⟨-, value, isQuery, blank⟩
    · rw [isSettled]
      rfl
    · rw [notBlank value isQuery] at blank
      cases blank

theorem readArguments_eq_error_iff {error : ArgumentError} :
    readArguments around argv = .error error ↔
      (∃ settings front rest, argv = front ++ rest ∧ Setting.Spells around settings front ∧
        Setting.Fault around rest error) ∨
      (error = .blankQuery ∧ ∃ settings value, Setting.Spells around settings argv ∧
        (settings.filterMap Setting.query?).getLast? = some value ∧
        Text.isBlankText value = true) := by
  constructor
  · intro refused
    rcases Setting.settings_or_fault around argv with
      ⟨settings, arguments, spells, yields⟩ | ⟨settings, front, rest, other, parts, spells, fault⟩
    · rw [spells.readArguments_eq noHelp noShortHelp yields] at refused
      rcases arguments.settle_cases with ⟨isSettled, -⟩ | ⟨isSettled, value, isQuery, blank⟩
      · rw [isSettled] at refused
        cases refused
      · rw [isSettled] at refused
        cases refused
        rw [yields.query] at isQuery
        exact .inr ⟨rfl, settings, value, spells, isQuery, blank⟩
    · rw [fault.readArguments_eq noHelp noShortHelp parts spells] at refused
      cases refused
      exact .inl ⟨settings, front, rest, parts, spells, fault⟩
  · rintro (⟨settings, front, rest, parts, spells, fault⟩ |
      ⟨rfl, settings, value, spells, isLast, blank⟩)
    · exact fault.readArguments_eq noHelp noShortHelp parts spells
    · have yields := Setting.yields_foldl spells.placed
      have isQuery := yields.query.trans isLast
      rw [spells.readArguments_eq noHelp noShortHelp yields]
      rcases Arguments.settle_cases _ with ⟨-, notBlank⟩ | ⟨isSettled, -⟩
      · rw [notBlank value isQuery] at blank
        cases blank
      · rw [isSettled]
        rfl

end

/-- Arguments without a call for help are accepted exactly if they are settings one behind the
other, with no path that names no place and no blank query at the end; and they are refused for
the first fault that stands behind settings, or for a blank query if there is none. -/
theorem readArguments_grammar (around : Surroundings) {argv : List Text}
    (noHelp : ("--help" : Text) ∉ argv) (noShortHelp : ("-h" : Text) ∉ argv) :
    (∀ invocation, readArguments around argv = .ok invocation ↔
      ∃ settings arguments, Setting.Spells around settings argv ∧
        Setting.Yields around settings arguments ∧
        (∀ value ∈ arguments.query, Text.isBlankText value = false) ∧
        invocation = .run arguments) ∧
    ∀ error, readArguments around argv = .error error ↔
      (∃ settings front rest, argv = front ++ rest ∧ Setting.Spells around settings front ∧
        Setting.Fault around rest error) ∨
      (error = .blankQuery ∧ ∃ settings value, Setting.Spells around settings argv ∧
        (settings.filterMap Setting.query?).getLast? = some value ∧
        Text.isBlankText value = true) := by
  exact ⟨fun invocation => readArguments_eq_ok_iff noHelp noShortHelp,
    fun error => readArguments_eq_error_iff noHelp noShortHelp⟩

/-- Values that look like flags are values, the last query counts, and of two faults the first
is reported. -/
theorem readArguments_grammar_values :
    readArguments { home := "/home/u", appRoot := "/app", noColor := some "" }
        ["--query", "--log", "--log", "/a/./b/", "--no-color", "--query", "ls"] =
      .ok (.run ⟨some "ls", none, some ⟨["a", "b"]⟩, false⟩) ∧
    readArguments { home := "/home/u", appRoot := "/app" }
        ["--query", " ", "--log", "a", "--bogus"] =
      .error (.badPath "--log" .relative) := by
  constructor
  · apply ((readArguments_grammar _ (by decide) (by decide)).1 _).mpr
    refine ⟨[.query "--log", .logFile "/a/./b/", .noColor, .query "ls"], _, ⟨rfl, ?_⟩,
      ⟨rfl, rfl, rfl, by decide⟩, by simp; decide, rfl⟩
    simp only [List.forall_mem_cons, List.not_mem_nil, false_imp_iff, implies_true, and_true]
    exact ⟨trivial, ⟨_, rfl⟩, trivial, trivial⟩
  · apply ((readArguments_grammar _ (by decide) (by decide)).2 _).mpr
    refine .inl ⟨[.query " "], ["--query", " "], ["--log", "a", "--bogus"], rfl, ⟨rfl, ?_⟩,
      .badPath (by decide) rfl⟩
    simp only [List.forall_mem_singleton]
    trivial

end ShellGloss
