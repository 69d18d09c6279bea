/-
Module: ShellGloss.Proofs.FaithfulNodes
Purpose: What the nodes of a command line say is what the query holds where they stand
  and what the catalog tells about it, by the table in force there.
Imports: ShellGloss.Catalog.Bundled, ShellGloss.Proofs.TableScope
Main exports:
  First, BaseName, CommandInfo.Tells, OptionInfo.Tells, OptionSpelling,
  Node.Faithful, Line.Reading.faithful, Line.groups_faithful, parse_faithful
-/
import ShellGloss.Catalog.Bundled
import ShellGloss.Proofs.TableScope

namespace ShellGloss

/-! ### Looking things up

Commands, subcommands and options are looked up by the first entry that fits.  The
notions below say so without searching.
-/

/-- The first element of a list with a property, or none when no element has it. -/
def First {α : Type} (holds : α → Prop) (list : List α) : Option α → Prop
  | some found =>
      ∃ before after, list = before ++ found :: after ∧ holds found ∧
        ∀ other ∈ before, ¬ holds other
  | none => ∀ other ∈ list, ¬ holds other

theorem First.find? {α : Type} {holds : α → Prop} {test : α → Bool}
    (tests : ∀ element, test element = true ↔ holds element) (list : List α) :
    First holds list (list.find? test) := by
  cases found : list.find? test with
  | none =>
      rw [List.find?_eq_none] at found
      intro other among
      rw [← tests]
      exact found other among
  | some element =>
      obtain ⟨passes, before, after, same, others⟩ := List.find?_eq_some_iff_append.mp found
      refine ⟨before, after, same, (tests element).mp passes, ?_⟩
      intro other among
      rw [← tests]
      simpa using others other among

/-- A text is cut at its first mark: none in front of it, and behind that the mark or
nothing. -/
theorem Text.cut_beforeFirst (mark : Glyph) (chars : List Glyph) :
    mark ∉ Text.beforeFirst mark chars ∧
      ∃ rest, chars = Text.beforeFirst mark chars ++ rest ∧
        (rest = [] ∨ ∃ more, rest = mark :: more) := by
  induction chars with
  | nil => exact ⟨List.not_mem_nil, [], rfl, .inl rfl⟩
  | cons c others inductionHypothesis =>
      obtain ⟨without, rest, cut, ends⟩ := inductionHypothesis
      by_cases same : c = mark
      · subst same
        simp [Text.beforeFirst]
      · have kept : Text.beforeFirst mark (c :: others) =
            c :: Text.beforeFirst mark others := by
          simp [Text.beforeFirst, same]
        rw [kept]
        refine ⟨?_, rest, congrArg (c :: ·) cut, ends⟩
        rw [List.mem_cons, not_or]
        exact ⟨Ne.symm same, without⟩

/-- `base` is the part of a path behind its last slash. -/
def BaseName (path base : List Glyph) : Prop :=
  Glyph.char '/' ∉ base ∧ (path = base ∨ ∃ folder, path = folder ++ .char '/' :: base)

theorem baseName_isBase (program : Text) :
    BaseName program.toList (baseName program).toList := by
  -- From the right end, the base name is what stands in front of the first slash.
  obtain ⟨noSlash, rest, cut, ends⟩ := Text.cut_beforeFirst '/' program.toList.reverse
  have base : (baseName program).toList =
      (Text.beforeFirst '/' program.toList.reverse).reverse := Text.toList_ofList
  have whole : program.toList = rest.reverse ++ (baseName program).toList := by
    rw [base, ← List.reverse_append, ← cut, List.reverse_reverse]
  refine ⟨?_, ?_⟩
  · rw [base, List.mem_reverse]
    exact noSlash
  · rcases ends with rfl | ⟨folder, rfl⟩
    · rw [List.reverse_nil, List.nil_append] at whole
      exact .inl whole
    · refine .inr ⟨folder.reverse, ?_⟩
      rw [whole]
      simp

/-- The entry of a program, which goes by the part behind its last slash. -/
def Catalog.Resolves (catalog : Catalog) (program : Text) (entry : Option CommandEntry) :
    Prop :=
  ∃ base : Text, BaseName program.toList base.toList ∧
    First (fun command => command.name = base) catalog.commands entry

theorem Catalog.resolves_command? (catalog : Catalog) (program : Text) :
    catalog.Resolves program (catalog.command? program) :=
  ⟨baseName program, baseName_isBase program, .find? (fun _ => beq_iff_eq) catalog.commands⟩

/-- The options of a table; a missing one has none. -/
def Table.options (table : Table) : List OptionEntry := table.elim [] (·.options)

theorem Table.option?_first (table : Table) (spelling : Text) :
    First (fun option => spelling ∈ option.short ∨ spelling ∈ option.long) table.options
      (table.option? spelling) := by
  have tests (entry : OptionEntry) :
      entry.answersTo spelling = true ↔ spelling ∈ entry.short ∨ spelling ∈ entry.long := by
    simp [OptionEntry.answersTo, OptionEntry.aliases]
  cases table with
  | none => exact First.find? tests []
  | some command => exact First.find? tests command.options

/-! ### What is told -/

/-- What is told about a command: its name and summary, or the name it was called by. -/
def CommandInfo.Tells (info : CommandInfo) (entry : Option CommandEntry) (called : Text) :
    Prop :=
  match entry with
  | some entry => info.name = entry.name ∧ info.summary = entry.summary
  | none => info.name = called ∧ info.summary = unknownSummary

theorem CommandInfo.of_tells (entry : Option CommandEntry) (called : Text) :
    (CommandInfo.of entry called).Tells entry called := by
  cases entry with
  | none => exact ⟨rfl, rfl⟩
  | some entry => exact ⟨rfl, rfl⟩

/-- What is told about an option: its summary and all its aliases, a group without any
being missing, or nothing but the alias it was called by. -/
def OptionInfo.Tells (info : OptionInfo) (entry : Option OptionEntry) (called : Text) :
    Prop :=
  match entry with
  | some entry =>
      info.summary = entry.summary ∧
        info.short = (if entry.short = [] then none else some entry.short) ∧
        info.long = (if entry.long = [] then none else some entry.long)
  | none =>
      info.summary = unknownSummary ∧
        if [Glyph.char '-', '-'] <+: called.toList then
          info.short = none ∧ info.long = some [called]
        else info.short = some [called] ∧ info.long = none

theorem startsLong_iff (chars : List Glyph) :
    startsLong chars = true ↔ [Glyph.char '-', '-'] <+: chars := by
  unfold startsLong
  split
  next rest => simp
  next other =>
    refine ⟨fun no => absurd no Bool.false_ne_true, ?_⟩
    rintro ⟨rest, rfl⟩
    exact absurd rfl (other rest)

theorem OptionInfo.of_tells (entry : Option OptionEntry) (called : Text) :
    (OptionInfo.of entry called).Tells entry called := by
  cases entry with
  | none =>
      by_cases long : [Glyph.char '-', '-'] <+: called.toList
      · simp [OptionInfo.of, OptionInfo.Tells, (startsLong_iff _).mpr long, long]
      · have short : startsLong called.toList = false := by
          rw [← Bool.not_eq_true, startsLong_iff]
          exact long
        simp [OptionInfo.of, OptionInfo.Tells, short, long]
  | some entry => simp [OptionInfo.of, OptionInfo.Tells, aliasGroup]

/-! ### The alias of a node -/

/-- The alias by which a node of an option word is looked up.  A word with two dashes goes
by what stands in front of its first equals sign, another word by itself if the table has
it, and otherwise each node goes by a dash and its letter.  The node that begins the word
has the word's dash in front of its letter. -/
inductive OptionSpelling (table : Table) (query : Text) (word : Lexeme) (node : Node) :
    Text → Prop where
  | long {name value : List Glyph} (dashes : [Glyph.char '-', '-'] <+: word.text.toList)
      (whole : node.text query = word.text) (cut : word.text.toList = name ++ value)
      (noEquals : Glyph.char '=' ∉ name)
      (ends : value = [] ∨ ∃ rest, value = Glyph.char '=' :: rest) :
      OptionSpelling table query word node (Text.ofList name)
  | known {entry : OptionEntry} (notLong : ¬ [Glyph.char '-', '-'] <+: word.text.toList)
      (whole : node.text query = word.text) (listed : entry ∈ table.options)
      (has : word.text ∈ entry.short ∨ word.text ∈ entry.long) :
      OptionSpelling table query word node word.text
  | letter {letter : Glyph} {more : List Glyph}
      (notLong : ¬ [Glyph.char '-', '-'] <+: word.text.toList)
      (unknown : ∀ entry ∈ table.options,
        ¬ (word.text ∈ entry.short ∨ word.text ∈ entry.long))
      (shown : (node.text query).toList = letter :: more)
      (behind : word.start < node.span.start) :
      OptionSpelling table query word node (Text.ofList ['-', letter])
  | firstLetter {letter : Glyph} {more : List Glyph}
      (notLong : ¬ [Glyph.char '-', '-'] <+: word.text.toList)
      (unknown : ∀ entry ∈ table.options,
        ¬ (word.text ∈ entry.short ∨ word.text ∈ entry.long))
      (shown : (node.text query).toList = Glyph.char '-' :: letter :: more)
      (begins : node.span.start = word.start) :
      OptionSpelling table query word node (Text.ofList ['-', letter])

/-- What an option node must say: all about the first option of its alias. -/
def OptionInfo.Explains (info : OptionInfo) (table : Table) (query : Text) (word : Lexeme)
    (node : Node) : Prop :=
  ∃ spelling entry, OptionSpelling table query word node spelling ∧
    First (fun option => spelling ∈ option.short ∨ spelling ∈ option.long) table.options
      entry ∧
    info.Tells entry spelling

/-- That the content of a node is looked up as its text says.  `before` are the nodes in
front of the group of the node, and `word` is the lexeme of that group. -/
def Node.Faithful (catalog : Catalog) (query : Text) (before : List Node) (word : Lexeme)
    (node : Node) : Prop :=
  match node.content with
  | .argument text | .assignment text | .operator text | .pipe text =>
      text = node.text query
  | .sudo info =>
      node.text query = "sudo" ∧
        ∃ entry, catalog.Resolves "sudo" entry ∧ info.Tells entry "sudo" ∧
          scopeBehind catalog query (before ++ [node]) = some (.ofSudo entry)
  | .program info =>
      ∃ entry, catalog.Resolves (node.text query) entry ∧
        info.Tells entry (node.text query) ∧
        scopeBehind catalog query (before ++ [node]) = some (.ofCommand entry)
  | .subcommand info =>
      ∃ parent entry, scopeBehind catalog query before = some (.ofCommand (some parent)) ∧
        First (fun command => command.name = node.text query) parent.subcommands
          (some entry) ∧
        info.Tells (some entry) (node.text query) ∧
        scopeBehind catalog query (before ++ [node]) = some (.ofCommand (some entry))
  | .option info | .stickyOption info =>
      ∃ scope, scopeBehind catalog query before = some scope ∧
        info.Explains scope.table query word node

/-! ### The nodes of an option word -/

/-- What lies inside a lexeme is cut out of its text. -/
theorem Lexeme.StandsIn.toList_text {query : Text} {word : Lexeme}
    (stands : word.StandsIn query) {node : Node} (after : word.start ≤ node.span.start)
    (before : node.span.stop ≤ word.stop) :
    (node.text query).toList =
      (word.text.toList.drop (node.span.start - word.start)).take node.span.length := by
  have whole := congrArg Text.toList stands
  rw [Text.slice, Text.toList_ofList, Text.sliceChars] at whole
  rw [Node.text, Text.slice, Text.toList_ofList, Text.sliceChars, ← whole, List.drop_drop,
    List.drop_take, List.drop_take, List.take_take]
  have start : word.start + (node.span.start - word.start) = node.span.start := by omega
  have size : min node.span.length (word.stop - node.span.start) =
      node.span.stop - node.span.start := by
    simp only [Span.stop] at before ⊢
    omega
  rw [start, size]

/-- A node of a cluster by its letter: where it starts, and what it says. -/
theorem clusterGroup_mem {table : Table} {lead start : Nat} {letters : List Glyph}
    {node : Node} (among : node ∈ (clusterGroup table lead start letters).nodes) :
    ∃ front letter rest, letters = front ++ letter :: rest ∧
      node.span.start = start + (if front = [] then 0 else lead + front.length) ∧
      (if front = [] then lead + 1 else 1) ≤ node.span.length ∧
      node.span.stop ≤ start + lead + letters.length ∧
      ∃ info : OptionInfo, (node.content = .option info ∨ node.content = .stickyOption info) ∧
        info = OptionInfo.of (table.option? (letterAlias letter)) (letterAlias letter) := by
  induction letters generalizing lead start with
  | nil => cases among
  | cons letter rest inductionHypothesis =>
      simp only [clusterGroup] at among
      split at among
      · split at among
        · obtain rfl := List.mem_singleton.mp among
          refine ⟨[], letter, rest, rfl, rfl, Nat.le_refl _, ?_, _, .inl rfl, rfl⟩
          simp only [Span.stop, List.length_cons]
          omega
        · obtain rfl := List.mem_singleton.mp among
          refine ⟨[], letter, rest, rfl, rfl, Nat.le_add_right _ _, ?_, _, .inr rfl, rfl⟩
          simp only [Span.stop, List.length_cons]
          omega
      · rcases List.mem_cons.mp among with rfl | later
        · refine ⟨[], letter, rest, rfl, rfl, Nat.le_refl _, ?_, _, .inl rfl, rfl⟩
          simp only [Span.stop, List.length_cons]
          omega
        · obtain ⟨front, other, behind, rfl, starts, covers, ends, told⟩ :=
            inductionHypothesis later
          refine ⟨letter :: front, other, behind, rfl, ?_, ?_, ?_, told⟩
          · rw [starts]
            simp only [reduceCtorEq, if_false, List.length_cons]
            split
            next empty =>
              rw [empty, List.length_nil]
              omega
            · omega
          · simp only [reduceCtorEq, if_false]
            split at covers <;> omega
          · rw [List.length_cons]
            omega

theorem longGroup_explains {query : Text} {word : Lexeme} (stands : word.StandsIn query)
    (long : [Glyph.char '-', '-'] <+: word.text.toList) (table : Table) :
    ∀ node ∈ (longGroup table word).nodes, ∃ info : OptionInfo,
      (node.content = .option info ∨ node.content = .stickyOption info) ∧
        info.Explains table query word node := by
  intro node among
  obtain rfl := List.mem_singleton.mp among
  refine ⟨_, .inl rfl, _, _, ?_, table.option?_first _, OptionInfo.of_tells _ _⟩
  obtain ⟨noEquals, value, cut, ends⟩ := Text.cut_beforeFirst '=' word.text.toList
  exact .long long (stands.text_eq _) cut noEquals ends

/-- The letters of a word that is no alias as a whole. -/
theorem clusterGroup_explains {query : Text} {word : Lexeme} (stands : word.StandsIn query)
    {letters : List Glyph} (spelled : word.text.toList = Glyph.char '-' :: letters) {table : Table}
    (notLong : ¬ [Glyph.char '-', '-'] <+: word.text.toList)
    (unknown : table.option? word.text = none) :
    ∀ node ∈ (clusterGroup table 1 word.start letters).nodes, ∃ info : OptionInfo,
      (node.content = .option info ∨ node.content = .stickyOption info) ∧
        info.Explains table query word node := by
  intro node among
  have none_answers := table.option?_first word.text
  rw [unknown] at none_answers
  have size : word.stop = word.start + 1 + letters.length := by
    rw [Lexeme.stop, ← Text.length_toList, spelled, List.length_cons]
    omega
  obtain ⟨front, letter, rest, rfl, starts, covers, ends, info, content, told⟩ :=
    clusterGroup_mem among
  rw [← size] at ends
  have after : word.start ≤ node.span.start := by omega
  have shown := stands.toList_text after ends
  rw [spelled] at shown
  refine ⟨info, content, letterAlias letter, _, ?_, table.option?_first _, ?_⟩
  · by_cases first : front = []
    · subst first
      rw [if_pos rfl] at starts covers
      obtain ⟨more, length⟩ := Nat.exists_eq_add_of_le' covers
      rw [starts, length] at shown
      have cut : (node.text query).toList = Glyph.char '-' :: letter :: rest.take more := by
        rw [shown]
        simp
      exact .firstLetter notLong none_answers cut starts
    · rw [if_neg first] at starts covers
      obtain ⟨more, length⟩ := Nat.exists_eq_add_of_le' covers
      have distance : node.span.start - word.start = front.length + 1 := by omega
      rw [distance, length] at shown
      have cut : (node.text query).toList = letter :: rest.take more := by
        rw [shown]
        simp
      exact .letter notLong none_answers cut (by omega)
  · rw [told]
    exact OptionInfo.of_tells _ _

/-- Every node of an option word says all about the first option of its alias. -/
theorem optionGroup_explains {query : Text} {word : Lexeme} (stands : word.StandsIn query)
    (isOption : Line.isOptionWord word = true) (table : Table) :
    ∀ node ∈ (optionGroup table word).nodes, ∃ info : OptionInfo,
      (node.content = .option info ∨ node.content = .stickyOption info) ∧
        info.Explains table query word node := by
  obtain ⟨letters, spelled⟩ : ∃ letters, word.text.toList = Glyph.char '-' :: letters := by
    unfold Line.isOptionWord at isOption
    split at isOption
    next letter rest spelled => exact ⟨letter :: rest, spelled⟩
    · cases isOption
  unfold optionGroup
  split
  next long => exact longGroup_explains stands ((startsLong_iff _).mp long) table
  next short =>
    rw [startsLong_iff] at short
    unfold shortGroup
    split
    next entry known =>
      intro node among
      obtain rfl := List.mem_singleton.mp among
      have listed := table.option?_first word.text
      rw [known] at listed
      refine ⟨_, .inl rfl, _, _, ?_, listed, OptionInfo.of_tells _ _⟩
      obtain ⟨before, after, options, has, -⟩ := listed
      have member : entry ∈ table.options := by simp [options]
      exact .known short (stands.text_eq _) member has
    next unknown =>
      rw [spelled]
      exact clusterGroup_explains stands spelled short unknown

/-! ### The groups of a line -/

namespace Line

/-- One lexeme: where the stage agrees with the nodes in front, the nodes of its group are
faithful. -/
theorem Reading.faithful {catalog : Catalog} {query : Text} {lexeme : Lexeme}
    {progress next : Progress} {group : List Node}
    (reading : Reading catalog lexeme progress group next)
    (stands : lexeme.StandsIn query) {before : List Node}
    (agrees : progress.stage.Agrees (scopeBehind catalog query before)) :
    ∀ node ∈ group, node.Faithful catalog query before lexeme := by
  have behind := reading.agrees stands agrees
  have optionsAre (scope : Scope) (isOption : isOptionWord lexeme = true)
      (inForce : scopeBehind catalog query before = some scope) :
      ∀ node ∈ (optionGroup scope.table lexeme).nodes,
        node.Faithful catalog query before lexeme := by
    intro node among
    obtain ⟨info, content | content, explains⟩ :=
      optionGroup_explains stands isOption scope.table node among
    · simp only [Node.Faithful, content]
      exact ⟨scope, inForce, explains⟩
    · simp only [Node.Faithful, content]
      exact ⟨scope, inForce, explains⟩
  have argumentIs : ∀ node ∈ argument lexeme, node.Faithful catalog query before lexeme := by
    intro node among
    obtain rfl := List.mem_singleton.mp among
    exact (stands.text_eq _).symm
  cases reading with
  | control =>
      intro node among
      obtain rfl := List.mem_singleton.mp among
      have here := fun content => (stands.text_eq content).symm
      by_cases isPipe : (lexeme.text == "|") = true
      · rw [if_pos isPipe]
        exact here _
      · rw [if_neg isPipe]
        exact here _
  | value => exact argumentIs
  | callsSudo _ spelled =>
      intro node among
      obtain rfl := List.mem_singleton.mp among
      exact ⟨(stands.text_eq _).trans spelled, _, catalog.resolves_command? "sudo",
        CommandInfo.of_tells _ _, behind⟩
  | assignment =>
      intro node among
      obtain rfl := List.mem_singleton.mp among
      exact (stands.text_eq _).symm
  | program =>
      intro node among
      obtain rfl := List.mem_singleton.mp among
      simp only [Node.Faithful, stands.text_eq]
      exact ⟨_, catalog.resolves_command? _, CommandInfo.of_tells _ _, behind⟩
  | sudoOption _ isOption => exact optionsAre (.ofSudo _) isOption agrees
  | sudoEnd => exact argumentIs
  | tailEnded => exact argumentIs
  | tailEnd => exact argumentIs
  | tailOption _ _ isOption => exact optionsAre (.ofCommand _) isOption agrees
  | @subcommand table entry _ _ _ known =>
      intro node among
      obtain rfl := List.mem_singleton.mp among
      simp only [Node.Faithful, stands.text_eq]
      obtain ⟨parent, rfl, found⟩ := Option.bind_eq_some_iff.mp known
      have first := First.find? (fun command : CommandEntry =>
        beq_iff_eq (a := command.name) (b := lexeme.text)) parent.subcommands
      rw [show parent.subcommands.find? (·.name == lexeme.text) = some entry from found] at first
      exact ⟨parent, entry, agrees, first, CommandInfo.of_tells _ _, behind⟩
  | tailArgument => exact argumentIs

/-- All groups from one progress on: each node is faithful to the nodes in front of its
group. -/
theorem groups_faithful {catalog : Catalog} {query : Text} {progress : Progress}
    {before : List Node} (agrees : progress.stage.Agrees (scopeBehind catalog query before))
    {list : List Lexeme} (stand : ∀ lexeme ∈ list, lexeme.StandsIn query) {index : Nat}
    {word : Lexeme} {group : List Node} (wordAt : list[index]? = some word)
    (groupAt : (groups catalog progress list)[index]? = some group) :
    ∀ node ∈ group, node.Faithful catalog query
      (before ++ ((groups catalog progress list).take index).flatten) word := by
  induction list generalizing progress before index with
  | nil => cases wordAt
  | cons lexeme rest inductionHypothesis =>
      rw [List.forall_mem_cons] at stand
      have reading := step_reading catalog progress lexeme
      cases index with
      | zero =>
          cases wordAt
          cases groupAt
          rw [List.take_zero, List.flatten_nil, List.append_nil]
          exact reading.faithful stand.1 agrees
      | succ index =>
          have later := inductionHypothesis (reading.agrees stand.1 agrees) stand.2 wordAt
            groupAt
          rw [List.append_assoc] at later
          exact later

end Line

/-- The nodes of a command line are faithful to it: each says what the query holds where it
stands, or what the catalog tells about that by the table in force there. -/
theorem parse_faithful {catalog : Catalog} {query : Text} {groups : List (List Node)}
    (parsed : parse catalog query = some groups) :
    ∃ list, lexemes query = .ok list ∧ list.length = groups.length ∧
      ∀ (index : Nat) (word : Lexeme) (group : List Node), list[index]? = some word →
        groups[index]? = some group → ∀ node ∈ group,
          node.Faithful catalog query (groups.take index).flatten word := by
  obtain ⟨list, closed, -, rfl⟩ := parse_eq_some_iff.mp parsed
  refine ⟨list, closed, (Line.length_groups catalog .initial list).symm, ?_⟩
  intro index word group wordAt groupAt
  have fresh : Line.Progress.initial.stage.Agrees (scopeBehind catalog query []) := trivial
  exact Line.groups_faithful fresh (lexemes_standIn closed) wordAt groupAt

theorem parse_faithful_nested_table :
    ∃ groups, parse Catalog.bundled "sudo -u me git commit -am x && /bin/tar -xfa" = some groups ∧
      ∃ list, lexemes "sudo -u me git commit -am x && /bin/tar -xfa" = .ok list ∧
        list.length = groups.length ∧
        ∀ (index : Nat) (word : Lexeme) (group : List Node), list[index]? = some word →
          groups[index]? = some group → ∀ node ∈ group,
            node.Faithful Catalog.bundled "sudo -u me git commit -am x && /bin/tar -xfa"
              (groups.take index).flatten word := by
  have answered :
      (parse Catalog.bundled "sudo -u me git commit -am x && /bin/tar -xfa").isSome = true := by
    decide +kernel
  obtain ⟨groups, parsed⟩ := Option.isSome_iff_exists.mp answered
  exact ⟨groups, parsed, parse_faithful parsed⟩

end ShellGloss
