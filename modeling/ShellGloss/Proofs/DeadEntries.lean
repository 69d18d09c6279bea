/-
Module: ShellGloss.Proofs.DeadEntries
Purpose: Entries of a catalog that no lookup can find may be left out: every command line
  is read as before.
Imports: ShellGloss.Catalog.Bundled, ShellGloss.Proofs.FaithfulNodes,
  ShellGloss.Proofs.TableScope
Main exports:
  liveFrom, Catalog.pruned, Catalog.Live, find?_liveFrom, Line.Reading.pruned,
  Line.groups_pruned, respond_pruned
-/
import ShellGloss.Catalog.Bundled
import ShellGloss.Proofs.FaithfulNodes
import ShellGloss.Proofs.TableScope

namespace ShellGloss

/-! ### Dead entries

A lookup takes the first entry that fits, so an entry is dead when the entries in front of
it answer to all that it answers to.  A command of the catalog itself is also dead when its
name holds a slash, since programs are looked up by what stands behind their last one.
-/

/-- The items of a list that are not dead, as told from the items in front of them, dead or
not; `earlier` stands in front of the list. -/
def liveFrom {α : Type} (dead : List α → α → Bool) (earlier : List α) : List α → List α
  | [] => []
  | item :: rest =>
      if dead earlier item then liveFrom dead (earlier ++ [item]) rest
      else item :: liveFrom dead (earlier ++ [item]) rest

/-- Whether earlier options go by every alias of an option. -/
def OptionEntry.isShadowed (earlier : List OptionEntry) (entry : OptionEntry) : Bool :=
  entry.aliases.all fun spelling => earlier.any (·.answersTo spelling)

/-- Whether an earlier command has the name of a command. -/
def CommandEntry.isRepeated (earlier : List CommandEntry) (entry : CommandEntry) : Bool :=
  earlier.any (·.name == entry.name)

/-- Whether no program can lead to a command of the catalog. -/
def CommandEntry.isUncallable (earlier : List CommandEntry) (entry : CommandEntry) : Bool :=
  entry.name.toList.contains (.char '/') || isRepeated earlier entry

mutual

/-- A command without the dead entries below it. -/
def CommandEntry.pruned : CommandEntry → CommandEntry
  | ⟨name, summary, options, subcommands⟩ =>
      ⟨name, summary, liveFrom OptionEntry.isShadowed [] options,
        liveFrom CommandEntry.isRepeated [] (prunedAll subcommands)⟩

/-- Commands, all of them kept, without the dead entries below them. -/
def CommandEntry.prunedAll : List CommandEntry → List CommandEntry
  | [] => []
  | entry :: rest => entry.pruned :: prunedAll rest

end

/-- A catalog without dead entries. -/
def Catalog.pruned (catalog : Catalog) : Catalog :=
  ⟨liveFrom CommandEntry.isUncallable [] (CommandEntry.prunedAll catalog.commands)⟩

/-! ### Nothing dead is left -/

/-- A list in which no item is dead. -/
def AllLive {α : Type} (dead : List α → α → Bool) (list : List α) : Prop :=
  ∀ before item after, list = before ++ item :: after → dead before item = false

mutual

/-- Nothing below a command is dead. -/
def CommandEntry.Live : CommandEntry → Prop
  | ⟨_, _, options, subcommands⟩ =>
      AllLive OptionEntry.isShadowed options ∧ AllLive CommandEntry.isRepeated subcommands ∧
        LiveBelow subcommands

/-- Nothing below some commands is dead. -/
def CommandEntry.LiveBelow : List CommandEntry → Prop
  | [] => True
  | entry :: rest => entry.Live ∧ LiveBelow rest

end

/-- Nothing in a catalog is dead. -/
def Catalog.Live (catalog : Catalog) : Prop :=
  AllLive CommandEntry.isUncallable catalog.commands ∧ CommandEntry.LiveBelow catalog.commands

section

variable {α : Type} {dead : List α → α → Bool}

theorem mem_of_mem_liveFrom {earlier list : List α} {item : α}
    (among : item ∈ liveFrom dead earlier list) : item ∈ list := by
  induction list generalizing earlier with
  | nil => cases among
  | cons first rest inductionHypothesis =>
      rw [liveFrom] at among
      split at among
      · exact .tail first (inductionHypothesis among)
      · rcases List.mem_cons.mp among with rfl | later
        · exact List.mem_cons_self
        · exact .tail first (inductionHypothesis later)

/-- More items in front leave the dead dead. -/
def Lasting (dead : List α → α → Bool) : Prop :=
  ∀ few many item, few ⊆ many → dead few item = true → dead many item = true

/-- The items that are kept are alive also among themselves. -/
theorem Lasting.allLive_liveFrom (lasting : Lasting dead) (list : List α) :
    AllLive dead (liveFrom dead [] list) := by
  suffices general : ∀ earlier kept before item after, kept ⊆ earlier →
      liveFrom dead earlier list = before ++ item :: after →
        dead (kept ++ before) item = false by
    intro before item after split
    exact general [] [] before item after (List.nil_subset _) split
  induction list with
  | nil =>
      intro earlier kept before item after _ split
      cases before <;> cases split
  | cons first rest inductionHypothesis =>
      intro earlier kept before item after within split
      rw [liveFrom] at split
      have more : kept ⊆ earlier ++ [first] := List.subset_append_of_subset_left _ within
      split at split
      · exact inductionHypothesis (earlier ++ [first]) kept before item after more split
      next alive =>
        cases before with
        | nil =>
            cases split
            rw [List.append_nil, Bool.eq_false_iff]
            intro isDead
            exact alive (lasting kept earlier _ within isDead)
        | cons head before =>
            obtain ⟨rfl, others⟩ := List.cons.inj split
            have keptToo : kept ++ [first] ⊆ earlier ++ [first] :=
              List.append_subset.mpr ⟨more, List.subset_append_right ..⟩
            have there := inductionHypothesis (earlier ++ [first]) (kept ++ [first]) before
              item after keptToo others
            rw [List.append_assoc] at there
            exact there

end

theorem OptionEntry.isShadowed_lasting : Lasting OptionEntry.isShadowed := by
  intro few many entry within shadowed
  simp only [isShadowed, List.all_eq_true, List.any_eq_true] at shadowed ⊢
  intro spelling listed
  obtain ⟨other, among, answers⟩ := shadowed spelling listed
  exact ⟨other, within among, answers⟩

theorem CommandEntry.isRepeated_lasting : Lasting CommandEntry.isRepeated := by
  intro few many entry within repeated
  simp only [isRepeated, List.any_eq_true] at repeated ⊢
  obtain ⟨other, among, same⟩ := repeated
  exact ⟨other, within among, same⟩

theorem CommandEntry.isUncallable_lasting : Lasting CommandEntry.isUncallable := by
  intro few many entry within uncallable
  simp only [isUncallable, Bool.or_eq_true] at uncallable ⊢
  exact uncallable.imp_right (isRepeated_lasting few many entry within)

namespace CommandEntry

theorem prunedAll_eq_map (list : List CommandEntry) : prunedAll list = list.map pruned := by
  induction list with
  | nil => rfl
  | cons entry rest inductionHypothesis => rw [prunedAll, inductionHypothesis, List.map_cons]

theorem liveBelow_iff {list : List CommandEntry} :
    LiveBelow list ↔ ∀ entry ∈ list, entry.Live := by
  induction list with
  | nil => simp [LiveBelow]
  | cons entry rest inductionHypothesis => simp [LiveBelow, inductionHypothesis]

mutual

theorem live_pruned : (entry : CommandEntry) → entry.pruned.Live
  | ⟨name, summary, options, subcommands⟩ => by
      refine ⟨OptionEntry.isShadowed_lasting.allLive_liveFrom options,
        isRepeated_lasting.allLive_liveFrom _, liveBelow_iff.mpr ?_⟩
      intro entry among
      exact live_of_mem_prunedAll subcommands entry (mem_of_mem_liveFrom among)

theorem live_of_mem_prunedAll : (list : List CommandEntry) →
    ∀ entry ∈ prunedAll list, entry.Live
  | [] => by
      intro entry among
      cases among
  | first :: rest => by
      intro entry among
      rcases List.mem_cons.mp among with rfl | later
      · exact live_pruned first
      · exact live_of_mem_prunedAll rest entry later

end

end CommandEntry

theorem Catalog.live_pruned (catalog : Catalog) : catalog.pruned.Live := by
  refine ⟨CommandEntry.isUncallable_lasting.allLive_liveFrom _,
    CommandEntry.liveBelow_iff.mpr ?_⟩
  intro entry among
  exact CommandEntry.live_of_mem_prunedAll _ entry (mem_of_mem_liveFrom among)

/-- The second `-v`, the second `a` and `/a` are dead. -/
example :
    Catalog.pruned
        ⟨[⟨"a", "", [⟨"one", ["-v"], ["--v"], false⟩, ⟨"two", ["-v"], [], true⟩], []⟩,
          ⟨"a", "again", [], []⟩, ⟨"/a", "", [], []⟩]⟩ =
      ⟨[⟨"a", "", [⟨"one", ["-v"], ["--v"], false⟩], []⟩]⟩ := by
  rfl

/-! ### Lookups

Dropping dead items changes no search for an item that, where it is dead, has one in front
of it which the search finds first.
-/

theorem find?_liveFrom {α : Type} {dead : List α → α → Bool} {test : α → Bool}
    (covered : ∀ earlier item, dead earlier item = true → test item = true →
      ∃ other ∈ earlier, test other = true)
    (list : List α) {earlier : List α} (fresh : ∀ other ∈ earlier, test other = false) :
    (liveFrom dead earlier list).find? test = list.find? test := by
  induction list generalizing earlier with
  | nil => rfl
  | cons item rest inductionHypothesis =>
      rw [liveFrom]
      cases found : test item with
      | true =>
          -- The first item that fits is alive, as none in front of it fits.
          have alive : ¬ dead earlier item = true := by
            intro isDead
            obtain ⟨other, among, fits⟩ := covered earlier item isDead found
            rw [fresh other among] at fits
            cases fits
          rw [if_neg alive, List.find?_cons_of_pos found, List.find?_cons_of_pos found]
      | false =>
          have notFound : ¬ test item = true := by simp [found]
          have further : ∀ other ∈ earlier ++ [item], test other = false :=
            List.forall_mem_append.mpr ⟨fresh, List.forall_mem_singleton.mpr found⟩
          rw [List.find?_cons_of_neg notFound, ← inductionHypothesis further]
          split
          · rfl
          · rw [List.find?_cons_of_neg notFound]

namespace CommandEntry

@[simp] theorem name_pruned (entry : CommandEntry) : entry.pruned.name = entry.name := by
  cases entry
  rfl

@[simp] theorem summary_pruned (entry : CommandEntry) :
    entry.pruned.summary = entry.summary := by
  cases entry
  rfl

/-- Entries are found by their names, which pruning leaves alone. -/
theorem find?_prunedAll (list : List CommandEntry) (name : Text) :
    (prunedAll list).find? (·.name == name) = (list.find? (·.name == name)).map pruned := by
  have named : (·.name == name) ∘ pruned = (·.name == name) := by
    funext entry
    exact congrArg (· == name) entry.name_pruned
  rw [prunedAll_eq_map, List.find?_map, named]

@[simp] theorem option?_pruned (entry : CommandEntry) (spelling : Text) :
    entry.pruned.option? spelling = entry.option? spelling := by
  obtain ⟨name, summary, options, subcommands⟩ := entry
  apply find?_liveFrom
  · intro earlier option shadowed answers
    simp only [OptionEntry.isShadowed, List.all_eq_true, List.any_eq_true] at shadowed
    exact shadowed spelling (by simpa [OptionEntry.answersTo] using answers)
  · intro other among
    cases among

@[simp] theorem subcommand?_pruned (entry : CommandEntry) (name : Text) :
    entry.pruned.subcommand? name = (entry.subcommand? name).map pruned := by
  obtain ⟨own, summary, options, subcommands⟩ := entry
  refine Eq.trans ?_ (find?_prunedAll subcommands name)
  apply find?_liveFrom
  · intro earlier command repeated named
    obtain ⟨other, among, same⟩ := List.any_eq_true.mp repeated
    exact ⟨other, among, by simpa using (eq_of_beq same).trans (eq_of_beq named)⟩
  · intro other among
    cases among

end CommandEntry

@[simp] theorem Catalog.command?_pruned (catalog : Catalog) (program : Text) :
    catalog.pruned.command? program = (catalog.command? program).map CommandEntry.pruned := by
  refine Eq.trans ?_ (CommandEntry.find?_prunedAll catalog.commands (baseName program))
  apply find?_liveFrom
  · intro earlier command uncallable named
    rcases Bool.or_eq_true_iff.mp uncallable with slash | repeated
    · -- A base name holds no slash.
      have noSlash := (baseName_isBase program).1
      rw [← eq_of_beq named] at noSlash
      exact absurd (List.contains_iff_mem.mp slash) noSlash
    · obtain ⟨other, among, same⟩ := List.any_eq_true.mp repeated
      exact ⟨other, among, by simpa using (eq_of_beq same).trans (eq_of_beq named)⟩
  · intro other among
    cases among

/-! ### Reading with the pruned catalog

Both catalogs are read with in step: where one has an entry at hand, the other has the same
entry pruned.
-/

/-- The table of a pruned entry. -/
def Table.pruned (table : Table) : Table := table.map CommandEntry.pruned

@[simp] theorem Table.option?_pruned (table : Table) (spelling : Text) :
    table.pruned.option? spelling = table.option? spelling := by
  cases table with
  | none => rfl
  | some entry => exact entry.option?_pruned spelling

@[simp] theorem Table.subcommand?_pruned (table : Table) (name : Text) :
    table.pruned.bind (·.subcommand? name) = Table.pruned (table.bind (·.subcommand? name)) := by
  cases table with
  | none => rfl
  | some entry => exact entry.subcommand?_pruned name

@[simp] theorem CommandInfo.of_pruned (table : Table) (name : Text) :
    CommandInfo.of table.pruned name = CommandInfo.of table name := by
  cases table with
  | none => rfl
  | some entry => simp [Table.pruned, CommandInfo.of]

theorem clusterGroup_pruned (table : Table) (lead start : Nat) (letters : List Glyph) :
    clusterGroup table.pruned lead start letters = clusterGroup table lead start letters := by
  induction letters generalizing lead start with
  | nil => rfl
  | cons letter rest inductionHypothesis =>
      simp only [clusterGroup, Table.option?_pruned, inductionHypothesis]

@[simp] theorem optionGroup_pruned (table : Table) (word : Lexeme) :
    optionGroup table.pruned word = optionGroup table word := by
  simp only [optionGroup, longGroup, shortGroup, Table.option?_pruned, clusterGroup_pruned]

namespace Line

/-- The same stage with a pruned table. -/
def Stage.pruned : Stage → Stage
  | .opening => .opening
  | .sudoOptions table => .sudoOptions table.pruned
  | .environment => .environment
  | .tail table mode => .tail table.pruned mode

/-- The same progress with a pruned table. -/
def Progress.pruned (progress : Progress) : Progress :=
  { progress with stage := progress.stage.pruned }

theorem Leads.pruned {word : Lexeme} {stage next : Stage} (leads : Leads word stage next) :
    Leads word stage.pruned next.pruned := by
  cases leads with
  | opening notSudo => exact .opening notSudo
  | sudoOptions table notEnd notOption => exact .sudoOptions table.pruned notEnd notOption
  | environment => exact .environment

/-- One lexeme: the group is the same with the pruned catalog, and the progress behind it
differs in the pruned table alone. -/
theorem Reading.pruned {catalog : Catalog} {lexeme : Lexeme} {progress next : Progress}
    {group : List Node} (reading : Reading catalog lexeme progress group next) :
    Reading catalog.pruned lexeme progress.pruned group next.pruned := by
  have found (program : Text) :
      catalog.pruned.command? program = Table.pruned (catalog.command? program) :=
    catalog.command?_pruned program
  cases reading with
  | control isControl => exact .control isControl
  | value isWord => exact .value isWord
  | callsSudo isWord spelled =>
      show Reading _ _ _ _ ⟨.sudoOptions (Table.pruned (catalog.command? "sudo")), false⟩
      rw [← CommandInfo.of_pruned, ← found]
      exact .callsSudo isWord spelled
  | assignment isWord leads assigns => exact .assignment isWord leads.pruned assigns
  | program isWord leads assignsNot =>
      show Reading _ _ _ _ ⟨.tail (Table.pruned (catalog.command? lexeme.text)) _, false⟩
      rw [← CommandInfo.of_pruned, ← found]
      exact .program isWord leads.pruned assignsNot
  | sudoOption isWord isOption =>
      rw [← optionGroup_pruned]
      exact .sudoOption isWord isOption
  | sudoEnd isWord ends => exact .sudoEnd isWord ends
  | tailEnded isWord => exact .tailEnded isWord
  | tailEnd isWord goesOn ends => exact .tailEnd isWord goesOn ends
  | tailOption isWord goesOn isOption =>
      rw [← optionGroup_pruned]
      exact .tailOption isWord goesOn isOption
  | @subcommand table entry isWord notEnd notOption known =>
      have knownPruned : table.pruned.bind (·.subcommand? lexeme.text) = some entry.pruned := by
        rw [Table.subcommand?_pruned, known]
        rfl
      rw [← CommandInfo.of_pruned]
      exact .subcommand isWord notEnd notOption knownPruned
  | @tailArgument table mode isWord goesOn notEnd notOption unknown =>
      refine .tailArgument isWord goesOn notEnd notOption ?_
      intro commands
      rw [Table.subcommand?_pruned, unknown commands]
      rfl

/-- Lexemes have the same groups with the pruned catalog. -/
theorem groups_pruned (catalog : Catalog) (progress : Progress) (list : List Lexeme) :
    groups catalog.pruned progress.pruned list = groups catalog progress list := by
  induction list generalizing progress with
  | nil => rfl
  | cons lexeme rest inductionHypothesis =>
      have stepped := (step_reading catalog progress lexeme).pruned.step_eq
      simp only [groups, stepped, inductionHypothesis]

end Line

/-- A catalog without its dead entries: nothing dead is left in it, and it gives the same
response to every query. -/
theorem respond_pruned (catalog : Catalog) :
    catalog.pruned.Live ∧ ∀ query, respond catalog.pruned query = respond catalog query := by
  refine ⟨catalog.live_pruned, ?_⟩
  intro query
  have same := Line.groups_pruned catalog .initial
  simp only [respond, parse]
  cases lexemes query with
  | error error => rfl
  | ok list =>
      dsimp only
      rw [← same]
      rfl

end ShellGloss
