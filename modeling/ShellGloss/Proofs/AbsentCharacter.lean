/-
Module: ShellGloss.Proofs.AbsentCharacter
Purpose: A control character that neither a query nor the catalog holds is in nothing that
  is said about the query.
Imports: ShellGloss.Gloss, ShellGloss.Proofs.TableScope
Main exports:
  CommandEntry.texts, Catalog.texts, Lacks, Content.texts, Line.Reading.lacks,
  Line.groups_lacks, nodes_lack, Gloss.texts, Gloss.of_lacks
-/
import ShellGloss.Gloss
import ShellGloss.Proofs.TableScope

namespace ShellGloss

/-! ### All that can be read in a catalog -/

/-- The summary and the aliases of an option. -/
def OptionEntry.texts (entry : OptionEntry) : List Text := entry.summary :: entry.aliases

mutual

/-- The names, summaries and aliases of a command and of everything below it. -/
def CommandEntry.texts : CommandEntry → List Text
  | ⟨name, summary, options, subcommands⟩ =>
      name :: summary :: (options.flatMap OptionEntry.texts ++ textsOfAll subcommands)

/-- The names, summaries and aliases of some commands. -/
def CommandEntry.textsOfAll : List CommandEntry → List Text
  | [] => []
  | entry :: rest => entry.texts ++ textsOfAll rest

end

/-- The names, summaries and aliases of a catalog. -/
def Catalog.texts (catalog : Catalog) : List Text := CommandEntry.textsOfAll catalog.commands

/-- What can be read in the entry of a table, if there is one. -/
def Table.texts : Table → List Text
  | none => []
  | some entry => entry.texts

theorem CommandEntry.texts_subset_textsOfAll {entry : CommandEntry}
    {list : List CommandEntry} (among : entry ∈ list) : entry.texts ⊆ textsOfAll list := by
  induction list with
  | nil => cases among
  | cons first rest inductionHypothesis =>
      rw [textsOfAll]
      rcases List.mem_cons.mp among with rfl | later
      · exact List.subset_append_left ..
      · exact List.subset_append_of_subset_right _ (inductionHypothesis later)

theorem Catalog.command?_texts (catalog : Catalog) (program : Text) :
    Table.texts (catalog.command? program) ⊆ catalog.texts := by
  cases found : catalog.command? program with
  | none => exact List.nil_subset _
  | some entry => exact CommandEntry.texts_subset_textsOfAll (List.mem_of_find?_eq_some found)

theorem CommandEntry.subcommand?_texts {entry below : CommandEntry} {name : Text}
    (found : entry.subcommand? name = some below) : below.texts ⊆ entry.texts := by
  have among := texts_subset_textsOfAll (List.mem_of_find?_eq_some found)
  obtain ⟨name, summary, options, subcommands⟩ := entry
  intro text held
  rw [CommandEntry.texts]
  exact .tail _ (.tail _ (List.mem_append_right _ (among held)))

theorem CommandEntry.options_texts {entry : CommandEntry} {option : OptionEntry}
    (listed : option ∈ entry.options) : option.texts ⊆ entry.texts := by
  obtain ⟨name, summary, options, subcommands⟩ := entry
  intro text held
  rw [CommandEntry.texts]
  exact .tail _ (.tail _ (List.mem_append_left _ (List.mem_flatMap_of_mem listed held)))

theorem Table.option?_texts {table : Table} {option : OptionEntry} {spelling : Text}
    (found : table.option? spelling = some option) : option.texts ⊆ table.texts := by
  obtain ⟨entry, rfl, found⟩ := Option.bind_eq_some_iff.mp found
  exact CommandEntry.options_texts (List.mem_of_find?_eq_some found)

theorem Table.subcommand?_texts {table : Table} {below : CommandEntry} {name : Text}
    (found : table.bind (·.subcommand? name) = some below) : below.texts ⊆ table.texts := by
  obtain ⟨entry, rfl, found⟩ := Option.bind_eq_some_iff.mp found
  exact CommandEntry.subcommand?_texts found

/-! ### Texts without a character -/

/-- A character is in none of some texts. -/
def Lacks (c : Glyph) (texts : List Text) : Prop := ∀ text ∈ texts, c ∉ text.toList

instance (c : Glyph) (texts : List Text) : Decidable (Lacks c texts) :=
  inferInstanceAs (Decidable (∀ text ∈ texts, c ∉ text.toList))

section

variable {c : Glyph}

@[simp] theorem lacks_nil : Lacks c [] := by
  intro text among
  cases among

@[simp] theorem lacks_cons {text : Text} {texts : List Text} :
    Lacks c (text :: texts) ↔ c ∉ text.toList ∧ Lacks c texts :=
  List.forall_mem_cons

@[simp] theorem lacks_append {one two : List Text} :
    Lacks c (one ++ two) ↔ Lacks c one ∧ Lacks c two :=
  List.forall_mem_append

theorem Lacks.mono {one two : List Text} (lacks : Lacks c two) (subset : one ⊆ two) :
    Lacks c one :=
  fun text among => lacks text (subset among)

/-- What the program says of itself is written without control characters. -/
theorem not_mem_of_printed (control : c.code < 0x20) {text : Text}
    (printed : text.toList.all (0x20 ≤ ·.code) = true) : c ∉ text.toList := by
  intro among
  have high := List.all_eq_true.mp printed c among
  rw [decide_eq_true_eq] at high
  omega

theorem Text.not_mem_joinWith {gap : Text} (noGap : c ∉ gap.toList) {texts : List Text}
    (lacks : Lacks c texts) : c ∉ (Text.joinWith gap texts).toList := by
  induction texts using Text.joinWith.induct with
  | case1 => simp [Text.joinWith]
  | case2 one => exact (lacks_cons.mp lacks).1
  | case3 one next rest inductionHypothesis =>
      obtain ⟨here, others⟩ := lacks_cons.mp lacks
      simp only [Text.joinWith, Text.toList_append, List.mem_append, not_or]
      exact ⟨⟨here, noGap⟩, inductionHypothesis others⟩

/-- A lexeme holds no character that its query does not. -/
theorem Lexeme.StandsIn.not_mem {query : Text} {lexeme : Lexeme}
    (stands : lexeme.StandsIn query) (absent : c ∉ query.toList) : c ∉ lexeme.text.toList := by
  rw [← stands, Text.slice, Text.toList_ofList]
  intro among
  exact absent (List.mem_of_mem_take (List.mem_of_mem_drop among))

/-! ### What a node says -/

/-- What is told about a command. -/
def CommandInfo.texts (info : CommandInfo) : List Text := [info.name, info.summary]

/-- What is told about an option. -/
def OptionInfo.texts (info : OptionInfo) : List Text :=
  info.summary :: (info.short.getD [] ++ info.long.getD [])

/-- The texts of a content. -/
def Content.texts : Content → List Text
  | .program info | .subcommand info | .sudo info => info.texts
  | .option info | .stickyOption info => info.texts
  | .assignment word | .argument word | .operator word | .pipe word => [word]

theorem unknownSummary_printed : unknownSummary.toList.all (0x20 ≤ ·.code) = true := by
  decide +kernel

theorem CommandInfo.of_lacks (control : c.code < 0x20) {table : Table} (known : Lacks c table.texts)
    {name : Text} (absent : c ∉ name.toList) : Lacks c (CommandInfo.of table name).texts := by
  cases table with
  | none => simp [CommandInfo.of, texts, absent, not_mem_of_printed control unknownSummary_printed]
  | some entry =>
      obtain ⟨name, summary, options, subcommands⟩ := entry
      simp only [Table.texts, CommandEntry.texts, lacks_cons] at known
      simp [CommandInfo.of, texts, known]

theorem aliasGroup_getD (aliases : List Text) : (aliasGroup aliases).getD [] = aliases := by
  cases aliases <;> rfl

theorem OptionInfo.of_lacks (control : c.code < 0x20) {table : Table} (known : Lacks c table.texts)
    {spelling : Text} (absent : c ∉ spelling.toList) :
    Lacks c (OptionInfo.of (table.option? spelling) spelling).texts := by
  cases found : table.option? spelling with
  | none =>
      have summary := not_mem_of_printed control unknownSummary_printed
      simp only [OptionInfo.of]
      split <;> simp [texts, absent, summary]
  | some entry =>
      have held := known.mono (Table.option?_texts found)
      simpa only [OptionInfo.of, texts, aliasGroup_getD, OptionEntry.texts, OptionEntry.aliases]
        using held

/-- The letters of a cluster are characters of its word. -/
theorem clusterGroup_lacks (control : c.code < 0x20) {table : Table} (known : Lacks c table.texts)
    (lead start : Nat) {letters : List Glyph} (absent : c ∉ letters) :
    ∀ node ∈ (clusterGroup table lead start letters).nodes, Lacks c node.content.texts := by
  induction letters generalizing lead start with
  | nil => simp [clusterGroup]
  | cons letter rest inductionHypothesis =>
      rw [List.mem_cons, not_or] at absent
      have dash : c ≠ '-' := by
        rintro rfl
        exact absurd control (by decide)
      have spelled : c ∉ (letterAlias letter).toList := by
        simp [letterAlias, dash, absent.1]
      have here := OptionInfo.of_lacks control known spelled
      simp only [clusterGroup]
      split
      · split
        · exact List.forall_mem_singleton.mpr here
        · exact List.forall_mem_singleton.mpr here
      · exact List.forall_mem_cons.mpr
          ⟨here, inductionHypothesis 0 (start + lead + 1) absent.2⟩

theorem optionGroup_lacks (control : c.code < 0x20) {table : Table} (known : Lacks c table.texts)
    {word : Lexeme} (absent : c ∉ word.text.toList) :
    ∀ node ∈ (optionGroup table word).nodes, Lacks c node.content.texts := by
  unfold optionGroup
  split
  · have spelled : c ∉ (Text.ofList (Text.beforeFirst '=' word.text.toList)).toList := by
      rw [Text.toList_ofList]
      exact fun among => absent (List.takeWhile_subset _ among)
    exact List.forall_mem_singleton.mpr (OptionInfo.of_lacks control known spelled)
  · unfold shortGroup
    split
    next entry found =>
      have here := OptionInfo.of_lacks control known absent
      rw [found] at here
      exact List.forall_mem_singleton.mpr here
    · exact clusterGroup_lacks control known 1 word.start
        (fun among => absent (List.mem_of_mem_drop among))

namespace Line

/-- What can be read in the table of a stage, if it has one. -/
def Stage.texts : Stage → List Text
  | .opening | .environment => []
  | .sudoOptions table | .tail table _ => table.texts

/-- One lexeme: its group says nothing with the character, nor can the groups behind it. -/
theorem Reading.lacks (control : c.code < 0x20) {catalog : Catalog} (known : Lacks c catalog.texts)
    {lexeme : Lexeme} (absent : c ∉ lexeme.text.toList) {progress next : Progress}
    {group : List Node} (reading : Reading catalog lexeme progress group next)
    (before : Lacks c progress.stage.texts) :
    (∀ node ∈ group, Lacks c node.content.texts) ∧ Lacks c next.stage.texts := by
  have command (program : Text) : Lacks c (Table.texts (catalog.command? program)) :=
    known.mono (catalog.command?_texts program)
  have word : Lacks c [lexeme.text] := lacks_cons.mpr ⟨absent, lacks_nil⟩
  have argument : ∀ node ∈ argument lexeme, Lacks c node.content.texts :=
    List.forall_mem_singleton.mpr word
  cases reading with
  | control =>
      refine ⟨?_, lacks_nil⟩
      unfold Line.control
      split
      · exact List.forall_mem_singleton.mpr word
      · exact List.forall_mem_singleton.mpr word
  | value => exact ⟨argument, before⟩
  | callsSudo _ spelled =>
      rw [spelled] at absent
      exact ⟨List.forall_mem_singleton.mpr (CommandInfo.of_lacks control (command _) absent),
        command _⟩
  | assignment _ leads =>
      refine ⟨List.forall_mem_singleton.mpr word, ?_⟩
      cases leads <;> exact lacks_nil
  | program =>
      exact ⟨List.forall_mem_singleton.mpr (CommandInfo.of_lacks control (command _) absent),
        command _⟩
  | sudoOption => exact ⟨optionGroup_lacks control before absent, before⟩
  | sudoEnd => exact ⟨argument, lacks_nil⟩
  | tailEnded => exact ⟨argument, before⟩
  | tailEnd => exact ⟨argument, before⟩
  | tailOption => exact ⟨optionGroup_lacks control before absent, before⟩
  | @subcommand _ entry _ _ _ found =>
      have below : Lacks c (Table.texts (some entry)) :=
        before.mono (Table.subcommand?_texts found)
      exact ⟨List.forall_mem_singleton.mpr (CommandInfo.of_lacks control below absent), below⟩
  | tailArgument => exact ⟨argument, before⟩

theorem groups_lacks (control : c.code < 0x20) {catalog : Catalog} (known : Lacks c catalog.texts)
    {list : List Lexeme} (absent : ∀ lexeme ∈ list, c ∉ lexeme.text.toList)
    {progress : Progress} (before : Lacks c progress.stage.texts) :
    ∀ group ∈ groups catalog progress list, ∀ node ∈ group,
      Lacks c node.content.texts := by
  induction list generalizing progress with
  | nil => simp [groups]
  | cons lexeme rest inductionHypothesis =>
      rw [List.forall_mem_cons] at absent
      obtain ⟨here, next⟩ :=
        (step_reading catalog progress lexeme).lacks control known absent.1 before
      exact List.forall_mem_cons.mpr ⟨here, inductionHypothesis absent.2 next⟩

end Line

/-- No node of a query says anything with a control character that neither the query nor the
catalog holds. -/
theorem nodes_lack (control : c.code < 0x20) {catalog : Catalog} (known : Lacks c catalog.texts)
    {query : Text} (absent : c ∉ query.toList) {groups : List (List Node)}
    (parsed : parse catalog query = some groups) :
    ∀ node ∈ groups.flatten, Lacks c node.content.texts := by
  obtain ⟨list, closed, -, rfl⟩ := parse_eq_some_iff.mp parsed
  intro node among
  obtain ⟨group, groupAmong, nodeAmong⟩ := List.mem_flatten.mp among
  have words : ∀ lexeme ∈ list, c ∉ lexeme.text.toList :=
    fun lexeme among => (lexemes_standIn closed lexeme among).not_mem absent
  exact Line.groups_lacks control known words lacks_nil group groupAmong node nodeAmong

/-! ### What is said about a node -/

/-- The texts of a gloss. -/
def Gloss.texts (gloss : Gloss) : List Text := [gloss.label, gloss.text.getD ""]

theorem groupLabel?_lacks (control : c.code < 0x20) {group : Option (List Text)} {label : Text}
    (lacks : Lacks c (group.getD [])) (labelled : groupLabel? group = some label) :
    c ∉ label.toList := by
  have gap : c ∉ aliasGap.toList := not_mem_of_printed control (by decide)
  unfold groupLabel? at labelled
  split at labelled
  · cases labelled
  · cases labelled
  · cases labelled
    exact Text.not_mem_joinWith gap lacks

theorem optionLabel_lacks (control : c.code < 0x20) {info : OptionInfo}
    (lacks : Lacks c info.texts) : c ∉ (optionLabel info).toList := by
  have gap : c ∉ aliasGap.toList := not_mem_of_printed control (by decide)
  obtain ⟨-, aliases⟩ := lacks_cons.mp lacks
  obtain ⟨short, long⟩ := lacks_append.mp aliases
  refine Text.not_mem_joinWith gap ?_
  intro label among
  obtain ⟨group, listed, labelled⟩ := List.mem_filterMap.mp among
  rw [List.mem_cons, List.mem_singleton] at listed
  rcases listed with rfl | rfl
  · exact groupLabel?_lacks control short labelled
  · exact groupLabel?_lacks control long labelled

theorem operatorText?_printed (operator : Text) :
    ((operatorText? operator).getD "").toList.all (0x20 ≤ ·.code) = true := by
  unfold operatorText?
  split
  · decide +kernel
  · split <;> decide +kernel

theorem Gloss.of_lacks (control : c.code < 0x20) {node : Node}
    (lacks : Lacks c node.content.texts) : Lacks c (Gloss.of node).texts := by
  obtain ⟨span, content⟩ := node
  have pair {one two : Text} (lacksOne : c ∉ one.toList) (lacksTwo : c ∉ two.toList) :
      Lacks c [one, two] :=
    lacks_cons.mpr ⟨lacksOne, lacks_cons.mpr ⟨lacksTwo, lacks_nil⟩⟩
  cases content with
  | program info => exact lacks
  | subcommand info => exact lacks
  | «sudo» info =>
      refine pair (not_mem_of_printed control ?_) (lacks _ (.tail _ (.head _)))
      dsimp only [of]
      decide
  | option info => exact pair (optionLabel_lacks control lacks) (lacks _ (.head _))
  | stickyOption info => exact pair (optionLabel_lacks control lacks) (lacks _ (.head _))
  | assignment word =>
      refine pair (lacks _ (.head _)) (not_mem_of_printed control ?_)
      dsimp only [of]
      decide +kernel
  | argument word =>
      refine pair (lacks _ (.head _)) (not_mem_of_printed control ?_)
      dsimp only [of]
      decide +kernel
  | operator word =>
      exact pair (lacks _ (.head _)) (not_mem_of_printed control (operatorText?_printed word))
  | pipe word =>
      refine pair (lacks _ (.head _)) (not_mem_of_printed control ?_)
      dsimp only [of]
      decide +kernel

end

end ShellGloss
