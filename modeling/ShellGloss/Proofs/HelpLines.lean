/-
Module: ShellGloss.Proofs.HelpLines
Purpose: The lines of a help text.  Each node has one that ends in a line feed, and more
  exactly where its label, taken from the query, holds line feeds of its own.
Imports: Mathlib.Algebra.GroupWithZero.Nat, Mathlib.Tactic.TFAE, ShellGloss.Proofs.FaithfulNodes,
  ShellGloss.Proofs.LogBlocks
Main exports:
  Text.length_linesOf, Palette.Unbroken, Gloss.sentence, count_glossLines, glossLines_tfae,
  scopeBehind_texts, Node.Faithful.gloss_lacks, parse_node_faithful, count_helpText,
  helpText_lines
-/
import Mathlib.Algebra.GroupWithZero.Nat
import Mathlib.Tactic.TFAE
import ShellGloss.Proofs.FaithfulNodes
import ShellGloss.Proofs.LogBlocks

namespace ShellGloss

/-! ### Line feeds and lines -/

namespace Text

/-- A text has as many lines as line feeds. -/
theorem length_linesOf (text : Text) : (linesOf text).length = text.toList.count (.char '\n') := by
  rw [linesOf, List.length_dropLast, List.length_map, length_splitAt, Nat.add_sub_cancel]

end Text

/-- A palette whose styles stay on one line. -/
def Palette.Unbroken (palette : Palette) : Prop := ∀ kind, Glyph.char '\n' ∉ (palette kind).toList

theorem Painter.count_paint {painter : Painter} (unbroken : painter.palette.Unbroken)
    (kind : Kind) (text : Text) :
    (painter.paint kind text).toList.count (.char '\n') = text.toList.count (.char '\n') := by
  unfold Painter.paint
  dsimp only
  split
  · rfl
  · have style := List.count_eq_zero_of_not_mem (unbroken kind)
    have reset : Palette.reset.toList.count (.char '\n') = 0 := by decide
    rw [Text.toList_append, Text.toList_append, List.count_append, List.count_append, style,
      reset, Nat.zero_add, Nat.add_zero]

/-- A line of help without the line feed that ends it. -/
def Gloss.sentence (painter : Painter) (gloss : Gloss) : Text :=
  let mark : Text := if gloss.kind = .operator then " - " else ": "
  "  " ++ painter.paint gloss.kind gloss.label ++ mark ++ gloss.text.getD ""

theorem Gloss.line_eq (painter : Painter) (gloss : Gloss) :
    gloss.line painter = gloss.sentence painter ++ "\n" := rfl

theorem glossLines_eq (painter : Painter) (list : List Gloss) :
    glossLines painter list =
      Text.concat ((list.map (Gloss.sentence painter)).map (· ++ "\n")) := by
  rw [glossLines, List.map_map]
  rfl

/-- The line feeds inside a line of help are those of its label. -/
theorem Gloss.count_sentence {painter : Painter} (unbroken : painter.palette.Unbroken)
    {gloss : Gloss} (said : Glyph.char '\n' ∉ (gloss.text.getD "").toList) :
    (gloss.sentence painter).toList.count (.char '\n') = gloss.label.toList.count (.char '\n') := by
  have mark :
      (if gloss.kind = .operator then (" - " : Text) else ": ").toList.count (.char '\n') = 0 := by
    split
    · decide
    · decide
  have indent : ("  " : Text).toList.count (.char '\n') = 0 := by decide
  simp only [Gloss.sentence, Text.toList_append, List.count_append]
  rw [mark, indent, List.count_eq_zero_of_not_mem said, Painter.count_paint unbroken]
  omega

/-- Each line of help ends in a line feed, and its label may bring in more. -/
theorem count_glossLines {painter : Painter} (unbroken : painter.palette.Unbroken)
    {list : List Gloss} (said : ∀ gloss ∈ list, Glyph.char '\n' ∉ (gloss.text.getD "").toList) :
    (glossLines painter list).toList.count (.char '\n') =
      list.length + (list.map fun gloss => gloss.label.toList.count (.char '\n')).sum := by
  rw [glossLines]
  induction list with
  | nil => rfl
  | cons gloss rest inductionHypothesis =>
      rw [List.forall_mem_cons] at said
      have last : ("\n" : Text).toList.count (.char '\n') = 1 := by decide
      rw [List.map_cons, Text.concat, Gloss.line_eq, Text.toList_append, Text.toList_append,
        List.count_append, List.count_append, inductionHypothesis said.2,
        Gloss.count_sentence unbroken said.1, last, List.length_cons, List.map_cons, List.sum_cons]
      omega

/-- Lines of help are one line for each gloss, in order, exactly if no label holds a line
feed. -/
theorem glossLines_tfae {painter : Painter} (unbroken : painter.palette.Unbroken)
    {list : List Gloss} (said : ∀ gloss ∈ list, Glyph.char '\n' ∉ (gloss.text.getD "").toList) :
    [(glossLines painter list).toList.count (.char '\n') = list.length,
      Text.linesOf (glossLines painter list) = list.map (Gloss.sentence painter),
      ∀ gloss ∈ list, Glyph.char '\n' ∉ gloss.label.toList].TFAE := by
  tfae_have 1 ↔ 3 := by
    rw [count_glossLines unbroken said, Nat.add_eq_left, List.sum_eq_zero_iff_forall_eq_nat,
      List.forall_mem_map]
    exact forall₂_congr fun gloss _ => List.count_eq_zero
  tfae_have 3 → 2 := by
    intro labels
    rw [glossLines_eq]
    refine Text.linesOf_concat (List.forall_mem_map.mpr fun gloss among => ?_)
    rw [← List.count_eq_zero, Gloss.count_sentence unbroken (said gloss among),
      List.count_eq_zero]
    exact labels gloss among
  tfae_have 2 → 1 := by
    intro lines
    rw [← Text.length_linesOf, lines, List.length_map]
  tfae_finish

/-! ### Where a label comes from

A label is what the catalog tells, or else what the query holds where the node stands.  So a
control character that the catalog lacks gets into a label from the node's own stretch of the
query only, and into what is said about the node not at all.
-/

section

variable {c : Glyph}

theorem Table.options_texts {table : Table} {option : OptionEntry}
    (listed : option ∈ table.options) : option.texts ⊆ table.texts := by
  cases table with
  | none => cases listed
  | some entry => exact CommandEntry.options_texts listed

/-- One node: if the catalog holds the table in force in front of it, it holds the one
behind. -/
theorem scopeStep_texts {catalog : Catalog} {query : Text} {before : Option Scope}
    (held : ∀ scope ∈ before, scope.table.texts ⊆ catalog.texts) (node : Node) :
    ∀ scope ∈ scopeStep catalog query before node, scope.table.texts ⊆ catalog.texts := by
  obtain ⟨span, content⟩ := node
  cases content with
  | program info =>
      rintro _ ⟨⟩
      exact catalog.command?_texts _
  | «sudo» info =>
      rintro _ ⟨⟩
      exact catalog.command?_texts _
  | subcommand info =>
      -- Only a command has a table to go down in.
      rcases before with - | table | table
      · exact fun _ inForce => nomatch inForce
      · exact fun _ inForce => nomatch inForce
      · rintro _ ⟨⟩
        cases found : table.bind (·.subcommand? (Node.text query ⟨span, .subcommand info⟩)) with
        | none => exact List.nil_subset _
        | some below =>
            exact List.Subset.trans (Table.subcommand?_texts found) (held _ rfl)
  | operator word => exact fun _ inForce => nomatch inForce
  | pipe word => exact fun _ inForce => nomatch inForce
  | option info => exact held
  | stickyOption info => exact held
  | assignment word => exact held
  | argument word => exact held

/-- Whatever table is in force, the catalog holds it. -/
theorem scopeBehind_texts {catalog : Catalog} {query : Text} {nodes : List Node} {scope : Scope}
    (inForce : scopeBehind catalog query nodes = some scope) :
    scope.table.texts ⊆ catalog.texts := by
  -- The nodes are read from the left, so the scope in front of them varies.
  suffices general : ∀ before : Option Scope,
      (∀ scope ∈ before, scope.table.texts ⊆ catalog.texts) →
        ∀ scope ∈ nodes.foldl (scopeStep catalog query) before,
          scope.table.texts ⊆ catalog.texts from
    general none (fun _ never => nomatch never) scope inForce
  clear inForce
  induction nodes with
  | nil => exact fun before held => held
  | cons node rest inductionHypothesis =>
      intro before held
      exact inductionHypothesis _ (scopeStep_texts held node)

theorem CommandInfo.Tells.lacks (control : c.code < 0x20) {info : CommandInfo}
    {entry : Option CommandEntry} {called : Text} (tells : info.Tells entry called)
    (known : Lacks c (Table.texts entry)) :
    c ∉ info.summary.toList ∧ (c ∉ called.toList → c ∉ info.name.toList) := by
  cases entry with
  | none =>
      obtain ⟨name, summary⟩ := tells
      rw [name, summary]
      exact ⟨not_mem_of_printed control unknownSummary_printed, id⟩
  | some entry =>
      obtain ⟨name, summary⟩ := tells
      obtain ⟨entryName, entrySummary, options, subcommands⟩ := entry
      simp only [Table.texts, CommandEntry.texts, lacks_cons] at known
      rw [name, summary]
      exact ⟨known.2.1, fun _ => known.1⟩

theorem OptionInfo.Tells.lacks (control : c.code < 0x20) {info : OptionInfo}
    {entry : Option OptionEntry} {called : Text} (tells : info.Tells entry called)
    (known : ∀ option ∈ entry, Lacks c option.texts) :
    c ∉ info.summary.toList ∧ (c ∉ called.toList → Lacks c info.texts) := by
  cases entry with
  | none =>
      obtain ⟨summary, groups⟩ := tells
      have unsaid := not_mem_of_printed control unknownSummary_printed
      rw [summary]
      refine ⟨unsaid, fun absent => ?_⟩
      split at groups <;> simp [OptionInfo.texts, groups, summary, unsaid, absent]
  | some entry =>
      obtain ⟨summary, short, long⟩ := tells
      have held := known entry rfl
      have same (aliases : List Text) :
          (if aliases = [] then none else some aliases : Option (List Text)).getD [] =
            aliases := by
        split
        next empty => rw [empty, Option.getD_none]
        · rfl
      have texts : info.texts = entry.texts := by
        rw [OptionInfo.texts, summary, short, long, same, same]
        rfl
      rw [texts, summary]
      exact ⟨held _ (.head _), fun _ => held⟩

/-- The alias of an option is made of what its node stands over. -/
theorem OptionSpelling.not_mem {table : Table} {query : Text} {word : Lexeme} {node : Node}
    {spelling : Text} (spelled : OptionSpelling table query word node spelling) (notDash : c ≠ '-')
    (absent : c ∉ (node.text query).toList) : c ∉ spelling.toList := by
  cases spelled with
  | long dashes whole cut noEquals ends =>
      rw [whole, cut] at absent
      rw [Text.toList_ofList]
      exact fun among => absent (List.mem_append_left _ among)
  | known notLong whole => rwa [← whole]
  | letter notLong unknown shown =>
      rw [shown, List.mem_cons, not_or] at absent
      simp [notDash, absent.1]
  | firstLetter notLong unknown shown =>
      simp only [shown, List.mem_cons, not_or] at absent
      simp [notDash, absent.2.1]

/-- What is told about an option lacks what the catalog lacks, and its label does if the query
lacks it where the option stands. -/
theorem OptionInfo.Explains.lacks (control : c.code < 0x20) {catalog : Catalog}
    (known : Lacks c catalog.texts) {query : Text} {before : List Node} {scope : Scope}
    (inForce : scopeBehind catalog query before = some scope) {info : OptionInfo} {word : Lexeme}
    {node : Node} (explains : info.Explains scope.table query word node) :
    c ∉ info.summary.toList ∧
      (c ∉ (node.text query).toList → c ∉ (optionLabel info).toList) := by
  obtain ⟨spelling, entry, spelled, first, tells⟩ := explains
  have listed : ∀ option ∈ entry, Lacks c option.texts := by
    rintro option ⟨⟩
    obtain ⟨front, behind, options, -⟩ := first
    have among : option ∈ scope.table.options := by simp [options]
    exact known.mono (List.Subset.trans (Table.options_texts among) (scopeBehind_texts inForce))
  obtain ⟨summary, texts⟩ := tells.lacks control listed
  have notDash : c ≠ '-' := by
    rintro rfl
    exact absurd control (by decide)
  exact ⟨summary, fun absent =>
    optionLabel_lacks control (texts (spelled.not_mem notDash absent))⟩

/-- What is said about a faithful node lacks what the catalog lacks, and its label does if the
query lacks it where the node stands. -/
theorem Node.Faithful.gloss_lacks (control : c.code < 0x20) {catalog : Catalog}
    (known : Lacks c catalog.texts) {query : Text} {before : List Node} {word : Lexeme}
    {node : Node} (faithful : node.Faithful catalog query before word) :
    c ∉ ((Gloss.of node).text.getD "").toList ∧
      (c ∉ (node.text query).toList → c ∉ (Gloss.of node).label.toList) := by
  have command {nodes : List Node} {scope : Scope} {info : CommandInfo} {called : Text}
      (inForce : scopeBehind catalog query nodes = some scope)
      (tells : info.Tells scope.table called) :
      c ∉ info.summary.toList ∧ (c ∉ called.toList → c ∉ info.name.toList) :=
    tells.lacks control (known.mono (scopeBehind_texts inForce))
  have own {text : Text} (same : text = node.text query) :
      c ∉ (node.text query).toList → c ∉ text.toList := by
    rw [same]
    exact id
  obtain ⟨span, content⟩ := node
  cases content with
  | program info =>
      obtain ⟨entry, -, tells, inForce⟩ := faithful
      exact command inForce tells
  | subcommand info =>
      obtain ⟨parent, entry, -, -, tells, inForce⟩ := faithful
      exact command inForce tells
  | «sudo» info =>
      -- The label is fixed, whatever the catalog calls the program.
      obtain ⟨-, entry, -, tells, inForce⟩ := faithful
      refine ⟨(command inForce tells).1, fun _ => not_mem_of_printed control ?_⟩
      dsimp only [Gloss.of]
      decide
  | option info =>
      obtain ⟨scope, inForce, explains⟩ := faithful
      exact explains.lacks control known inForce
  | stickyOption info =>
      obtain ⟨scope, inForce, explains⟩ := faithful
      exact explains.lacks control known inForce
  | assignment text =>
      refine ⟨not_mem_of_printed control ?_, own faithful⟩
      dsimp only [Gloss.of]
      decide +kernel
  | argument text =>
      refine ⟨not_mem_of_printed control ?_, own faithful⟩
      dsimp only [Gloss.of]
      decide +kernel
  | operator text =>
      exact ⟨not_mem_of_printed control (operatorText?_printed text), own faithful⟩
  | pipe text =>
      refine ⟨not_mem_of_printed control ?_, own faithful⟩
      dsimp only [Gloss.of]
      decide +kernel

end

/-- An argument and an assignment are labelled by what the query holds. -/
theorem Node.Faithful.label_eq {catalog : Catalog} {query : Text} {before : List Node}
    {word : Lexeme} {node : Node} (faithful : node.Faithful catalog query before word)
    (isWord : node.kind = .argument ∨ node.kind = .assignment) :
    (Gloss.of node).label = node.text query := by
  obtain ⟨span, content⟩ := node
  cases content with
  | argument text => exact faithful
  | assignment text => exact faithful
  | _ => simp [Node.kind, Content.kind] at isWord

/-- Every node of a query is faithful to it. -/
theorem parse_node_faithful {catalog : Catalog} {query : Text} {groups : List (List Node)}
    (parsed : parse catalog query = some groups) :
    ∀ node ∈ groups.flatten, ∃ before word, node.Faithful catalog query before word := by
  obtain ⟨list, closed, -, rfl⟩ := parse_eq_some_iff.mp parsed
  intro node among
  obtain ⟨group, groupAmong, nodeAmong⟩ := List.mem_flatten.mp among
  obtain ⟨index, groupAt⟩ := List.mem_iff_getElem?.mp groupAmong
  have inside : index < list.length := by
    rw [← Line.length_groups catalog .initial list]
    exact (List.getElem?_eq_some_iff.mp groupAt).1
  have fresh : Line.Progress.initial.stage.Agrees (scopeBehind catalog query []) := trivial
  exact ⟨_, list[index], Line.groups_faithful fresh (lexemes_standIn closed)
    (List.getElem?_eq_getElem inside) groupAt node nodeAmong⟩

/-! ### Lines of a query's help -/

theorem helpText_ofGroups (painter : Painter) (groups : List (List Node)) :
    helpText painter (Leaf.ofGroups groups) =
      glossLines painter (groups.flatten.map Gloss.of) := by
  rw [helpText, glosses, Leaf.nodes_ofGroups]

theorem parse_said {catalog : Catalog} (known : Lacks '\n' catalog.texts) {query : Text}
    {groups : List (List Node)} (parsed : parse catalog query = some groups) :
    ∀ gloss ∈ groups.flatten.map Gloss.of, Glyph.char '\n' ∉ (gloss.text.getD "").toList := by
  refine List.forall_mem_map.mpr fun node among => ?_
  obtain ⟨before, word, faithful⟩ := parse_node_faithful parsed node among
  exact (faithful.gloss_lacks (by decide) known).1

/-- The help for a query holds a line feed for each node, and those of the labels. -/
theorem count_helpText {painter : Painter} (unbroken : painter.palette.Unbroken)
    {catalog : Catalog} (known : Lacks '\n' catalog.texts) {query : Text}
    {groups : List (List Node)} (parsed : parse catalog query = some groups) :
    (helpText painter (Leaf.ofGroups groups)).toList.count (.char '\n') =
      groups.flatten.length +
        (groups.flatten.map fun node => (Gloss.of node).label.toList.count (.char '\n')).sum := by
  rw [helpText_ofGroups, count_glossLines unbroken (parse_said known parsed), List.length_map,
    List.map_map]
  rfl

/-- The help for a query holds a line feed for each node, and those of the labels.  It has one
line for each node, in order, exactly if no label holds a line feed.  One that does has it from
the query, where its node stands; the label of an argument or an assignment is all that stands
there. -/
theorem helpText_lines {painter : Painter} (unbroken : painter.palette.Unbroken)
    {catalog : Catalog} (known : Lacks '\n' catalog.texts) {query : Text}
    {groups : List (List Node)} (parsed : parse catalog query = some groups) :
    let nodes := groups.flatten
    let help := helpText painter (Leaf.ofGroups groups)
    help.toList.count (.char '\n') =
        nodes.length + (nodes.map fun node => (Gloss.of node).label.toList.count (.char '\n')).sum ∧
      [help.toList.count (.char '\n') = nodes.length,
        Text.linesOf help = nodes.map fun node => (Gloss.of node).sentence painter,
        ∀ node ∈ nodes, Glyph.char '\n' ∉ (Gloss.of node).label.toList].TFAE ∧
      ∀ node ∈ nodes,
        (Glyph.char '\n' ∈ (Gloss.of node).label.toList →
          Glyph.char '\n' ∈ (node.text query).toList) ∧
        (node.kind = .argument ∨ node.kind = .assignment →
          (Gloss.of node).label = node.text query) := by
  intro nodes help
  refine ⟨count_helpText unbroken known parsed, ?_, ?_⟩
  · have lines := glossLines_tfae unbroken (parse_said known parsed)
    rw [← helpText_ofGroups, List.length_map, List.map_map, List.forall_mem_map] at lines
    exact lines
  · intro node among
    obtain ⟨before, word, faithful⟩ := parse_node_faithful parsed node among
    refine ⟨fun held => ?_, faithful.label_eq⟩
    exact Decidable.byContradiction fun absent =>
      (faithful.gloss_lacks (by decide) known).2 absent held

theorem Palette.standard_unbroken : Palette.standard.Unbroken := by
  intro kind
  cases kind <;> decide

/-- One line for each node, though the query holds a line feed between its words and one behind
an equals sign. -/
theorem helpText_lines_unbroken :
    let catalog : Catalog := { commands := [Catalog.Bundled.ls] }
    Lacks '\n' catalog.texts ∧
      ∃ groups, parse catalog "ls\n--color='a\nb'" = some groups ∧
        Text.linesOf (helpText {} (Leaf.ofGroups groups)) =
          groups.flatten.map fun node => (Gloss.of node).sentence {} := by
  intro catalog
  have known : Lacks '\n' catalog.texts := by decide +kernel
  have counted : (parse catalog "ls\n--color='a\nb'").map (fun groups =>
      groups.flatten.map fun node => (Gloss.of node).label.toList.count (.char '\n')) =
        some [0, 0] := by decide +kernel
  obtain ⟨groups, parsed, labels⟩ := Option.map_eq_some_iff.mp counted
  have unbroken : ({} : Painter).palette.Unbroken := Palette.standard_unbroken
  obtain ⟨feeds, lines, -⟩ := helpText_lines unbroken known parsed
  rw [labels] at feeds
  exact ⟨known, groups, parsed, (lines.out 0 1).mp feeds⟩

/-- A quoted line feed makes three lines of two nodes. -/
theorem helpText_splits_quoted_line :
    Palette.standard.Unbroken ∧ Lacks '\n' (Catalog.texts {}) ∧
      ∃ groups, parse {} "ls 'a\nb'" = some groups ∧ groups.flatten.length = 2 ∧
        (helpText {} (Leaf.ofGroups groups)).toList.count (.char '\n') = 3 := by
  have counted : (parse {} "ls 'a\nb'").map (fun groups =>
      groups.flatten.map fun node => (Gloss.of node).label.toList.count (.char '\n')) =
        some [0, 1] := by decide +kernel
  obtain ⟨groups, parsed, labels⟩ := Option.map_eq_some_iff.mp counted
  have two : groups.flatten.length = 2 := by
    rw [← List.length_map, labels]
    rfl
  have unbroken : ({} : Painter).palette.Unbroken := Palette.standard_unbroken
  have feeds := count_helpText unbroken lacks_nil parsed
  rw [labels, two] at feeds
  exact ⟨unbroken, lacks_nil, groups, parsed, two, feeds⟩

end ShellGloss
