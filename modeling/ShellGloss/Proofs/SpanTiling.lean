/-
Module: ShellGloss.Proofs.SpanTiling
Purpose: The nodes of a command line lie side by side: each group fills the span of
  its lexeme, and between the lexemes there are blanks only.
Imports: Mathlib.Data.List.Forall2, ShellGloss.Catalog.Bundled, ShellGloss.Line,
  ShellGloss.Proofs.LexicalGrammar
Main exports:
  Span.Tiles, Span.InOrder, Line.step_group, Line.step_tiles, Line.groups_fill,
  Line.Covers, parse_covers
-/
import Mathlib.Data.List.Forall2
import ShellGloss.Catalog.Bundled
import ShellGloss.Line
import ShellGloss.Proofs.LexicalGrammar

namespace ShellGloss

/-! ### Spans side by side -/

namespace Span

/-- Spans that fill the stretch from `start` to `stop`: the first begins at its
start, each next one where the one before ends, the last ends at its stop, and
none is empty. -/
def Tiles (start stop : Nat) : List Span → Prop
  | [] => start = stop
  | span :: rest => span.start = start ∧ 0 < span.length ∧ Tiles span.stop stop rest

/-- Spans from left to right between two offsets, none of them empty, perhaps
with gaps. -/
def InOrder (lower upper : Nat) : List Span → Prop
  | [] => lower ≤ upper
  | span :: rest => lower ≤ span.start ∧ 0 < span.length ∧ InOrder span.stop upper rest

/-- Whether an offset lies inside a span. -/
def Holds (span : Span) (offset : Nat) : Prop := span.start ≤ offset ∧ offset < span.stop

theorem Tiles.inOrder {start stop : Nat} {spans : List Span}
    (tiles : Tiles start stop spans) : InOrder start stop spans := by
  induction spans generalizing start with
  | nil => exact Nat.le_of_eq tiles
  | cons span rest inductionHypothesis =>
      obtain ⟨starts, positive, others⟩ := tiles
      exact ⟨Nat.le_of_eq starts.symm, positive, inductionHypothesis others⟩

/-- A stretch that is not empty takes at least one span. -/
theorem Tiles.ne_nil {start stop : Nat} {spans : List Span} (tiles : Tiles start stop spans)
    (positive : start < stop) : spans ≠ [] := by
  rintro rfl
  exact absurd tiles (Nat.ne_of_lt positive)

/-- Every offset of the stretch lies in one of the spans. -/
theorem Tiles.exists_holds {start stop : Nat} {spans : List Span}
    (tiles : Tiles start stop spans) {offset : Nat} (behind : start ≤ offset)
    (before : offset < stop) : ∃ span ∈ spans, span.Holds offset := by
  induction spans generalizing start with
  | nil =>
      have empty : start = stop := tiles
      omega
  | cons span rest inductionHypothesis =>
      obtain ⟨rfl, positive, others⟩ := tiles
      by_cases here : offset < span.stop
      · exact ⟨span, List.mem_cons_self, behind, here⟩
      · obtain ⟨other, among, holds⟩ := inductionHypothesis others (Nat.le_of_not_lt here)
        exact ⟨other, List.mem_cons_of_mem span among, holds⟩

theorem InOrder.lower_le {lower lower' upper : Nat} {spans : List Span}
    (ordered : InOrder lower upper spans) (le : lower' ≤ lower) :
    InOrder lower' upper spans := by
  cases spans with
  | nil => exact Nat.le_trans le ordered
  | cons span rest => exact ⟨Nat.le_trans le ordered.1, ordered.2⟩

theorem InOrder.append {lower middle upper : Nat} {one two : List Span}
    (first : InOrder lower middle one) (second : InOrder middle upper two) :
    InOrder lower upper (one ++ two) := by
  induction one generalizing lower with
  | nil => exact second.lower_le first
  | cons span rest inductionHypothesis =>
      obtain ⟨behind, positive, others⟩ := first
      exact ⟨behind, positive, inductionHypothesis others⟩

theorem InOrder.le {lower upper : Nat} {spans : List Span}
    (ordered : InOrder lower upper spans) : lower ≤ upper := by
  induction spans generalizing lower with
  | nil => exact ordered
  | cons span rest inductionHypothesis =>
      obtain ⟨behind, -, others⟩ := ordered
      exact Nat.le_trans behind (Nat.le_trans span.start_le_stop (inductionHypothesis others))

/-- Spans in order lie between the two offsets and are not empty. -/
theorem InOrder.bounds {lower upper : Nat} {spans : List Span}
    (ordered : InOrder lower upper spans) :
    ∀ span ∈ spans, lower ≤ span.start ∧ span.start < span.stop ∧ span.stop ≤ upper := by
  induction spans generalizing lower with
  | nil =>
      intro span among
      cases among
  | cons first rest inductionHypothesis =>
      obtain ⟨behind, positive, others⟩ := ordered
      intro span among
      rcases List.mem_cons.mp among with rfl | later
      · exact ⟨behind, Nat.lt_add_of_pos_right positive, others.le⟩
      · obtain ⟨after, proper, before⟩ := inductionHypothesis others span later
        exact ⟨Nat.le_trans behind (Nat.le_trans first.start_le_stop after), proper, before⟩

/-- Spans in order do not overlap, and their starts increase. -/
theorem InOrder.pairwise {lower upper : Nat} {spans : List Span}
    (ordered : InOrder lower upper spans) :
    spans.Pairwise fun one two => one.start < two.start ∧ one.stop ≤ two.start := by
  induction spans generalizing lower with
  | nil => exact .nil
  | cons span rest inductionHypothesis =>
      obtain ⟨-, positive, others⟩ := ordered
      refine .cons ?_ (inductionHypothesis others)
      intro later among
      have after : span.stop ≤ later.start := (others.bounds later among).1
      exact ⟨Nat.lt_of_lt_of_le (Nat.lt_add_of_pos_right positive) after, after⟩

end Span

/-! ### Where the lexemes stand -/

namespace Grammar

/-- The lexemes of a reading stand one behind the other. -/
theorem Reads.inOrder {chars : List Glyph} {pieces : List Piece} (reads : Reads chars pieces)
    (offset : Nat) :
    Span.InOrder offset (offset + chars.length) ((located offset pieces).map Lexeme.span) := by
  induction reads using Reads.layout generalizing offset with
  | nil => exact Nat.le_refl offset
  | blank isBlank more inductionHypothesis =>
      have behind := inductionHypothesis (offset + 1)
      rw [Nat.add_assoc, Nat.add_comm 1] at behind
      exact behind.lower_le (Nat.le_succ offset)
  | @lexeme control text rest pieces whole more nonempty inductionHypothesis =>
      have behind := inductionHypothesis (offset + text.length)
      rw [located_ofLexeme, List.length_append, ← Nat.add_assoc]
      refine ⟨Nat.le_refl offset, ?_, ?_⟩
      · rw [Lexeme.span, Text.length_ofList]
        exact List.length_pos_of_ne_nil nonempty
      · rw [Lexeme.span, Span.stop, Text.length_ofList]
        exact behind

/-- What lies outside all lexemes of a reading is blank. -/
theorem Reads.isBlank_of_outside {chars : List Glyph} {pieces : List Piece}
    (reads : Reads chars pieces) (offset index : Nat) {c : Glyph}
    (found : chars[index]? = some c)
    (outside : ∀ lexeme ∈ located offset pieces, ¬ lexeme.span.Holds (offset + index)) :
    Text.isBlank c = true := by
  induction reads using Reads.layout generalizing offset index with
  | nil => cases found
  | blank isBlank more inductionHypothesis =>
      cases index with
      | zero =>
          cases found
          exact isBlank
      | succ index =>
          apply inductionHypothesis (offset + 1) index found
          rw [Nat.add_assoc, Nat.add_comm 1]
          exact outside
  | @lexeme control text rest pieces whole more nonempty inductionHypothesis =>
      rw [located_ofLexeme, List.forall_mem_cons] at outside
      obtain ⟨notHere, others⟩ := outside
      by_cases here : index < text.length
      · refine absurd ⟨Nat.le_add_right offset index, ?_⟩ notHere
        rw [Lexeme.span, Span.stop, Text.length_ofList]
        exact Nat.add_lt_add_left here offset
      · have further : text.length ≤ index := Nat.le_of_not_lt here
        rw [List.getElem?_append_right further] at found
        apply inductionHypothesis (offset + text.length) (index - text.length) found
        rw [Nat.add_assoc, Nat.add_sub_cancel' further]
        exact others

end Grammar

/-! ### Each group fills its lexeme -/

/-- The letters of a cluster fill it, the dash in front counted to the first. -/
theorem clusterGroup_tiles (table : Table) (lead start : Nat) (letters : List Glyph)
    (led : lead = 0 ∨ letters ≠ []) :
    Span.Tiles start (start + lead + letters.length)
      ((clusterGroup table lead start letters).nodes.map Node.span) := by
  induction letters generalizing lead start with
  | nil =>
      rcases led with rfl | nonempty
      · rfl
      · exact absurd rfl nonempty
  | cons letter rest inductionHypothesis =>
      simp only [clusterGroup]
      split
      · split
        next last =>
          rw [List.isEmpty_iff] at last
          subst last
          exact ⟨rfl, Nat.succ_pos lead, rfl⟩
        · refine ⟨rfl, ?_, ?_⟩
          · show 0 < lead + 1 + rest.length
            omega
          · show start + (lead + 1 + rest.length) = start + lead + (rest.length + 1)
            omega
      · refine ⟨rfl, Nat.succ_pos lead, ?_⟩
        have others := inductionHypothesis 0 (start + lead + 1) (.inl rfl)
        have places : start + lead + 1 + 0 + rest.length = start + lead + (rest.length + 1) := by
          omega
        rw [places] at others
        exact others

namespace Line

theorem whole_tiles {lexeme : Lexeme} (nonempty : 0 < lexeme.text.length)
    (content : Content) :
    Span.Tiles lexeme.start lexeme.stop ((whole lexeme content).map Node.span) :=
  ⟨rfl, nonempty, rfl⟩

/-- The options of a word fill it. -/
theorem optionGroup_tiles {word : Lexeme} (isOption : isOptionWord word = true)
    (table : Table) :
    Span.Tiles word.start word.stop ((optionGroup table word).nodes.map Node.span) := by
  obtain ⟨letter, rest, spelled⟩ :
      ∃ letter rest, word.text.toList = Glyph.char '-' :: letter :: rest := by
    unfold isOptionWord at isOption
    split at isOption
    next letter rest spelled => exact ⟨letter, rest, spelled⟩
    · cases isOption
  have size : word.text.length = rest.length + 2 := by
    rw [← Text.length_toList, spelled]
    rfl
  have single (info : OptionInfo) :
      Span.Tiles word.start word.stop ([(⟨word.span, .option info⟩ : Node)].map Node.span) :=
    whole_tiles (by omega) (.option info)
  unfold optionGroup
  split
  · exact single _
  · unfold shortGroup
    split
    · exact single _
    · have letters := clusterGroup_tiles table 1 word.start (letter :: rest)
        (.inr (List.cons_ne_nil letter rest))
      have places : word.start + 1 + (letter :: rest).length = word.stop := by
        rw [Lexeme.stop, size, List.length_cons]
        omega
      rw [spelled]
      rw [places] at letters
      exact letters

theorem assignmentOrProgram_group (catalog : Catalog) (stage : Stage) (word : Lexeme) :
    ∃ content, (assignmentOrProgram catalog stage word).1 = whole word content := by
  unfold assignmentOrProgram
  split
  · exact ⟨_, rfl⟩
  · exact ⟨_, rfl⟩

/-- What the group of a lexeme can be: one node over all of it, or the options of a
word that is read as options. -/
theorem step_group (catalog : Catalog) (progress : Progress) (lexeme : Lexeme) :
    (∃ content, (step catalog progress lexeme).1 = whole lexeme content) ∨
      (isOptionWord lexeme = true ∧
        ∃ table, (step catalog progress lexeme).1 = (optionGroup table lexeme).nodes) := by
  unfold step
  split
  · exact .inl ⟨_, rfl⟩
  unfold anyWord
  split
  · exact .inl ⟨_, rfl⟩
  cases progress.stage with
  | opening =>
      simp only [freeWord]
      split
      · exact .inl ⟨_, rfl⟩
      · exact .inl (assignmentOrProgram_group catalog .opening lexeme)
  | sudoOptions table =>
      simp only [freeWord]
      split
      · exact .inl ⟨_, rfl⟩
      split
      next isOption => exact .inr ⟨isOption, table, rfl⟩
      · exact .inl (assignmentOrProgram_group catalog .environment lexeme)
  | environment => exact .inl (assignmentOrProgram_group catalog .environment lexeme)
  | tail table mode =>
      simp only [freeWord]
      unfold tailWord
      split
      · exact .inl ⟨_, rfl⟩
      split
      · exact .inl ⟨_, rfl⟩
      split
      next isOption => exact .inr ⟨isOption, table, rfl⟩
      split
      · exact .inl ⟨_, rfl⟩
      · exact .inl ⟨_, rfl⟩

/-- One lexeme, whatever came before it, is filled by its group. -/
theorem step_tiles (catalog : Catalog) (progress : Progress) {lexeme : Lexeme}
    (nonempty : 0 < lexeme.text.length) :
    Span.Tiles lexeme.start lexeme.stop
      ((step catalog progress lexeme).1.map Node.span) := by
  rcases step_group catalog progress lexeme with ⟨content, group⟩ | ⟨isOption, table, group⟩
  · rw [group]
    exact whole_tiles nonempty content
  · rw [group]
    exact optionGroup_tiles isOption table

/-- What it means that a group belongs to a lexeme: it is there, and it fills the
lexeme. -/
def Fills (lexeme : Lexeme) (group : List Node) : Prop :=
  group ≠ [] ∧ Span.Tiles lexeme.start lexeme.stop (group.map Node.span)

/-- The groups of some lexemes fill them one by one. -/
theorem groups_fill (catalog : Catalog) (progress : Progress) {list : List Lexeme}
    (nonempty : ∀ lexeme ∈ list, 0 < lexeme.text.length) :
    List.Forall₂ Fills list (groups catalog progress list) := by
  induction list generalizing progress with
  | nil => exact .nil
  | cons lexeme rest inductionHypothesis =>
      rw [List.forall_mem_cons] at nonempty
      have tiles := step_tiles catalog progress nonempty.1
      have proper : lexeme.start < lexeme.stop := Nat.lt_add_of_pos_right nonempty.1
      have present : (step catalog progress lexeme).1 ≠ [] := by
        intro missing
        rw [missing] at tiles
        exact tiles.ne_nil proper rfl
      exact .cons ⟨present, tiles⟩ (inductionHypothesis _ nonempty.2)

/-- Groups that fill lexemes in order hold their nodes in order. -/
theorem inOrder_flatten {list : List Lexeme} {groups : List (List Node)}
    (fill : List.Forall₂ Fills list groups) {lower upper : Nat}
    (ordered : Span.InOrder lower upper (list.map Lexeme.span)) :
    Span.InOrder lower upper (groups.flatten.map Node.span) := by
  induction fill generalizing lower with
  | nil => exact ordered
  | @cons lexeme group list groups here others inductionHypothesis =>
      obtain ⟨behind, -, later⟩ := ordered
      rw [List.flatten_cons, List.map_append]
      exact (here.2.inOrder.lower_le behind).append (inductionHypothesis later)

/-- An offset inside a lexeme lies inside a node of its group. -/
theorem exists_node_of_holds {list : List Lexeme} {groups : List (List Node)}
    (fill : List.Forall₂ Fills list groups) {lexeme : Lexeme} (among : lexeme ∈ list)
    {offset : Nat} (holds : lexeme.span.Holds offset) :
    ∃ node ∈ groups.flatten, node.span.Holds offset := by
  induction fill with
  | nil => cases among
  | @cons first group list groups here others inductionHypothesis =>
      rcases List.mem_cons.mp among with rfl | later
      · obtain ⟨span, inside, spanHolds⟩ := here.2.exists_holds holds.1 holds.2
        obtain ⟨node, member, rfl⟩ := List.mem_map.mp inside
        exact ⟨node, List.mem_append_left _ member, spanHolds⟩
      · obtain ⟨node, member, nodeHolds⟩ := inductionHypothesis later
        exact ⟨node, List.mem_append_right _ member, nodeHolds⟩

end Line

/-- How the groups of a command line lie in it. -/
structure Line.Covers (query : Text) (list : List Lexeme) (groups : List (List Node)) :
    Prop where
  lexed : lexemes query = .ok list
  /-- One group for each lexeme, in order, and each fills its lexeme. -/
  fill : List.Forall₂ Line.Fills list groups
  /-- All nodes in a row stand from left to right and do not overlap. -/
  ordered : (groups.flatten.map Node.span).Pairwise
    fun one two => one.start < two.start ∧ one.stop ≤ two.start
  inside : ∀ node ∈ groups.flatten, node.span.stop ≤ query.length
  /-- What lies outside all nodes is blank. -/
  blank : ∀ offset c, query.toList[offset]? = some c →
    (∀ node ∈ groups.flatten, ¬ node.span.Holds offset) → Text.isBlank c = true

/-- The groups of a command line cover its lexemes one by one, and all of the line but
blanks. -/
theorem parse_covers {catalog : Catalog} {query : Text} {groups : List (List Node)}
    (parsed : parse catalog query = some groups) : ∃ list, Line.Covers query list groups := by
  obtain ⟨list, closed, -, rfl⟩ := parse_eq_some_iff.mp parsed
  obtain ⟨pieces, reads, rfl⟩ := Grammar.run_eq_ok_iff_reads.mp closed
  have ordered := reads.inOrder 0
  rw [Nat.zero_add, Text.length_toList] at ordered
  have nonempty : ∀ lexeme ∈ Grammar.located 0 pieces, 0 < lexeme.text.length := by
    intro lexeme among
    have bounds := ordered.bounds lexeme.span (List.mem_map_of_mem among)
    exact Nat.pos_of_lt_add_right bounds.2.1
  have fill := Line.groups_fill catalog .initial nonempty
  have nodesOrdered := Line.inOrder_flatten fill ordered
  refine ⟨_, closed, fill, nodesOrdered.pairwise, ?_, ?_⟩
  · intro node among
    exact (nodesOrdered.bounds node.span (List.mem_map_of_mem among)).2.2
  · intro offset c found outside
    apply reads.isBlank_of_outside 0 offset found
    intro lexeme among holds
    rw [Nat.zero_add] at holds
    obtain ⟨node, member, nodeHolds⟩ := Line.exists_node_of_holds fill among holds
    exact outside node member nodeHolds

theorem parse_covers_sticky_option :
    ∃ groups, parse Catalog.bundled "sudo -u me tar -xfa 'b c'|wc -l" = some groups ∧
      ∃ list, Line.Covers "sudo -u me tar -xfa 'b c'|wc -l" list groups := by
  have answered : (parse Catalog.bundled "sudo -u me tar -xfa 'b c'|wc -l").isSome = true := by
    decide +kernel
  obtain ⟨groups, parsed⟩ := Option.isSome_iff_exists.mp answered
  exact ⟨groups, parsed, parse_covers parsed⟩

end ShellGloss
