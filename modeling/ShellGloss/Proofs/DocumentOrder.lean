/-
Module: ShellGloss.Proofs.DocumentOrder
Purpose: The nodes of a command line are highlighted as they stand: none is moved, cut
  off or passed over.
Imports: ShellGloss.Highlight, ShellGloss.Proofs.SpanTiling,
  ShellGloss.Proofs.TableScope
Main exports:
  Text.slice_append_slice, Span.Tiles.concat_slices, Span.InOrder.after, Span.clip,
  Node.clip, Highlight.inTurn, Highlight.weave_cons_of_ahead, Highlight.weave_eq_inTurn,
  lexemes_inOrder, Line.groups_fill_lexemes, highlight_parse
-/
import ShellGloss.Highlight
import ShellGloss.Proofs.SpanTiling
import ShellGloss.Proofs.TableScope

namespace ShellGloss

/-! ### Neighbouring slices -/

/-- What is left behind an offset, up to another one. -/
theorem Text.take_drop_eq_sliceChars (cs : List Glyph) (start stop : Nat) :
    (cs.drop start).take (stop - start) = Text.sliceChars cs start stop := by
  rw [Text.sliceChars, List.drop_take]

theorem Text.slice_append_slice (s : Text) {start middle stop : Nat}
    (ahead : start ≤ middle) (further : middle ≤ stop) :
    Text.slice s start middle ++ Text.slice s middle stop = Text.slice s start stop := by
  have places : stop - start = (middle - start) + (stop - middle) := by omega
  have behind : (s.toList.drop middle) = (s.toList.drop start).drop (middle - start) := by
    rw [List.drop_drop, Nat.add_sub_cancel' ahead]
  simp only [Text.slice, ← Text.take_drop_eq_sliceChars, ← Text.ofList_append]
  rw [behind, places, List.take_add]

namespace Span

/-- Spans that fill a stretch hold its text, piece by piece. -/
theorem Tiles.concat_slices (query : Text) {start stop : Nat} {spans : List Span}
    (tiles : Tiles start stop spans) :
    Text.concat (spans.map fun span => Text.slice query span.start span.stop) =
      Text.slice query start stop := by
  induction spans generalizing start with
  | nil =>
      have empty : start = stop := tiles
      subst empty
      simp [Text.concat, Text.slice, Text.sliceChars]
  | cons span rest inductionHypothesis =>
      obtain ⟨rfl, -, others⟩ := tiles
      rw [List.map_cons, Text.concat, inductionHypothesis others]
      exact Text.slice_append_slice query span.start_le_stop others.inOrder.le

/-- Spans in order are sorted. -/
theorem InOrder.pairwise_le {lower upper : Nat} {spans : List Span}
    (ordered : InOrder lower upper spans) :
    spans.Pairwise fun one two => one.le two = true := by
  apply ordered.pairwise.imp
  intro one two apart
  simp [Span.le, apart.1]

/-- Each of some spans in order starts behind the one before it. -/
theorem InOrder.after {lower upper : Nat} {before after : List Span} {span : Span}
    (ordered : InOrder lower upper (before ++ span :: after)) :
    ((before.getLast?.map Span.stop).getD lower) ≤ span.start ∧ span.stop ≤ upper := by
  induction before generalizing lower with
  | nil => exact ⟨ordered.1, ordered.2.2.le⟩
  | cons first rest inductionHypothesis =>
      obtain ⟨-, -, others⟩ := ordered
      have last : ((first :: rest).getLast?.map Span.stop).getD lower =
          (rest.getLast?.map Span.stop).getD first.stop := by
        rw [List.getLast?_cons]
        cases rest.getLast? <;> rfl
      rw [last]
      exact inductionHypothesis others

/-- A span in a text of `size` characters: offsets past the end count as the end. -/
def clip (size : Nat) (span : Span) : Span :=
  ⟨min span.start size, min span.stop size - min span.start size⟩

@[simp] theorem start_clip (size : Nat) (span : Span) :
    (span.clip size).start = min span.start size := rfl

@[simp] theorem stop_clip (size : Nat) (span : Span) :
    (span.clip size).stop = min span.stop size := by
  have proper : min span.start size ≤ min span.stop size := by
    have ordered := span.start_le_stop
    omega
  exact Nat.add_sub_cancel' proper

/-- A span inside the text stays as it is. -/
theorem clip_of_stop_le {size : Nat} {span : Span} (inside : span.stop ≤ size) :
    span.clip size = span := by
  have startInside : min span.start size = span.start :=
    Nat.min_eq_left (Nat.le_trans span.start_le_stop inside)
  rw [clip, startInside, Nat.min_eq_left inside, Span.stop, Nat.add_sub_cancel_left]

end Span

/-- A node of which only what lies in a text of `size` characters counts. -/
def Node.clip (size : Nat) (node : Node) : Node := { node with span := node.span.clip size }

@[simp] theorem Node.span_clip (size : Nat) (node : Node) :
    (node.clip size).span = node.span.clip size := rfl

/-! ### Highlighting in turn -/

namespace Highlight

/-- A query from an offset on, in which some nodes are painted where they stand, one after
the other: the text in front of a node as it is, then the node's own text in its style. -/
def inTurn (painter : Painter) (query : Text) (cursor : Nat) : List Node → Text
  | [] => Text.slice query cursor query.length
  | node :: rest =>
      Text.slice query cursor node.span.start ++ painter.paint node.kind (node.text query) ++
        inTurn painter query node.span.stop rest

/-- Where the text behind some nodes begins: at the end of the last one. -/
def cursorBehind (nodes : List Node) : Nat :=
  (nodes.getLast?.map fun node => node.span.stop).getD 0

theorem weave_nil (painter : Painter) (query : Text) (cursor : Nat) :
    weave painter query.length cursor (query.toList.drop cursor) [] =
      (inTurn painter query cursor []).toList := by
  rw [weave, inTurn, Text.slice, Text.toList_ofList, Text.sliceChars,
    ← Text.length_toList, List.take_length]

/-- A node that starts at the cursor or behind it is painted, as far as it lies in the query. -/
theorem weave_cons_of_ahead (painter : Painter) (query : Text) {cursor : Nat} {node : Node}
    (ahead : cursor ≤ (node.clip query.length).span.start) (rest : List Node) :
    weave painter query.length cursor (query.toList.drop cursor) (node :: rest) =
      (Text.slice query cursor (node.clip query.length).span.start ++
          painter.paint node.kind ((node.clip query.length).text query)).toList ++
        weave painter query.length (node.clip query.length).span.stop
          (query.toList.drop (node.clip query.length).span.stop) rest := by
  have proper := (node.clip query.length).span.start_le_stop
  rw [Node.text, Node.span_clip, Span.start_clip, Span.stop_clip] at *
  simp only [weave]
  -- The offsets are those of the clipped span from here on, and only their order counts.
  generalize min node.span.start query.length = start at ahead proper ⊢
  generalize min node.span.stop query.length = stop at proper ⊢
  have toStart : (query.toList.drop cursor).drop (start - cursor) = query.toList.drop start := by
    rw [List.drop_drop, Nat.add_sub_cancel' ahead]
  have toStop : (query.toList.drop cursor).drop (stop - cursor) = query.toList.drop stop := by
    rw [List.drop_drop, Nat.add_sub_cancel' (Nat.le_trans ahead proper)]
  rw [if_neg (Nat.not_lt.mpr ahead), toStart, toStop, Text.take_drop_eq_sliceChars,
    Text.take_drop_eq_sliceChars, Text.toList_append, Text.slice, Text.toList_ofList,
    Text.slice]

/-- Nodes in order are painted in turn: the tests for an overlap and for the end of the
query come out the same way at every one of them. -/
theorem weave_eq_inTurn (painter : Painter) (query : Text) {cursor : Nat}
    {nodes : List Node}
    (ordered : Span.InOrder cursor query.length (nodes.map Node.span)) :
    weave painter query.length cursor (query.toList.drop cursor) nodes =
      (inTurn painter query cursor nodes).toList := by
  induction nodes generalizing cursor with
  | nil => exact weave_nil painter query cursor
  | cons node rest inductionHypothesis =>
      obtain ⟨ahead, -, others⟩ := ordered
      have inside : node.clip query.length = node := by
        rw [Node.clip, Span.clip_of_stop_le others.le]
      have clippedAhead : cursor ≤ (node.clip query.length).span.start := by
        rw [inside]
        exact ahead
      rw [weave_cons_of_ahead painter query clippedAhead, inside,
        inductionHypothesis others, ← Text.toList_append]
      rfl

end Highlight

/-- The lexemes of a query stand in it from left to right. -/
theorem lexemes_inOrder {query : Text} {list : List Lexeme}
    (closed : lexemes query = .ok list) :
    Span.InOrder 0 query.length (list.map Lexeme.span) := by
  obtain ⟨pieces, reads, rfl⟩ := Grammar.run_eq_ok_iff_reads.mp closed
  have ordered := reads.inOrder 0
  rw [Nat.zero_add, Text.length_toList] at ordered
  exact ordered

/-- The groups of the lexemes of a query fill them one by one. -/
theorem Line.groups_fill_lexemes (catalog : Catalog) {query : Text} {list : List Lexeme}
    (closed : lexemes query = .ok list) :
    List.Forall₂ Line.Fills list (Line.groups catalog .initial list) := by
  apply Line.groups_fill
  intro lexeme among
  have bounds := (lexemes_inOrder closed).bounds lexeme.span (List.mem_map_of_mem among)
  exact Nat.pos_of_lt_add_right bounds.2.1

/-- A group that fills a lexeme of a query holds the lexeme's text, piece by piece. -/
theorem Line.Fills.concat_texts {query : Text} {lexeme : Lexeme} {group : List Node}
    (fills : Line.Fills lexeme group) (stands : lexeme.StandsIn query) :
    Text.concat (group.map (Node.text query)) = lexeme.text := by
  have pieces := fills.2.concat_slices query
  rw [List.map_map] at pieces
  exact pieces.trans stands

/-- A command line is highlighted in the order of its nodes.  Sorting leaves them where they
are; each one starts at the end of the one before or behind it and ends inside the query, so
that none is passed over or cut off; and the nodes of a lexeme's group, which are all painted,
hold every character of the lexeme. -/
theorem highlight_parse (painter : Painter) {catalog : Catalog} {query : Text}
    {groups : List (List Node)} (parsed : parse catalog query = some groups) :
    highlight painter query (Leaf.ofGroups groups) =
        Highlight.inTurn painter query 0 groups.flatten ∧
      sortBy (fun a b => a.span.le b.span) (Leaf.nodes (Leaf.ofGroups groups)) =
        groups.flatten ∧
      (∀ before node after, groups.flatten = before ++ node :: after →
        Highlight.cursorBehind before ≤ node.span.start ∧ node.span.stop ≤ query.length) ∧
      ∃ list, lexemes query = .ok list ∧
        List.Forall₂
          (fun lexeme group =>
            group ≠ [] ∧ Text.concat (group.map (Node.text query)) = lexeme.text)
          list groups := by
  obtain ⟨list, closed, -, rfl⟩ := parse_eq_some_iff.mp parsed
  have fill := Line.groups_fill_lexemes catalog closed
  have ordered := Line.inOrder_flatten fill (lexemes_inOrder closed)
  have sorted : sortBy (fun a b => a.span.le b.span)
      (Leaf.nodes (Leaf.ofGroups (Line.groups catalog .initial list))) =
        (Line.groups catalog .initial list).flatten := by
    rw [Leaf.nodes_ofGroups]
    exact sortBy_eq_self (List.pairwise_map.mp ordered.pairwise_le)
  refine ⟨?_, sorted, ?_, list, closed, ?_⟩
  · have woven := Highlight.weave_eq_inTurn painter query ordered
    rw [List.drop_zero] at woven
    rw [highlight, sorted, woven, Text.ofList_toList]
  · intro before node after split
    rw [split, List.map_append, List.map_cons] at ordered
    have behind := ordered.after
    rw [List.getLast?_map, Option.map_map] at behind
    exact behind
  · have standing := (List.forall₂_and_left list _).mpr ⟨lexemes_standIn closed, fill⟩
    apply standing.imp
    intro lexeme group here
    exact ⟨here.2.1, here.2.concat_texts here.1⟩

/-- The group of `-xfa` holds two nodes without a gap between them, and the operator follows
its word directly. -/
theorem highlight_parse_adjacent_spans :
    ∃ groups, parse Catalog.bundled " tar  -xfa|wc" = some groups ∧
      highlight {} " tar  -xfa|wc" (Leaf.ofGroups groups) =
        Highlight.inTurn {} " tar  -xfa|wc" 0 groups.flatten ∧
      ∃ list, lexemes " tar  -xfa|wc" = .ok list ∧
        List.Forall₂
          (fun lexeme group =>
            group ≠ [] ∧ Text.concat (group.map (Node.text " tar  -xfa|wc")) = lexeme.text)
          list groups := by
  have answered : (parse Catalog.bundled " tar  -xfa|wc").isSome = true := by decide +kernel
  obtain ⟨groups, parsed⟩ := Option.isSome_iff_exists.mp answered
  obtain ⟨inTurn, -, -, whole⟩ := highlight_parse {} parsed
  exact ⟨groups, parsed, inTurn, whole⟩

end ShellGloss
