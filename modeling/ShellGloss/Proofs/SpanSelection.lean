/-
Module: ShellGloss.Proofs.SpanSelection
Purpose: Which spans are painted when nodes overlap: in the order of their spans, each node
  that starts in no painted one.  The order in which the nodes are given does not matter.
Imports: ShellGloss.Proofs.ColourTransparency, ShellGloss.Proofs.DocumentOrder
Main exports:
  Highlight.InStableOrder, Highlight.select, Highlight.Selection, highlight_selects,
  Node.look, Highlight.weave_congr, highlight_perm
-/
import ShellGloss.Proofs.ColourTransparency
import ShellGloss.Proofs.DocumentOrder

namespace ShellGloss

namespace Highlight

/-! ### The order of the nodes -/

/-- Nodes in the order of their spans, by start and then by end; nodes of one span stand as
they stood. -/
structure InStableOrder (nodes ordered : List Node) : Prop where
  perm : ordered.Perm nodes
  sorted : ordered.Pairwise fun a b =>
    a.span.start < b.span.start ∨ a.span.start = b.span.start ∧ a.span.stop ≤ b.span.stop
  stable : ∀ span : Span,
    ordered.filter (fun node => node.span = span) = nodes.filter (fun node => node.span = span)

theorem pairwise_sorted (nodes : List Node) :
    (sortBy (fun a b => a.span.le b.span) nodes).Pairwise fun a b => a.span.le b.span = true := by
  apply pairwise_sortBy
  · intro a b
    exact Span.le_total a.span b.span
  · intro a b c
    exact Span.le_trans a.span b.span c.span

theorem inStableOrder_sortBy (nodes : List Node) :
    InStableOrder nodes (sortBy (fun a b => a.span.le b.span) nodes) where
  perm := perm_sortBy _ nodes
  sorted := (pairwise_sorted nodes).imp Span.le_iff.mp
  stable span := by
    apply filter_sortBy
    intro a b sameOne sameTwo
    rw [decide_eq_true_eq] at sameOne sameTwo
    rw [sameOne, sameTwo, Span.le_iff]
    exact .inr ⟨rfl, Nat.le_refl _⟩

/-! ### The choice -/

/-- Nodes, each with whether it is chosen: one that starts before the cursor is not, and any
other takes the cursor to its end. -/
def select (size cursor : Nat) : List Node → List (Node × Bool)
  | [] => []
  | node :: rest =>
      if (node.span.clip size).start < cursor then (node, false) :: select size cursor rest
      else (node, true) :: select size (node.span.clip size).stop rest

/-- The nodes that are chosen. -/
def chosen (marked : List (Node × Bool)) : List Node :=
  (marked.filter Prod.snd).map Prod.fst

@[simp] theorem chosen_cons_false (node : Node) (rest : List (Node × Bool)) :
    chosen ((node, false) :: rest) = chosen rest := rfl

@[simp] theorem chosen_cons_true (node : Node) (rest : List (Node × Bool)) :
    chosen ((node, true) :: rest) = node :: chosen rest := rfl

theorem chosen_append (one two : List (Node × Bool)) :
    chosen (one ++ two) = chosen one ++ chosen two := by
  rw [chosen, List.filter_append, List.map_append]
  rfl

theorem map_fst_select (size cursor : Nat) (nodes : List Node) :
    (select size cursor nodes).map Prod.fst = nodes := by
  induction nodes generalizing cursor with
  | nil => rfl
  | cons node rest inductionHypothesis =>
      rw [select]
      split
      · rw [List.map_cons, inductionHypothesis]
      · rw [List.map_cons, inductionHypothesis]

/-- Nothing is chosen that starts before the cursor. -/
theorem cursor_le_of_chosen {size cursor : Nat} {nodes : List Node} :
    ∀ node ∈ chosen (select size cursor nodes), cursor ≤ (node.span.clip size).start := by
  induction nodes generalizing cursor with
  | nil =>
      intro node isChosen
      cases isChosen
  | cons first rest inductionHypothesis =>
      rw [select]
      split
      · exact inductionHypothesis
      next ahead =>
        rw [Nat.not_lt] at ahead
        rw [chosen_cons_true, List.forall_mem_cons]
        refine ⟨ahead, ?_⟩
        intro node isChosen
        calc
          cursor ≤ (first.span.clip size).start := ahead
          _ ≤ (first.span.clip size).stop := Span.start_le_stop _
          _ ≤ (node.span.clip size).start := inductionHypothesis node isChosen

/-- A chosen node starts where the ones before it have ended. -/
theorem pairwise_chosen (size cursor : Nat) (nodes : List Node) :
    (chosen (select size cursor nodes)).Pairwise fun a b =>
      (a.span.clip size).stop ≤ (b.span.clip size).start := by
  induction nodes generalizing cursor with
  | nil => exact .nil
  | cons node rest inductionHypothesis =>
      rw [select]
      split
      · exact inductionHypothesis cursor
      · apply List.pairwise_cons.mpr
        exact ⟨cursor_le_of_chosen, inductionHypothesis _⟩

/-- A node that is not chosen starts in one that is chosen before it, or before the cursor that
the choice began with. -/
theorem holds_of_not_chosen {size cursor : Nat} {nodes : List Node}
    (sorted : nodes.Pairwise fun a b => a.span.start ≤ b.span.start)
    {before after : List (Node × Bool)} {node : Node}
    (marked : select size cursor nodes = before ++ (node, false) :: after) :
    (∃ earlier ∈ chosen before,
      (earlier.span.clip size).Holds (node.span.clip size).start) ∨
      (node.span.clip size).start < cursor := by
  induction nodes generalizing cursor before with
  | nil => cases before <;> cases marked
  | cons first rest inductionHypothesis =>
      obtain ⟨firstStarts, sorted⟩ := List.pairwise_cons.mp sorted
      rw [select] at marked
      split at marked
      next passed =>
        cases before with
        | nil =>
            cases marked
            exact .inr passed
        | cons mark others =>
            rw [List.cons_append, List.cons_eq_cons] at marked
            obtain ⟨rfl, behind⟩ := marked
            rw [chosen_cons_false]
            exact inductionHypothesis sorted behind
      next ahead =>
        cases before with
        | nil => cases marked
        | cons mark others =>
            rw [List.cons_append, List.cons_eq_cons] at marked
            obtain ⟨rfl, behind⟩ := marked
            rw [chosen_cons_true]
            refine .inl ?_
            rcases inductionHypothesis sorted behind with ⟨earlier, isChosen, holds⟩ | inFirst
            · exact ⟨earlier, List.mem_cons_of_mem first isChosen, holds⟩
            · -- The order of the starts survives the clipping, so the node starts in the first.
              have among : node ∈ rest := by
                rw [← map_fst_select size (first.span.clip size).stop rest, behind]
                simp
              have starts : (first.span.clip size).start ≤ (node.span.clip size).start := by
                have ordered := firstStarts node among
                rw [Span.start_clip, Span.start_clip]
                omega
              exact ⟨first, List.mem_cons_self, starts, inFirst⟩

/-- A node is left out exactly if it starts in one that is chosen before it. -/
theorem left_out_iff {size : Nat} {nodes : List Node}
    (sorted : nodes.Pairwise fun a b => a.span.start ≤ b.span.start)
    {before after : List (Node × Bool)} {node : Node} {isChosen : Bool}
    (marked : select size 0 nodes = before ++ (node, isChosen) :: after) :
    isChosen = false ↔ ∃ earlier ∈ chosen before,
      (earlier.span.clip size).Holds (node.span.clip size).start := by
  constructor
  · rintro rfl
    rcases holds_of_not_chosen sorted marked with holds | beforeStart
    · exact holds
    · exact absurd beforeStart (Nat.not_lt_zero _)
  · rintro ⟨earlier, isEarlier, holds⟩
    cases isChosen with
    | false => rfl
    | true =>
        have apart := pairwise_chosen size 0 nodes
        rw [marked, chosen_append, chosen_cons_true, List.pairwise_append] at apart
        have ended := apart.2.2 earlier isEarlier node List.mem_cons_self
        exact absurd holds.2 (Nat.not_lt.mpr ended)

/-- What is chosen is painted in turn, as far as it lies in the query. -/
theorem weave_eq_inTurn_chosen (painter : Painter) (query : Text) (cursor : Nat)
    (nodes : List Node) :
    weave painter query.length cursor (query.toList.drop cursor) nodes =
      (inTurn painter query cursor
        ((chosen (select query.length cursor nodes)).map (Node.clip query.length))).toList := by
  induction nodes generalizing cursor with
  | nil => exact weave_nil painter query cursor
  | cons node rest inductionHypothesis =>
      rw [select]
      split
      next passed =>
        have skipped : weave painter query.length cursor (query.toList.drop cursor)
            (node :: rest) =
              weave painter query.length cursor (query.toList.drop cursor) rest := if_pos passed
        rw [skipped, inductionHypothesis, chosen_cons_false]
      next ahead =>
        rw [Nat.not_lt] at ahead
        rw [weave_cons_of_ahead painter query ahead, inductionHypothesis, chosen_cons_true,
          List.map_cons, ← Text.toList_append]
        rfl

/-- A selection from the nodes of a query and the text in which it is painted.  Every node is
marked as chosen or not, in the order of the spans.  Only the text of the chosen ones is
painted, no two of them overlap, and what they and the gaps between them hold is the query.  A
node is left out exactly if it starts in one that is chosen before it. -/
structure Selection (painter : Painter) (query : Text) (nodes : List Node)
    (marked : List (Node × Bool)) (text : Text) : Prop where
  ordered : InStableOrder nodes (marked.map Prod.fst)
  painted : text =
    inTurn painter query 0 ((chosen marked).map (Node.clip query.length))
  whole : inTurn .off query 0 ((chosen marked).map (Node.clip query.length)) = query
  apart : (chosen marked).Pairwise fun a b =>
    (a.span.clip query.length).stop ≤ (b.span.clip query.length).start
  greedy : ∀ before node isChosen after, marked = before ++ (node, isChosen) :: after →
    (isChosen = false ↔ ∃ earlier ∈ chosen before,
      (earlier.span.clip query.length).Holds (node.span.clip query.length).start)

end Highlight

/-- A query is highlighted by a greedy selection among the nodes of its groups, strays left
out: whatever spans they have, going by start and end, a node is painted unless it starts in
one that is painted already. -/
theorem highlight_selects (painter : Painter) (query : Text) (groups : List (List Leaf)) :
    ∃ marked, Highlight.Selection painter query (Leaf.nodes groups) marked
      (highlight painter query groups) := by
  have ordered := Highlight.inStableOrder_sortBy (Leaf.nodes groups)
  have woven (brush : Painter) := Highlight.weave_eq_inTurn_chosen brush query 0
    (sortBy (fun a b => a.span.le b.span) (Leaf.nodes groups))
  rw [List.drop_zero] at woven
  refine ⟨Highlight.select query.length 0
    (sortBy (fun a b => a.span.le b.span) (Leaf.nodes groups)), ?_, ?_, ?_, ?_, ?_⟩
  · rw [Highlight.map_fst_select]
    exact ordered
  · rw [highlight, woven, Text.ofList_toList]
  · apply Text.toList_injective
    rw [← woven]
    exact Highlight.weave_off rfl _ _ _ _
  · exact Highlight.pairwise_chosen _ _ _
  · intro before node isChosen after marked
    apply Highlight.left_out_iff ?_ marked
    apply ordered.sorted.imp
    intro a b order
    omega

/-- Nested and touching spans, an empty one and one past the end: the middle one is left out. -/
example :
    highlight {} "ls -l" [[.known ⟨⟨3, 9⟩, .argument "-l"⟩, .stray],
        [.known ⟨⟨1, 2⟩, .pipe "|"⟩, .known ⟨⟨0, 2⟩, .program ⟨"ls", ""⟩⟩,
          .known ⟨⟨2, 0⟩, .pipe "|"⟩]] =
      "\x1b[1m\x1b[32mls\x1b[0m \x1b[34m-l\x1b[0m" := by
  decide +kernel

/-! ### Nodes in any order -/

/-- What highlighting sees of a node. -/
def Node.look (node : Node) : Span × Kind := (node.span, node.kind)

/-- Nodes that look alike are woven alike. -/
theorem Highlight.weave_congr (painter : Painter) (size cursor : Nat) (left : List Glyph)
    {one two : List Node} (alike : one.map Node.look = two.map Node.look) :
    weave painter size cursor left one = weave painter size cursor left two := by
  induction one generalizing two cursor left with
  | nil =>
      rw [List.map_nil, eq_comm, List.map_eq_nil_iff] at alike
      rw [alike]
  | cons node rest inductionHypothesis =>
      cases two with
      | nil => cases alike
      | cons other others =>
          rw [List.map_cons, List.map_cons, List.cons_eq_cons, Node.look, Node.look,
            Prod.mk.injEq] at alike
          obtain ⟨⟨sameSpan, sameKind⟩, alike⟩ := alike
          simp only [weave, sameSpan, sameKind, inductionHypothesis _ _ alike]

/-- Nodes in any order look alike once they are sorted, if no two of one span differ in kind. -/
theorem Highlight.map_look_sortBy {one two : List Node} (perm : one.Perm two)
    (kinds : ∀ a ∈ one, ∀ b ∈ one, a.span.start = b.span.start → a.span.stop = b.span.stop →
      a.kind = b.kind) :
    (sortBy (fun a b => a.span.le b.span) one).map Node.look =
      (sortBy (fun a b => a.span.le b.span) two).map Node.look := by
  have sorted (nodes : List Node) :
      ((sortBy (fun a b => a.span.le b.span) nodes).map Node.look).Pairwise
        fun a b => a.1.le b.1 = true :=
    List.pairwise_map.mpr (pairwise_sorted nodes)
  have perms := ((perm_sortBy (fun a b => a.span.le b.span) one).trans perm).trans
    (perm_sortBy (fun a b => a.span.le b.span) two).symm
  apply List.Perm.eq_of_pairwise ?_ (sorted one) (sorted two) (perms.map Node.look)
  intro a b isOne isTwo before behind
  obtain ⟨node, isNode, rfl⟩ := List.mem_map.mp isOne
  obtain ⟨other, isOther, rfl⟩ := List.mem_map.mp isTwo
  rw [(perm_sortBy _ one).mem_iff] at isNode
  rw [(perm_sortBy _ two).mem_iff, ← perm.mem_iff] at isOther
  have sameSpan : node.span = other.span := Span.le_antisymm before behind
  have sameKind : node.kind = other.kind := by
    apply kinds node isNode other isOther
    · rw [sameSpan]
    · rw [sameSpan]
  rw [Node.look, Node.look, sameSpan, sameKind]

/-- Highlighting does not depend on the order of the nodes, on their groups or on the strays
among them, if nodes that start and end together are of one kind. -/
theorem highlight_perm (painter : Painter) (query : Text) {one two : List (List Leaf)}
    (perm : (Leaf.nodes one).Perm (Leaf.nodes two))
    (kinds : ∀ a ∈ Leaf.nodes one, ∀ b ∈ Leaf.nodes one,
      a.span.start = b.span.start → a.span.stop = b.span.stop → a.kind = b.kind) :
    highlight painter query one = highlight painter query two := by
  rw [highlight, highlight,
    Highlight.weave_congr painter _ _ _ (Highlight.map_look_sortBy perm kinds)]

/-- Nodes that overlap and two of one span, in two orders and groupings. -/
theorem highlight_perm_regrouped :
    highlight {} "tar xf a" [[.known ⟨⟨0, 3⟩, .argument "one"⟩, .known ⟨⟨2, 9⟩, .pipe "|"⟩],
        [.stray, .known ⟨⟨0, 3⟩, .argument "two"⟩]] =
      highlight {} "tar xf a" [[.known ⟨⟨0, 3⟩, .argument "two"⟩], [], [.stray, .stray],
        [.known ⟨⟨2, 9⟩, .pipe "|"⟩, .known ⟨⟨0, 3⟩, .argument "one"⟩]] := by
  apply highlight_perm
  · decide
  · decide

end ShellGloss
