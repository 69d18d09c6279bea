/-
Module: ShellGloss.Highlight
Purpose: A query in which the spans of its nodes are styled.
Imports: ShellGloss.Sorted, ShellGloss.Style.Painter
Main exports:
  Span.le, Span.le_iff, Highlight.weave, highlight
-/
import ShellGloss.Sorted
import ShellGloss.Style.Painter

namespace ShellGloss

/-- Order by start, and at equal starts by end. -/
def Span.le (a b : Span) : Bool :=
  a.start < b.start || (a.start == b.start && a.stop ≤ b.stop)

theorem Span.le_iff {a b : Span} :
    a.le b = true ↔ a.start < b.start ∨ a.start = b.start ∧ a.stop ≤ b.stop := by
  simp [Span.le]

/-- Of two spans one may precede the other. -/
theorem Span.le_total (a b : Span) (behind : a.le b = false) : b.le a = true := by
  rw [← Bool.not_eq_true, Span.le_iff] at behind
  rw [Span.le_iff]
  omega

theorem Span.le_trans (a b c : Span) (first : a.le b = true) (second : b.le c = true) :
    a.le c = true := by
  rw [Span.le_iff] at first second ⊢
  omega

/-- Spans that may precede each other are the same. -/
theorem Span.le_antisymm {a b : Span} (one : a.le b = true) (two : b.le a = true) : a = b := by
  rw [Span.le_iff, Span.stop, Span.stop] at one two
  have starts : a.start = b.start := by omega
  have lengths : a.length = b.length := by omega
  cases a
  cases b
  rw [Span.mk.injEq]
  exact ⟨starts, lengths⟩

namespace Highlight

/-- The rest of a query of `size` characters, from `cursor` on, with the spans of
the nodes styled.  A span that starts before the cursor overlaps one that is
styled already and is passed over; offsets past the end of the query count as
its end. -/
def weave (painter : Painter) (size cursor : Nat) (left : List Glyph) :
    List Node → List Glyph
  | [] => left
  | node :: rest =>
      let start := min node.span.start size
      let stop := min node.span.stop size
      if start < cursor then weave painter size cursor left rest
      else
        let gap := left.take (start - cursor)
        let body := (left.drop (start - cursor)).take (stop - start)
        gap ++ (painter.paint node.kind (Text.ofList body)).toList ++
          weave painter size stop (left.drop (stop - cursor)) rest

end Highlight

/-- A query with the spans of the nodes of some groups styled, from left to
right. -/
def highlight (painter : Painter) (query : Text) (groups : List (List Leaf)) : Text :=
  Text.ofList
    (Highlight.weave painter query.length 0 query.toList
      (sortBy (fun a b => a.span.le b.span) (Leaf.nodes groups)))

end ShellGloss
