/-
Module: ShellGloss.Sorted
Purpose: Sorting that keeps the order of equals.
Main exports:
  insertBy, sortBy, perm_sortBy, pairwise_sortBy, filter_sortBy
-/

namespace ShellGloss

/-- Put an item in front of the first one that it may precede. -/
def insertBy {α : Type} (le : α → α → Bool) (item : α) : List α → List α
  | [] => [item]
  | next :: rest =>
      if le item next then item :: next :: rest else next :: insertBy le item rest

/-- The items in the order of `le`, equals in the order they came in.  A list
that is already in order takes one comparison an item. -/
def sortBy {α : Type} (le : α → α → Bool) : List α → List α
  | [] => []
  | item :: rest => insertBy le item (sortBy le rest)

/-- Inserting adds one item and keeps the others. -/
theorem perm_insertBy {α : Type} (le : α → α → Bool) (item : α) (list : List α) :
    (insertBy le item list).Perm (item :: list) := by
  induction list with
  | nil => exact .refl _
  | cons next rest inductionHypothesis =>
      unfold insertBy
      split
      · exact .refl _
      · exact (inductionHypothesis.cons next).trans (.swap item next rest)

/-- Sorting loses nothing and adds nothing. -/
theorem perm_sortBy {α : Type} (le : α → α → Bool) (list : List α) :
    (sortBy le list).Perm list := by
  induction list with
  | nil => exact .refl _
  | cons item rest inductionHypothesis =>
      exact (perm_insertBy le item _).trans (inductionHypothesis.cons item)

theorem pairwise_insertBy {α : Type} {le : α → α → Bool}
    (total : ∀ a b, le a b = false → le b a = true)
    (trans : ∀ a b c, le a b = true → le b c = true → le a c = true) (item : α) {list : List α}
    (ordered : list.Pairwise fun a b => le a b = true) :
    (insertBy le item list).Pairwise fun a b => le a b = true := by
  induction list with
  | nil => exact List.pairwise_singleton _ item
  | cons next rest inductionHypothesis =>
      obtain ⟨first, behind⟩ := List.pairwise_cons.mp ordered
      unfold insertBy
      split
      next precedes =>
        refine List.pairwise_cons.mpr ⟨?_, ordered⟩
        intro other isThere
        rcases List.mem_cons.mp isThere with rfl | isThere
        · exact precedes
        · exact trans item next other precedes (first other isThere)
      next follows =>
        refine List.pairwise_cons.mpr ⟨?_, inductionHypothesis behind⟩
        intro other isThere
        rw [(perm_insertBy le item rest).mem_iff] at isThere
        rcases List.mem_cons.mp isThere with rfl | isThere
        · exact total other next (Bool.eq_false_iff.mpr follows)
        · exact first other isThere

/-- Sorting puts the items in order. -/
theorem pairwise_sortBy {α : Type} {le : α → α → Bool}
    (total : ∀ a b, le a b = false → le b a = true)
    (trans : ∀ a b c, le a b = true → le b c = true → le a c = true) (list : List α) :
    (sortBy le list).Pairwise fun a b => le a b = true := by
  induction list with
  | nil => exact .nil
  | cons item rest inductionHypothesis =>
      exact pairwise_insertBy total trans item inductionHypothesis

/-- An item goes in front of those it ties with: among items that may all precede each
other, it is the first. -/
theorem filter_insertBy {α : Type} {le : α → α → Bool} {tied : α → Bool}
    (ties : ∀ a b, tied a = true → tied b = true → le a b = true) (item : α) (list : List α) :
    (insertBy le item list).filter tied = (item :: list).filter tied := by
  induction list with
  | nil => rfl
  | cons next rest inductionHypothesis =>
      unfold insertBy
      split
      · rfl
      next follows =>
        cases itemTied : tied item with
        | false => simp [List.filter_cons, itemTied, inductionHypothesis]
        | true =>
            have apart : tied next = false := by
              apply Bool.eq_false_iff.mpr
              intro nextTied
              exact follows (ties item next itemTied nextTied)
            simp [itemTied, apart, inductionHypothesis]

/-- Sorting keeps the order of items that may all precede each other. -/
theorem filter_sortBy {α : Type} {le : α → α → Bool} {tied : α → Bool}
    (ties : ∀ a b, tied a = true → tied b = true → le a b = true) (list : List α) :
    (sortBy le list).filter tied = list.filter tied := by
  induction list with
  | nil => rfl
  | cons item rest inductionHypothesis =>
      rw [sortBy, filter_insertBy ties, List.filter_cons, List.filter_cons, inductionHypothesis]

/-- A list in order is kept as it is. -/
theorem sortBy_eq_self {α : Type} {le : α → α → Bool} {list : List α}
    (ordered : list.Pairwise fun a b => le a b = true) : sortBy le list = list := by
  induction list with
  | nil => rfl
  | cons item rest inductionHypothesis =>
      rw [List.pairwise_cons] at ordered
      rw [sortBy, inductionHypothesis ordered.2]
      cases rest with
      | nil => rfl
      | cons next others =>
          have first : le item next = true := ordered.1 next (by simp)
          simp [insertBy, first]

end ShellGloss
