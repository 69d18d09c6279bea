/-
Module: ShellGloss.Text.Slice
Purpose: Parts of a text, addressed by character offsets or by a dividing
  character.
Imports: ShellGloss.Text.Basic
Main exports:
  slice, beforeFirst, afterLast, splitAt, joinWith
-/
import ShellGloss.Text.Basic

namespace ShellGloss.Text

/-- The characters from offset `start` up to, not including, `stop`.  An offset
past the end counts as the end. -/
def sliceChars (cs : List Glyph) (start stop : Nat) : List Glyph :=
  (cs.take stop).drop start

/-- `sliceChars` on a text. -/
def slice (s : Text) (start stop : Nat) : Text :=
  Text.ofList (sliceChars s.toList start stop)

/-- The part in front of the first `mark`, or everything. -/
def beforeFirst (mark : Glyph) (cs : List Glyph) : List Glyph :=
  cs.takeWhile (· != mark)

/-- The part behind the last `mark`, or everything. -/
def afterLast (mark : Glyph) (cs : List Glyph) : List Glyph :=
  (cs.reverse.takeWhile (· != mark)).reverse

/-- The parts between the marks, first to last; one part more than marks. -/
def splitAt (mark : Glyph) : List Glyph → List (List Glyph)
  | [] => [[]]
  | c :: rest =>
      if c = mark then
        [] :: splitAt mark rest
      else
        match splitAt mark rest with
        | [] => [[c]]
        | part :: parts => (c :: part) :: parts

/-- The texts one after another with `gap` between neighbours. -/
def joinWith (gap : Text) : List Text → Text
  | [] => ""
  | [one] => one
  | one :: next :: rest => one ++ gap ++ joinWith gap (next :: rest)

/-- All texts one after another. -/
def concat : List Text → Text
  | [] => ""
  | one :: rest => one ++ concat rest

/-- Each occurrence of one character replaced by a text. -/
def replaceChar (mark : Glyph) (substitute : List Glyph) (cs : List Glyph) : List Glyph :=
  cs.flatMap fun c => if c = mark then substitute else [c]

/-- A text in which the small and capital letters `A` to `Z` are not told
apart.  The words it is compared with are plain letters, and no other character
has one of their letters as its small form, so letters beyond `Z` may stay. -/
def foldCase (s : Text) : Text :=
  Text.ofList (s.toList.map Glyph.toLower)

@[simp] theorem splitAt_nil (mark : Glyph) : splitAt mark [] = [[]] := rfl

/-- A text always has at least one part. -/
theorem splitAt_ne_nil (mark : Glyph) (cs : List Glyph) : splitAt mark cs ≠ [] := by
  cases cs with
  | nil => simp
  | cons c rest =>
      unfold splitAt
      split
      · simp
      · split <;> simp

@[simp] theorem splitAt_cons_self (mark : Glyph) (rest : List Glyph) :
    splitAt mark (mark :: rest) = [] :: splitAt mark rest := if_pos rfl

/-- A character that is no mark belongs to the first part behind it. -/
theorem exists_splitAt_cons {mark c : Glyph} (different : c ≠ mark) (rest : List Glyph) :
    ∃ part parts, splitAt mark rest = part :: parts ∧
      splitAt mark (c :: rest) = (c :: part) :: parts := by
  cases behind : splitAt mark rest with
  | nil => exact absurd behind (splitAt_ne_nil mark rest)
  | cons part parts =>
      refine ⟨part, parts, rfl, ?_⟩
      rw [splitAt, if_neg different, behind]

theorem length_splitAt (mark : Glyph) (chars : List Glyph) :
    (splitAt mark chars).length = chars.count mark + 1 := by
  induction chars with
  | nil => rfl
  | cons c rest inductionHypothesis =>
      by_cases same : c = mark
      · simp [same, inductionHypothesis]
      · obtain ⟨part, parts, behind, whole⟩ := exists_splitAt_cons same rest
        rw [behind] at inductionHypothesis
        rw [whole, List.count_cons_of_ne same, ← inductionHypothesis]
        rfl

/-- A text is taken apart on the two sides of a mark. -/
theorem splitAt_append (mark : Glyph) (one two : List Glyph) :
    splitAt mark (one ++ mark :: two) = splitAt mark one ++ splitAt mark two := by
  induction one with
  | nil => simp
  | cons c rest inductionHypothesis =>
      rw [List.cons_append, splitAt, splitAt, inductionHypothesis]
      split
      · rfl
      · cases behind : splitAt mark rest with
        | nil => exact absurd behind (splitAt_ne_nil mark rest)
        | cons part parts => rfl

theorem splitAt_of_not_mem {mark : Glyph} {part : List Glyph} (whole : mark ∉ part) :
    splitAt mark part = [part] := by
  induction part with
  | nil => rfl
  | cons c rest inductionHypothesis =>
      rw [List.mem_cons, not_or] at whole
      rw [splitAt, if_neg (Ne.symm whole.1), inductionHypothesis whole.2]

/-- The parts hold no mark, and nothing that was not there. -/
theorem mem_splitAt {mark : Glyph} {chars part : List Glyph} (among : part ∈ splitAt mark chars) :
    mark ∉ part ∧ part ⊆ chars := by
  induction chars generalizing part with
  | nil =>
      obtain rfl := List.mem_singleton.mp among
      exact ⟨List.not_mem_nil, List.Subset.refl _⟩
  | cons c rest inductionHypothesis =>
      have later (among : part ∈ splitAt mark rest) : mark ∉ part ∧ part ⊆ c :: rest :=
        ⟨(inductionHypothesis among).1, List.subset_cons_of_subset c (inductionHypothesis among).2⟩
      by_cases same : c = mark
      · rw [same, splitAt_cons_self, List.mem_cons] at among
        rcases among with rfl | among
        · exact ⟨List.not_mem_nil, List.nil_subset _⟩
        · exact later among
      · obtain ⟨first, others, behind, whole⟩ := exists_splitAt_cons same rest
        rw [behind] at later inductionHypothesis
        rw [whole, List.mem_cons] at among
        rcases among with rfl | among
        · obtain ⟨unmarked, held⟩ := inductionHypothesis (.head _)
          refine ⟨?_, List.cons_subset_cons c held⟩
          rw [List.mem_cons, not_or]
          exact ⟨Ne.symm same, unmarked⟩
        · exact later (.tail _ among)

@[simp] theorem sliceChars_zero (cs : List Glyph) (stop : Nat) :
    sliceChars cs 0 stop = cs.take stop := rfl

end ShellGloss.Text
