/-
Module: ShellGloss.Text.Lines
Purpose: One way to end a line.
Main exports:
  unifyLineEnds
-/

namespace ShellGloss.Text

/-- Every line end (carriage return, line feed, or the two together) as one line
feed. -/
def unifyLineEnds : List Char → List Char
  | [] => []
  | '\r' :: '\n' :: rest => '\n' :: unifyLineEnds rest
  | c :: rest => (if c = '\r' then '\n' else c) :: unifyLineEnds rest

/-- A text without carriage returns is kept as it is. -/
theorem unifyLineEnds_eq_self {cs : List Char} (noReturn : '\r' ∉ cs) :
    unifyLineEnds cs = cs := by
  fun_induction unifyLineEnds cs with
  | case1 => rfl
  | case2 rest => simp at noReturn
  | case3 c rest _ inductionHypothesis =>
      simp only [List.mem_cons, not_or] at noReturn
      rw [inductionHypothesis noReturn.2, if_neg (Ne.symm noReturn.1)]

end ShellGloss.Text
