/-
Module: ShellGloss.Proofs.OptionLabels
Purpose: The label of an option is its aliases one after another, and can be taken apart into
  them again where no alias looks like two.
Imports: ShellGloss.Gloss
Main exports:
  Text.splitFrom, Text.splitAtGap, Text.splitFrom_append_gap, Text.splitAtGap_joinWith_iff,
  OptionInfo.aliases, optionLabel_eq, optionLabel_separable
-/
import ShellGloss.Gloss

namespace ShellGloss

/-! ### Texts taken apart at a gap -/

namespace Text

/-- The parts between the gaps, found from left to right; the first `skip` characters belong
to a gap that has been found. -/
def splitFrom (gap : List Glyph) : Nat → List Glyph → List (List Glyph)
  | _, [] => [[]]
  | skip + 1, _ :: rest => splitFrom gap skip rest
  | 0, c :: rest =>
      if gap.isPrefixOf (c :: rest) then
        [] :: splitFrom gap (gap.length - 1) rest
      else
        match splitFrom gap 0 rest with
        | [] => [[c]]
        | part :: parts => (c :: part) :: parts

/-- The parts of a text between the occurrences of `gap`, one part more than gaps. -/
def splitAtGap (gap text : Text) : List Text :=
  (splitFrom gap.toList 0 text.toList).map Text.ofList

theorem splitFrom_length (gap passed rest : List Glyph) :
    splitFrom gap passed.length (passed ++ rest) = splitFrom gap 0 rest := by
  induction passed with
  | nil => rfl
  | cons c others inductionHypothesis => exact inductionHypothesis

section

variable {mark : Glyph} {marks : List Glyph}

/-- Where a gap stands, a part ends. -/
theorem splitFrom_gap (rest : List Glyph) :
    splitFrom (mark :: marks) 0 (mark :: marks ++ rest) =
      [] :: splitFrom (mark :: marks) 0 rest := by
  have isGap : (mark :: marks).isPrefixOf (mark :: (marks ++ rest)) = true :=
    List.isPrefixOf_iff_prefix.mpr (List.prefix_append (mark :: marks) rest)
  rw [List.cons_append, splitFrom, if_pos isGap]
  exact congrArg ([] :: ·) (splitFrom_length (mark :: marks) marks rest)

/-- The rest of a text with no gap at its front has a first part, which goes on to the left. -/
theorem splitFrom_cons {c : Glyph} {rest part : List Glyph} {parts : List (List Glyph)}
    (noGap : ¬ mark :: marks <+: c :: rest)
    (behind : splitFrom (mark :: marks) 0 rest = part :: parts) :
    splitFrom (mark :: marks) 0 (c :: rest) = (c :: part) :: parts := by
  rw [← List.isPrefixOf_iff_prefix] at noGap
  rw [splitFrom, if_neg noGap, behind]

/-- A gap whose first character comes only once in it cannot run into the next gap. -/
theorem not_prefix_append_gap (once : mark ∉ marks) {part : List Glyph} (filled : part ≠ [])
    (noGap : ¬ mark :: marks <+: part) (rest : List Glyph) :
    ¬ mark :: marks <+: part ++ (mark :: marks ++ rest) := by
  intro front
  rcases List.prefix_or_prefix_of_prefix front (List.prefix_append part _) with inside | longer
  · exact noGap inside
  · obtain ⟨beyond, whole⟩ := longer
    rw [← whole, List.prefix_append_right_inj] at front
    obtain ⟨first, others, rfl⟩ := List.exists_cons_of_ne_nil filled
    obtain ⟨rfl, isMarks⟩ := List.cons.inj whole
    cases beyond with
    | nil =>
        rw [List.append_nil] at whole
        exact noGap (whole ▸ List.prefix_refl _)
    | cons next more =>
        -- What runs over begins like the next gap, with the first character once more.
        have again : next = first := (List.cons_prefix_cons.mp front).1
        refine once ?_
        rw [← isMarks, again]
        exact List.mem_append_right _ List.mem_cons_self

/-- A part that holds no gap is found again in front of one. -/
theorem splitFrom_append_gap (once : mark ∉ marks) {part : List Glyph}
    (noGap : ¬ mark :: marks <:+: part) (rest : List Glyph) :
    splitFrom (mark :: marks) 0 (part ++ (mark :: marks ++ rest)) =
      part :: splitFrom (mark :: marks) 0 rest := by
  induction part with
  | nil => exact splitFrom_gap rest
  | cons c others inductionHypothesis =>
      rw [List.infix_cons_iff, not_or] at noGap
      exact splitFrom_cons (not_prefix_append_gap once (List.cons_ne_nil c others) noGap.1 rest)
        (inductionHypothesis noGap.2)

theorem splitFrom_of_not_infix {part : List Glyph} (noGap : ¬ mark :: marks <:+: part) :
    splitFrom (mark :: marks) 0 part = [part] := by
  induction part with
  | nil => rfl
  | cons c others inductionHypothesis =>
      rw [List.infix_cons_iff, not_or] at noGap
      exact splitFrom_cons noGap.1 (inductionHypothesis noGap.2)

end

theorem splitFrom_ne_nil (gap : List Glyph) (skip : Nat) (chars : List Glyph) :
    splitFrom gap skip chars ≠ [] := by
  fun_induction splitFrom gap skip chars with
  | case1 => simp
  | case2 skip c rest inductionHypothesis => exact inductionHypothesis
  | case3 => simp
  | case4 => simp
  | case5 => simp

/-- The first part stands at the front, and no part holds a gap. -/
theorem splitFrom_parts {gap : List Glyph} (hasGap : gap ≠ []) (skip : Nat) (chars : List Glyph) :
    (∀ part ∈ (splitFrom gap skip chars).head?, part <+: chars.drop skip) ∧
      ∀ part ∈ splitFrom gap skip chars, ¬ gap <:+: part := by
  have nothing : ¬ gap <:+: [] := fun inside => hasGap (List.infix_nil.mp inside)
  fun_induction splitFrom gap skip chars with
  | case1 skip => exact ⟨by simp, List.forall_mem_singleton.mpr nothing⟩
  | case2 skip c rest inductionHypothesis => exact inductionHypothesis
  | case3 c rest isGap inductionHypothesis =>
      exact ⟨by simp, List.forall_mem_cons.mpr ⟨nothing, inductionHypothesis.2⟩⟩
  | case4 c rest noGap isNil => exact absurd isNil (splitFrom_ne_nil gap 0 rest)
  | case5 c rest noGap part parts behind inductionHypothesis =>
      rw [List.isPrefixOf_iff_prefix] at noGap
      rw [behind, List.forall_mem_cons] at inductionHypothesis
      have front : c :: part <+: c :: rest :=
        List.cons_prefix_cons.mpr ⟨rfl, inductionHypothesis.1 part rfl⟩
      refine ⟨?_, List.forall_mem_cons.mpr ⟨?_, inductionHypothesis.2.2⟩⟩
      · rintro _ ⟨⟩
        exact front
      · rw [List.infix_cons_iff, not_or]
        exact ⟨fun here => noGap (here.trans front), inductionHypothesis.2.1⟩

/-- Texts with gaps between them are found again exactly if there are any and none holds a
gap itself. -/
theorem splitAtGap_joinWith_iff {gap : Text} {mark : Glyph} {marks : List Glyph}
    (spelled : gap.toList = mark :: marks) (once : mark ∉ marks) {texts : List Text} :
    splitAtGap gap (joinWith gap texts) = texts ↔
      texts ≠ [] ∧ ∀ text ∈ texts, ¬ gap.toList <:+: text.toList := by
  constructor
  · intro same
    have hasGap : gap.toList ≠ [] := by
      rw [spelled]
      exact List.cons_ne_nil mark marks
    constructor
    · rintro rfl
      exact splitFrom_ne_nil _ _ _ (List.map_eq_nil_iff.mp same)
    · intro text among
      rw [← same, splitAtGap] at among
      obtain ⟨part, isPart, rfl⟩ := List.mem_map.mp among
      rw [Text.toList_ofList]
      exact (splitFrom_parts hasGap 0 _).2 part isPart
  · rintro ⟨filled, noGap⟩
    rw [spelled] at noGap
    rw [splitAtGap, spelled]
    induction texts using joinWith.induct with
    | case1 => exact absurd rfl filled
    | case2 one =>
        rw [joinWith, splitFrom_of_not_infix (noGap one (.head _)), List.map_singleton,
          Text.ofList_toList]
    | case3 one next rest inductionHypothesis =>
        rw [List.forall_mem_cons] at noGap
        rw [joinWith, Text.append_assoc, Text.toList_append, Text.toList_append, spelled,
          splitFrom_append_gap once noGap.1, List.map_cons, Text.ofList_toList,
          inductionHypothesis (List.cons_ne_nil next rest) noGap.2]

theorem joinWith_append (gap : Text) {one two : List Text} (hasOne : one ≠ [])
    (hasTwo : two ≠ []) :
    joinWith gap (one ++ two) = joinWith gap one ++ gap ++ joinWith gap two := by
  induction one using joinWith.induct with
  | case1 => exact absurd rfl hasOne
  | case2 text =>
      obtain ⟨next, rest, rfl⟩ := List.exists_cons_of_ne_nil hasTwo
      rfl
  | case3 text next rest inductionHypothesis =>
      have behind := inductionHypothesis (List.cons_ne_nil next rest)
      rw [List.cons_append] at behind
      rw [List.cons_append, List.cons_append, joinWith, behind, joinWith]
      simp only [Text.append_assoc]

end Text

/-! ### The label of an option -/

/-- The short aliases of an option and then the long ones; a missing group has none. -/
def OptionInfo.aliases (info : OptionInfo) : List Text :=
  info.short.getD [] ++ info.long.getD []

theorem groupLabel?_eq (group : Option (List Text)) :
    groupLabel? group =
      if group.getD [] = [] then none else some (Text.joinWith aliasGap (group.getD [])) := by
  unfold groupLabel?
  split
  · rfl
  · rfl
  next aliases notNil =>
    have hasAliases : aliases ≠ [] := fun isNil => notNil (isNil ▸ rfl)
    exact (if_neg hasAliases).symm

/-- Joining the groups first makes no difference. -/
theorem optionLabel_eq (info : OptionInfo) :
    optionLabel info = Text.joinWith aliasGap info.aliases := by
  rw [optionLabel, OptionInfo.aliases, List.filterMap_cons, List.filterMap_cons, groupLabel?_eq,
    groupLabel?_eq]
  by_cases short : info.short.getD [] = []
  · by_cases long : info.long.getD [] = []
    · simp [short, long, Text.joinWith]
    · simp [short, long, Text.joinWith]
  · by_cases long : info.long.getD [] = []
    · simp [short, long, Text.joinWith]
    · simp [short, long, Text.joinWith, Text.joinWith_append aliasGap short long]

/-- The label of an option is all its aliases, the short ones first, with a comma and a blank
between neighbours.  Taken apart there, it gives back the aliases, exactly if there are any
and none holds a comma and a blank itself. -/
theorem optionLabel_separable (info : OptionInfo) :
    optionLabel info = Text.joinWith ", " info.aliases ∧
      (Text.splitAtGap ", " (optionLabel info) = info.aliases ↔
        info.aliases ≠ [] ∧
          ∀ spelling ∈ info.aliases, ¬ [Glyph.char ',', ' '] <:+: spelling.toList) := by
  refine ⟨optionLabel_eq info, ?_⟩
  rw [optionLabel_eq]
  exact Text.splitAtGap_joinWith_iff rfl (by decide)

/-- Aliases that are empty, or touch a gap with a comma or a blank of their own. -/
theorem optionLabel_separable_commas :
    let info : OptionInfo := { summary := "", short := some ["-a,", " ", ""], long := some [","] }
    optionLabel info = "-a,,  , , ," ∧
      Text.splitAtGap ", " (optionLabel info) = (["-a,", " ", "", ","] : List Text) := by
  intro info
  obtain ⟨joined, separable⟩ := optionLabel_separable info
  refine ⟨joined.trans (by decide +kernel), separable.mpr ⟨by decide, ?_⟩⟩
  decide

end ShellGloss
