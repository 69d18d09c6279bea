/-
Module: ShellGloss.Proofs.LogBlocks
Purpose: The text of a log by its lines: the entries of a run are the blocks between blank
  lines, and where one run follows another, the two entries that meet are one block.
Imports: Mathlib.Data.List.Flatten, ShellGloss.Proofs.AbsentCharacter,
  ShellGloss.Proofs.LogFile
Main exports:
  Text.linesOf, Text.blocks, Entry.blocks, Journal.runTogether, Journal.allTogether,
  Journal.written, Journal.SetOff, Journal.allTogether_eq_written_iff,
  Journal.blocks_chronicles
-/
import Mathlib.Data.List.Flatten
import ShellGloss.Proofs.AbsentCharacter
import ShellGloss.Proofs.LogFile

namespace ShellGloss

/-! ### Lines and blocks of a text -/

namespace Text

/-- The lines of a text.  What stands behind the last line feed is none. -/
def linesOf (text : Text) : List Text :=
  ((splitAt '\n' text.toList).map Text.ofList).dropLast

/-- The blocks of a text: its lines, divided at the blank ones. -/
def blocks (text : Text) : List (List Text) :=
  if linesOf text = [] then [] else (linesOf text).splitOn ""

theorem splitAt_append_mark {mark : Glyph} {part : List Glyph} (whole : mark ∉ part)
    (rest : List Glyph) : splitAt mark (part ++ mark :: rest) = part :: splitAt mark rest := by
  rw [splitAt_append, splitAt_of_not_mem whole, List.singleton_append]

theorem linesOf_append {line : Text} (whole : Glyph.char '\n' ∉ line.toList) (rest : Text) :
    linesOf (line ++ "\n" ++ rest) = line :: linesOf rest := by
  have parts := splitAt_append_mark whole rest.toList
  have onward : (splitAt '\n' rest.toList).map Text.ofList ≠ [] := by
    simpa using splitAt_ne_nil '\n' rest.toList
  have spelled : (line ++ "\n" ++ rest).toList = line.toList ++ .char '\n' :: rest.toList := by simp
  rw [linesOf, spelled, parts, List.map_cons, Text.ofList_toList,
    List.dropLast_cons_of_ne_nil onward, linesOf]

/-- Lines that were written are the lines of the text. -/
theorem linesOf_concat {lines : List Text} (whole : Lacks '\n' lines) :
    linesOf (concat (lines.map (· ++ "\n"))) = lines := by
  induction lines with
  | nil => rfl
  | cons line rest inductionHypothesis =>
      obtain ⟨first, others⟩ := lacks_cons.mp whole
      rw [List.map_cons, concat, linesOf_append first, inductionHypothesis others]

theorem concat_append (one two : List Text) :
    concat (one ++ two) = concat one ++ concat two := by
  induction one with
  | nil => simp [concat]
  | cons text rest inductionHypothesis =>
      rw [List.cons_append, concat, concat, inductionHypothesis, Text.append_assoc]

/-- Lines joined by line feeds, with one more at the end, are lines each of which ends in
one. -/
theorem joinWith_append_newline {lines : List Text} (filled : lines ≠ []) :
    joinWith "\n" lines ++ "\n" = concat (lines.map (· ++ "\n")) := by
  induction lines using joinWith.induct with
  | case1 => exact absurd rfl filled
  | case2 one => simp [joinWith, concat]
  | case3 one next rest inductionHypothesis =>
      rw [joinWith, List.map_cons, concat, ← inductionHypothesis (List.cons_ne_nil next rest),
        Text.append_assoc]

end Text

/-! ### Texts with bytes -/

theorem Text.isPlain_joinWith {gap : Text} (plain : gap.isPlain = true) (texts : List Text) :
    (joinWith gap texts).isPlain = texts.all Text.isPlain := by
  induction texts using joinWith.induct with
  | case1 => rfl
  | case2 one => simp [joinWith]
  | case3 one next rest inductionHypothesis =>
      rw [joinWith, isPlain_append, isPlain_append, inductionHypothesis, plain, Bool.and_true]
      rfl

/-- Spelling out line feeds adds characters alone. -/
theorem isPlain_fieldText (value : Json) : (fieldText value).isPlain = value.display.isPlain := by
  rw [Text.isPlain, fieldText, Text.toList_ofList, Text.replaceChar, List.all_flatMap, Text.isPlain]
  congr 1
  funext c
  split
  next same =>
    rw [same]
    rfl
  next => rw [List.all_cons, List.all_nil, Bool.and_true]

theorem Entry.isPlain_iff {entry : Entry} :
    entry.isPlain = true ↔ ∀ line ∈ entry.lines, line.isPlain = true := by
  rw [isPlain, text, Text.isPlain_joinWith (Text.isPlain_ofString "\n"), List.all_eq_true]

/-! ### Lines of entries -/

theorem Entry.lines_ne_nil (entry : Entry) : entry.lines ≠ [] := by
  simp [Entry.lines]

/-- What stands between two blocks: one blank line. -/
abbrev Journal.gap : List Text := [""]

theorem Journal.intercalate_cons (block : List Text) (rest : List (List Text)) :
    gap.intercalate (block :: rest) = block ++ rest.flatMap fun other => gap ++ other := by
  induction rest generalizing block with
  | nil => simp
  | cons next others inductionHypothesis =>
      rw [List.intercalate_cons_cons, inductionHypothesis, List.flatMap_cons, List.append_assoc,
        List.append_assoc]

namespace Entry

open Journal (gap)

/-- The entries that have bytes. -/
def kept (entries : List Entry) : List Entry := entries.filter isPlain

theorem kept_cons (entry : Entry) (rest : List Entry) :
    kept (entry :: rest) = if entry.isPlain then entry :: kept rest else kept rest :=
  List.filter_cons

theorem kept_append (one two : List Entry) : kept (one ++ two) = kept one ++ kept two :=
  List.filter_append one two

/-- Entries that leave all their lines are all kept. -/
theorem forall_isPlain_of_flatMap {entries : List Entry}
    (same : (kept entries).flatMap lines = entries.flatMap lines) :
    ∀ entry ∈ entries, entry.isPlain = true := by
  induction entries with
  | nil => exact List.forall_mem_nil _
  | cons entry rest inductionHypothesis =>
      rw [kept_cons, List.flatMap_cons] at same
      split at same
      next plain =>
        rw [List.flatMap_cons, List.append_cancel_left_eq] at same
        exact List.forall_mem_cons.mpr ⟨plain, inductionHypothesis same⟩
      next =>
        -- The lines of the dropped entry are missing, and nothing makes up for them.
        have fewer : ((kept rest).flatMap lines).length ≤ (rest.flatMap lines).length :=
          (List.filter_sublist.flatMap lines).length_le
        have hasLines := List.length_pos_iff.mpr entry.lines_ne_nil
        rw [same, List.length_append] at fewer
        omega

/-- The blocks that entries leave in a log which begins with them.  Nothing stands in front of
the first; where it has no bytes, the blank line in front of the next one closes a block of no
lines. -/
def blocks : List Entry → List (List Text)
  | [] => []
  | entry :: rest => (if entry.isPlain then entry.lines else []) :: (kept rest).map lines

theorem trace_of_isPlain {entry : Entry} (plain : entry.isPlain = true) (first : Bool) :
    entry.trace first =
      Text.concat (((if first then [] else gap) ++ entry.lines).map (· ++ "\n")) := by
  have ended := Text.joinWith_append_newline entry.lines_ne_nil
  rw [trace, if_pos plain, List.map_append, Text.concat_append, ← ended]
  cases first with
  | true => exact (Text.empty_append _).symm
  | false => rfl

theorem trace_of_not_isPlain {entry : Entry} (plain : ¬entry.isPlain = true) (first : Bool) :
    entry.trace first = "" := by
  rw [trace, if_neg plain]

theorem chronicle_false (entries : List Entry) :
    chronicle false entries =
      Text.concat (((kept entries).flatMap fun entry => gap ++ entry.lines).map (· ++ "\n")) := by
  induction entries with
  | nil => rfl
  | cons entry rest inductionHypothesis =>
      rw [chronicle, inductionHypothesis, kept_cons]
      split
      next plain =>
        rw [trace_of_isPlain plain, List.flatMap_cons, ← Text.concat_append, ← List.map_append]
        rfl
      next plain => rw [trace_of_not_isPlain plain, Text.empty_append]

/-- The text of a run's entries is made of the lines of their blocks. -/
theorem chronicle_true (entries : List Entry) :
    chronicle true entries =
      Text.concat ((gap.intercalate (blocks entries)).map (· ++ "\n")) := by
  cases entries with
  | nil => rfl
  | cons entry rest =>
      rw [chronicle, chronicle_false, blocks, Journal.intercalate_cons, List.map_append,
        Text.concat_append, List.flatMap_map]
      congr 1
      split
      next plain => exact trace_of_isPlain plain true
      next plain => exact trace_of_not_isPlain plain true

end Entry

/-! ### Blocks that run together -/

namespace Journal

variable {α : Type}

/-- Blocks followed by others with nothing between them: the last of the first and the first
of the others are one block. -/
def runTogether : List (List α) → List (List α) → List (List α)
  | [], others => others
  | [block], [] => [block]
  | [block], next :: others => (block ++ next) :: others
  | block :: second :: rest, others => block :: runTogether (second :: rest) others

/-- The blocks of several chapters that follow each other with nothing between them. -/
def allTogether (chapters : List (List (List α))) : List (List α) :=
  chapters.foldr runTogether []

theorem allTogether_cons (chapter : List (List α)) (rest : List (List (List α))) :
    allTogether (chapter :: rest) = runTogether chapter (allTogether rest) := rfl

theorem runTogether_nil : ∀ blocks : List (List α), runTogether blocks [] = blocks
  | [] => rfl
  | [_] => rfl
  | block :: second :: rest => congrArg (block :: ·) (runTogether_nil (second :: rest))

theorem runTogether_eq_nil_iff {one two : List (List α)} :
    runTogether one two = [] ↔ one = [] ∧ two = [] := by
  fun_cases runTogether one two <;> simp

/-- One block is lost where both sides have some. -/
theorem length_runTogether {one two : List (List α)} (oneSome : one ≠ []) (twoSome : two ≠ []) :
    (runTogether one two).length + 1 = one.length + two.length := by
  fun_induction runTogether one two with
  | case1 => exact absurd rfl oneSome
  | case2 => exact absurd rfl twoSome
  | case3 =>
      simp only [List.length_cons, List.length_nil]
      omega
  | case4 block second rest others inductionHypothesis =>
      have behind := inductionHypothesis (List.cons_ne_nil second rest) twoSome
      simp only [List.length_cons] at behind ⊢
      omega

/-- Blocks that run together hold nothing new. -/
theorem forall_mem_runTogether {property : α → Prop} {one two : List (List α)}
    (ofOne : ∀ block ∈ one, ∀ item ∈ block, property item)
    (ofTwo : ∀ block ∈ two, ∀ item ∈ block, property item) :
    ∀ block ∈ runTogether one two, ∀ item ∈ block, property item := by
  fun_induction runTogether one two with
  | case1 => exact ofTwo
  | case2 => exact ofOne
  | case3 block next others =>
      rw [List.forall_mem_cons] at ofTwo ⊢
      exact ⟨List.forall_mem_append.mpr ⟨ofOne block (.head _), ofTwo.1⟩, ofTwo.2⟩
  | case4 block second rest others inductionHypothesis =>
      rw [List.forall_mem_cons] at ofOne ⊢
      exact ⟨ofOne.1, inductionHypothesis ofOne.2 ofTwo⟩

theorem intercalate_runTogether (gap : List α) (one two : List (List α)) :
    gap.intercalate (runTogether one two) = gap.intercalate one ++ gap.intercalate two := by
  fun_induction runTogether one two with
  | case1 => simp
  | case2 => simp
  | case3 block next others =>
      cases others with
      | nil => simp
      | cons third more =>
          rw [List.intercalate_cons_cons, List.intercalate_cons_cons,
            List.intercalate_singleton]
          simp only [List.append_assoc]
  | case4 block second rest others inductionHypothesis =>
      have filled : runTogether (second :: rest) others ≠ [] := by
        simp [runTogether_eq_nil_iff]
      rw [List.intercalate_cons_of_ne_nil filled, inductionHypothesis,
        List.intercalate_cons_cons]
      simp only [List.append_assoc]

theorem flatten_allTogether (chapters : List (List (List α))) :
    (allTogether chapters).flatten = chapters.flatten.flatten := by
  have together (one two : List (List α)) :
      (runTogether one two).flatten = one.flatten ++ two.flatten := by
    fun_induction runTogether one two with
    | case1 => rfl
    | case2 => simp
    | case3 => simp
    | case4 block second rest others inductionHypothesis =>
        simp only [List.flatten_cons, inductionHypothesis, List.append_assoc]
  induction chapters with
  | nil => rfl
  | cons chapter rest inductionHypothesis =>
      rw [allTogether_cons, together, inductionHypothesis, List.flatten_cons, List.flatten_append]

theorem intercalate_allTogether (gap : List α) (chapters : List (List (List α))) :
    gap.intercalate (allTogether chapters) = (chapters.map gap.intercalate).flatten := by
  induction chapters with
  | nil => rfl
  | cons chapter rest inductionHypothesis =>
      rw [List.map_cons, List.flatten_cons, ← inductionHypothesis, allTogether_cons,
        intercalate_runTogether]

theorem forall_mem_allTogether {property : α → Prop} {chapters : List (List (List α))}
    (each : ∀ chapter ∈ chapters, ∀ block ∈ chapter, ∀ item ∈ block, property item) :
    ∀ block ∈ allTogether chapters, ∀ item ∈ block, property item := by
  induction chapters with
  | nil =>
      intro block isBlock
      cases isBlock
  | cons chapter rest inductionHypothesis =>
      rw [List.forall_mem_cons] at each
      exact forall_mem_runTogether each.1 (inductionHypothesis each.2)

/-- The lists that hold anything. -/
def written {β : Type} (lists : List (List β)) : List (List β) :=
  lists.filter fun list => !list.isEmpty

theorem allTogether_eq_nil_iff {chapters : List (List (List α))} :
    allTogether chapters = [] ↔ ∀ chapter ∈ chapters, chapter = [] := by
  induction chapters with
  | nil => simp [allTogether]
  | cons chapter rest inductionHypothesis =>
      rw [allTogether_cons, runTogether_eq_nil_iff, inductionHypothesis, List.forall_mem_cons]

theorem allTogether_written (chapters : List (List (List α))) :
    allTogether (written chapters) = allTogether chapters := by
  induction chapters with
  | nil => rfl
  | cons chapter rest inductionHypothesis =>
      cases chapter with
      | nil => exact inductionHypothesis
      | cons block others =>
          have front : written ((block :: others) :: rest) =
              (block :: others) :: written rest := rfl
          rw [front, allTogether_cons, allTogether_cons, inductionHypothesis]

theorem flatten_written {β : Type} (lists : List (List β)) :
    (written lists).flatten = lists.flatten :=
  List.flatten_filter_not_isEmpty

/-! ### Chapters that are set off -/

/-- Whether a chapter opens with a block of no lines. -/
def opensBlank : List (List α) → Bool
  | [] :: _ => true
  | _ => false

theorem opensBlank_eq_false_iff {block : List α} {others : List (List α)} :
    opensBlank (block :: others) = false ↔ block ≠ [] := by
  cases block <;> simp [opensBlank]

/-- A chapter that goes on behind its first block, with blocks that hold something. -/
def GoesOn (chapter : List (List α)) : Prop :=
  ∃ block others, chapter = block :: others ∧ others ≠ [] ∧ [] ∉ others

/-- Chapters that are set off from each other: only behind the first, each opens with a block of
no lines. -/
def SetOff : List (List (List α)) → Prop
  | [] => True
  | first :: later =>
      opensBlank first = false ∧ ∀ chapter ∈ later, opensBlank chapter = true

theorem written_eq_self {blocks : List (List α)} (filled : [] ∉ blocks) :
    written blocks = blocks := by
  apply List.filter_eq_self.mpr
  intro block isBlock
  rw [Bool.not_eq_true', List.isEmpty_eq_false_iff]
  rintro rfl
  exact filled isBlock

theorem written_append {β : Type} (one two : List (List β)) :
    written (one ++ two) = written one ++ written two := List.filter_append one two

/-- A block of no lines ends what is in front of it, and nothing is lost. -/
theorem runTogether_blank {one : List (List α)} (filled : one ≠ []) (others : List (List α)) :
    runTogether one ([] :: others) = one ++ others := by
  induction one with
  | nil => exact absurd rfl filled
  | cons block rest inductionHypothesis =>
      cases rest with
      | nil => rw [runTogether, List.append_nil, List.singleton_append]
      | cons second more =>
          rw [runTogether, inductionHypothesis (List.cons_ne_nil second more)]
          rfl

theorem runTogether_allTogether {later : List (List (List α))} {one : List (List α)}
    (filled : one ≠ []) (goOn : ∀ chapter ∈ later, GoesOn chapter)
    (blank : ∀ chapter ∈ later, opensBlank chapter = true) :
    runTogether one (allTogether later) = one ++ written later.flatten := by
  induction later generalizing one with
  | nil =>
      rw [allTogether, List.foldr_nil, runTogether_nil]
      exact (List.append_nil one).symm
  | cons chapter rest inductionHypothesis =>
      obtain ⟨⟨block, others, rfl, -, holds⟩, restGoOn⟩ := List.forall_mem_cons.mp goOn
      obtain ⟨opens, restBlank⟩ := List.forall_mem_cons.mp blank
      cases block with
      | cons item items => cases opens
      | nil =>
          have front : written ([] :: others) = others := written_eq_self holds
          rw [allTogether_cons, inductionHypothesis (List.cons_ne_nil _ _) restGoOn restBlank,
            List.cons_append, runTogether_blank filled, List.flatten_cons, written_append, front]

/-- A block is lost where a chapter opens blank. -/
theorem length_written_flatten {chapters : List (List (List α))}
    (goOn : ∀ chapter ∈ chapters, GoesOn chapter) :
    (written chapters.flatten).length + chapters.countP opensBlank = chapters.flatten.length := by
  induction chapters with
  | nil => rfl
  | cons chapter rest inductionHypothesis =>
      obtain ⟨⟨block, others, rfl, -, holds⟩, restGoOn⟩ := List.forall_mem_cons.mp goOn
      have behind := inductionHypothesis restGoOn
      rw [List.flatten_cons, written_append, List.length_append, List.length_append,
        List.countP_cons, ← behind]
      cases block with
      | nil =>
          have front : written ([] :: others) = others := written_eq_self holds
          have isBlank : opensBlank ([] :: others) = true := rfl
          rw [front, isBlank, List.length_cons, if_pos rfl]
          omega
      | cons item items =>
          have front : written ((item :: items) :: others) = (item :: items) :: others :=
            written_eq_self (by simpa using holds)
          have isFilled : opensBlank ((item :: items) :: others) = false := rfl
          rw [front, isFilled, if_neg Bool.false_ne_true]
          omega

/-- Every chapter behind another one loses a block. -/
theorem length_allTogether {chapters : List (List (List α))}
    (filled : ∀ chapter ∈ chapters, chapter ≠ []) :
    (allTogether chapters).length + (chapters.length - 1) = chapters.flatten.length := by
  induction chapters with
  | nil => rfl
  | cons chapter rest inductionHypothesis =>
      obtain ⟨first, others⟩ := List.forall_mem_cons.mp filled
      rw [List.flatten_cons, List.length_append, ← inductionHypothesis others, allTogether_cons,
        List.length_cons, Nat.add_sub_cancel]
      cases rest with
      | nil =>
          rw [allTogether, List.foldr_nil, runTogether_nil]
          rfl
      | cons next more =>
          have nextFilled : allTogether (next :: more) ≠ [] := by
            rw [allTogether_cons, Ne, runTogether_eq_nil_iff]
            exact fun nothing => others next (.head _) nothing.1
          have lost := length_runTogether first nextFilled
          rw [List.length_cons, Nat.add_sub_cancel]
          omega

/-- A block of no lines in front of all others is no block that was written. -/
theorem ne_nil_of_allTogether_eq {block : List α} {others : List (List α)}
    {later : List (List (List α))} (someOthers : others ≠ [])
    (same : allTogether ((block :: others) :: later) =
      written ((block :: others) :: later).flatten) : block ≠ [] := by
  rintro rfl
  obtain ⟨second, more, rfl⟩ := List.exists_cons_of_ne_nil someOthers
  rw [allTogether_cons, runTogether] at same
  have isWritten : ([] : List α) ∈ written (([] :: second :: more) :: later).flatten :=
    same ▸ .head _
  cases (List.mem_filter.mp isWritten).2

/-- Run together, chapters give their blocks back exactly if they are set off. -/
theorem allTogether_eq_written_iff {chapters : List (List (List α))}
    (goOn : ∀ chapter ∈ chapters, GoesOn chapter) :
    allTogether chapters = written chapters.flatten ↔ SetOff chapters := by
  cases chapters with
  | nil => exact ⟨fun _ => trivial, fun _ => rfl⟩
  | cons first later =>
      obtain ⟨⟨block, others, rfl, someOthers, holds⟩, laterGoOn⟩ := List.forall_mem_cons.mp goOn
      constructor
      · intro same
        have opens : opensBlank (block :: others) = false :=
          opensBlank_eq_false_iff.mpr (ne_nil_of_allTogether_eq someOthers same)
        refine ⟨opens, ?_⟩
        -- As many blocks are lost to blank openings as there are chapters behind the first.
        have nonempty : ∀ chapter ∈ (block :: others) :: later, chapter ≠ [] := by
          intro chapter isChapter
          obtain ⟨first, rest, rfl, -, -⟩ := goOn chapter isChapter
          exact List.cons_ne_nil first rest
        have lost := length_allTogether nonempty
        rw [same, ← length_written_flatten goOn, List.countP_cons, opens,
          if_neg Bool.false_ne_true, List.length_cons] at lost
        exact List.countP_eq_length.mp (by omega)
      · rintro ⟨opens, blank⟩
        have filled : [] ∉ block :: others := by
          rw [List.mem_cons, not_or]
          exact ⟨(opensBlank_eq_false_iff.mp opens).symm, holds⟩
        rw [allTogether_cons, List.flatten_cons, written_append, written_eq_self filled,
          runTogether_allTogether (List.cons_ne_nil block others) laterGoOn blank]

/-- Of chapters that open with lines, only one can be set off. -/
theorem setOff_iff_of_filled {chapters : List (List (List α))}
    (filled : ∀ chapter ∈ chapters, opensBlank chapter = false) :
    SetOff chapters ↔ chapters.length ≤ 1 := by
  cases chapters with
  | nil => simp [SetOff]
  | cons first later =>
      obtain ⟨opens, laterFilled⟩ := List.forall_mem_cons.mp filled
      rw [SetOff, List.length_cons, Nat.succ_le_succ_iff, Nat.le_zero, List.length_eq_zero_iff]
      constructor
      · rintro ⟨-, blank⟩
        apply List.eq_nil_iff_forall_not_mem.mpr
        intro chapter isChapter
        have both := (laterFilled chapter isChapter).symm.trans (blank chapter isChapter)
        cases both
      · rintro rfl
        exact ⟨opens, List.forall_mem_nil _⟩

/-! ### The text of several runs -/

/-- Lines that stand for themselves: none is blank, and none holds a line feed. -/
structure Upright (lines : List Text) : Prop where
  filled : ("" : Text) ∉ lines
  whole : Lacks '\n' lines

/-- A block is that of an entry, or one of no lines. -/
theorem mem_blocks {entries : List Entry} {block : List Text}
    (isBlock : block ∈ Entry.blocks entries) :
    block = [] ∨ ∃ entry ∈ entries, block = entry.lines := by
  cases entries with
  | nil => cases isBlock
  | cons entry rest =>
      rw [Entry.blocks] at isBlock
      rcases List.mem_cons.mp isBlock with rfl | behind
      · split
        next => exact .inr ⟨entry, .head _, rfl⟩
        next => exact .inl rfl
      · obtain ⟨other, isKept, rfl⟩ := List.mem_map.mp behind
        exact .inr ⟨other, .tail _ ((List.mem_filter.mp isKept).1), rfl⟩

/-- Lines that belong to the entries of some runs. -/
theorem forall_mem_blocks {property : Text → Prop} {entries : List Entry}
    (each : ∀ entry ∈ entries, ∀ line ∈ entry.lines, property line) :
    ∀ block ∈ Entry.blocks entries, ∀ line ∈ block, property line := by
  intro block isBlock line isLine
  rcases mem_blocks isBlock with rfl | ⟨entry, isEntry, rfl⟩
  · cases isLine
  · exact each entry isEntry line isLine

/-- The blocks that hold anything are those of the entries that have bytes. -/
theorem written_blocks (entries : List Entry) :
    written (Entry.blocks entries) = (Entry.kept entries).map Entry.lines := by
  have filled (entries : List Entry) : [] ∉ (Entry.kept entries).map Entry.lines := by
    intro isBlock
    obtain ⟨entry, -, noLines⟩ := List.mem_map.mp isBlock
    exact entry.lines_ne_nil noLines
  cases entries with
  | nil => rfl
  | cons entry rest =>
      have behind := written_eq_self (filled rest)
      rw [Entry.blocks, Entry.kept_cons, ← List.singleton_append, written_append, behind]
      split
      · rw [written_eq_self (by simpa using entry.lines_ne_nil.symm)]
        rfl
      · rfl

theorem opensBlank_blocks (entry : Entry) (rest : List Entry) :
    opensBlank (Entry.blocks (entry :: rest)) = !entry.isPlain := by
  rw [Entry.blocks]
  split
  next plain =>
    obtain ⟨line, lines, spelled⟩ := List.exists_cons_of_ne_nil entry.lines_ne_nil
    rw [spelled, plain]
    rfl
  next dropped =>
    rw [Bool.not_eq_true] at dropped
    rw [dropped]
    rfl

/-- Entries behind the first, of which the last has bytes, go on behind the first block. -/
theorem goesOn_blocks {entry : Entry} {rest : List Entry} {last : Entry}
    (isLast : last ∈ rest) (plain : last.isPlain = true) :
    GoesOn (Entry.blocks (entry :: rest)) := by
  have isKept : last ∈ Entry.kept rest := List.mem_filter.mpr ⟨isLast, plain⟩
  refine ⟨_, _, rfl, List.ne_nil_of_mem (List.mem_map_of_mem isKept), ?_⟩
  intro isBlock
  obtain ⟨other, -, noLines⟩ := List.mem_map.mp isBlock
  exact other.lines_ne_nil noLines

theorem lacks_intercalate {blocks : List (List Text)}
    (whole : ∀ block ∈ blocks, Lacks '\n' block) : Lacks '\n' (gap.intercalate blocks) := by
  cases blocks with
  | nil => exact lacks_nil
  | cons block rest =>
      obtain ⟨first, others⟩ := List.forall_mem_cons.mp whole
      rw [intercalate_cons, lacks_append]
      refine ⟨first, ?_⟩
      intro line isLine
      obtain ⟨other, isBlock, isLine⟩ := List.mem_flatMap.mp isLine
      rcases List.mem_append.mp isLine with isGap | isLine
      · rw [List.mem_singleton.mp isGap]
        simp
      · exact others other isBlock line isLine

/-- Entries of which the last has bytes leave lines if there are any. -/
theorem intercalate_blocks_eq_nil {entries : List Entry}
    (closed : ∀ entry ∈ entries.getLast?, entry.isPlain = true)
    (nothing : gap.intercalate (Entry.blocks entries) = []) : entries = [] := by
  cases entries with
  | nil => rfl
  | cons entry rest =>
      rw [Entry.blocks, intercalate_cons, List.append_eq_nil_iff] at nothing
      cases rest with
      | nil =>
          rw [if_pos (closed entry rfl)] at nothing
          exact absurd nothing.1 entry.lines_ne_nil
      | cons next more =>
          have last := List.getLast?_eq_some_getLast (List.cons_ne_nil next more)
          rw [List.getLast?_cons_cons] at closed
          have isKept : (next :: more).getLast (List.cons_ne_nil next more) ∈
              Entry.kept (next :: more) :=
            List.mem_filter.mpr ⟨List.getLast_mem _, closed _ last⟩
          have noneLeft := List.flatMap_eq_nil_iff.mp nothing.2 _ (List.mem_map_of_mem isKept)
          cases noneLeft

/-- The texts that one run after another adds to a file are made of the lines of their blocks. -/
theorem concat_chronicles (chapters : List (List Entry)) :
    Text.concat (chapters.map (Entry.chronicle true)) =
      Text.concat
        ((gap.intercalate (allTogether (chapters.map Entry.blocks))).map (· ++ "\n")) := by
  induction chapters with
  | nil => rfl
  | cons entries rest inductionHypothesis =>
      rw [List.map_cons, List.map_cons, allTogether_cons, intercalate_runTogether,
        List.map_append, Text.concat_append, Text.concat, inductionHypothesis,
        Entry.chronicle_true]

/-- The lines of a file to which one run after another has added its entries. -/
theorem linesOf_chronicles {chapters : List (List Entry)}
    (upright : ∀ entries ∈ chapters, ∀ entry ∈ entries, Upright entry.lines) :
    Text.linesOf (Text.concat (chapters.map (Entry.chronicle true))) =
      gap.intercalate (allTogether (chapters.map Entry.blocks)) := by
  have whole : ∀ block ∈ allTogether (chapters.map Entry.blocks), Lacks '\n' block := by
    apply forall_mem_allTogether
    intro chapter isChapter
    obtain ⟨entries, areEntries, rfl⟩ := List.mem_map.mp isChapter
    exact forall_mem_blocks fun entry isEntry => (upright entries areEntries entry isEntry).whole
  rw [concat_chronicles]
  exact Text.linesOf_concat (lacks_intercalate whole)

/-- The blocks of a file to which one run after another has added its entries: those of the
runs, run together where they meet. -/
theorem blocks_chronicles {chapters : List (List Entry)}
    (upright : ∀ entries ∈ chapters, ∀ entry ∈ entries, Upright entry.lines)
    (closed : ∀ entries ∈ chapters, ∀ entry ∈ entries.getLast?, entry.isPlain = true) :
    Text.blocks (Text.concat (chapters.map (Entry.chronicle true))) =
      allTogether (chapters.map Entry.blocks) := by
  rw [Text.blocks, linesOf_chronicles upright]
  -- No lines are no blocks, where dividing them would give one empty block.
  split
  next noLines =>
    symm
    rw [allTogether_eq_nil_iff]
    intro chapter isChapter
    obtain ⟨entries, areEntries, rfl⟩ := List.mem_map.mp isChapter
    rw [intercalate_allTogether] at noLines
    have nothing := List.flatten_eq_nil_iff.mp noLines _
      (List.mem_map_of_mem (List.mem_map_of_mem areEntries))
    rw [intercalate_blocks_eq_nil (closed entries areEntries) nothing, Entry.blocks]
  next hasLines =>
    apply List.splitOn_intercalate
    · have filled : ∀ block ∈ allTogether (chapters.map Entry.blocks),
          ∀ line ∈ block, line ≠ "" := by
        apply forall_mem_allTogether
        intro chapter isChapter
        obtain ⟨entries, areEntries, rfl⟩ := List.mem_map.mp isChapter
        apply forall_mem_blocks
        rintro entry isEntry line isLine rfl
        exact (upright entries areEntries entry isEntry).filled isLine
      exact fun block isBlock blank => filled block isBlock "" blank rfl
    · intro nothing
      rw [nothing] at hasLines
      exact hasLines rfl

end Journal

/-! ### The entries of events -/

namespace Json.Named

variable {α : Type} [DecidableEq α]

theorem mem_put {members : Named α} {name : α} {value : Json} {member : α × Json}
    (isMember : member ∈ put members name value) : member.1 = name ∨ member ∈ members := by
  induction members with
  | nil =>
      rw [put, List.mem_singleton] at isMember
      exact .inl (congrArg Prod.fst isMember)
  | cons first rest inductionHypothesis =>
      obtain ⟨known, old⟩ := first
      rw [put] at isMember
      split at isMember
      next same =>
        rcases List.mem_cons.mp isMember with rfl | behind
        · exact .inl same
        · exact .inr (.tail _ behind)
      next =>
        rcases List.mem_cons.mp isMember with rfl | behind
        · exact .inr (.head _)
        · exact (inductionHypothesis behind).imp_right (.tail _)

/-- What holds of every name that is there and of every name that is put, holds of every name
then. -/
theorem forall_mem_foldl_put (property : α → Prop) {members pairs : Named α}
    (ofMembers : ∀ member ∈ members, property member.1)
    (ofPairs : ∀ pair ∈ pairs, property pair.1) :
    ∀ member ∈ pairs.foldl (fun members pair => put members pair.1 pair.2) members,
      property member.1 := by
  induction pairs generalizing members with
  | nil => exact ofMembers
  | cons pair rest inductionHypothesis =>
      obtain ⟨first, others⟩ := List.forall_mem_cons.mp ofPairs
      refine inductionHypothesis ?_ others
      intro member isMember
      rcases mem_put isMember with same | isMember
      · rwa [same]
      · exact ofMembers member isMember

theorem get?_foldl_put {members pairs : Named α} {name : α}
    (others : ∀ pair ∈ pairs, pair.1 ≠ name) :
    get? (pairs.foldl (fun members pair => put members pair.1 pair.2) members) name =
      get? members name := by
  induction pairs generalizing members with
  | nil => rfl
  | cons pair rest inductionHypothesis =>
      obtain ⟨first, behind⟩ := List.forall_mem_cons.mp others
      rw [List.foldl_cons, inductionHypothesis behind, get?_put_of_ne members _ first.symm]

end Json.Named

/-- An event of the program's own: ordinary, with names that hold no line feed. -/
structure Event.Tidy (event : Event) : Prop where
  ordinary : event.level = infoLevel
  name : Glyph.char '\n' ∉ event.name.toList
  fields : ∀ field ∈ event.fields, field.1 ≠ "event" ∧ Glyph.char '\n' ∉ field.1.toList

theorem lf_not_mem_fieldText (value : Json) : Glyph.char '\n' ∉ (fieldText value).toList := by
  rw [fieldText, Text.toList_ofList, Text.replaceChar, List.mem_flatMap]
  rintro ⟨c, -, isThere⟩
  split at isThere
  · exact absurd isThere (by decide)
  next different => exact different (List.mem_singleton.mp isThere).symm

/-- The arranged fields have the names of the fields that were given. -/
theorem mem_arrange {fields : Json.Members} {field : Text × Json}
    (isField : field ∈ arrange fields) :
    field.1 ∈ leadingNames ∨ ∃ given ∈ fields, given.1 = field.1 := by
  rw [arrange, List.mem_append] at isField
  rcases isField with isLeading | isOther
  · obtain ⟨name, isName, shown⟩ := List.mem_filterMap.mp isLeading
    obtain ⟨value, -, rfl⟩ := Option.map_eq_some_iff.mp shown
    exact .inl isName
  · rw [(perm_sortBy _ _).mem_iff] at isOther
    exact .inr ⟨field, (List.mem_filter.mp (List.mem_filter.mp isOther).1).1, rfl⟩

/-- All that is told of an event: the time, its name and its fields. -/
theorem Event.forall_mem_given (property : Text → Prop) {event : Event} {stamp : String}
    (ofStamp : property "ts") (ofName : property "event")
    (ofFields : ∀ field ∈ event.fields, property field.1) :
    ∀ pair ∈ (("ts" : Text), Json.text stamp) :: ("event", .text event.name) ::
      event.fields.map (fun field => (field.1, field.2.toJson)), property pair.1 := by
  rw [List.forall_mem_cons, List.forall_mem_cons]
  refine ⟨ofStamp, ofName, ?_⟩
  intro pair isPair
  obtain ⟨field, isField, rfl⟩ := List.mem_map.mp isPair
  exact ofFields field isField

theorem Event.Tidy.title_eq {event : Event} (tidy : event.Tidy) (stamp : String) :
    (event.entry stamp).title = event.name := by
  have others : ∀ pair ∈ event.fields.map fun field => (field.1, field.2.toJson),
      pair.1 ≠ ("event" : Text) := by
    intro pair isPair
    obtain ⟨field, isField, rfl⟩ := List.mem_map.mp isPair
    exact (tidy.fields field isField).1
  rw [Event.entry, Entry.ofFields]
  dsimp only
  rw [List.foldl_cons, List.foldl_cons, Json.Named.get?_foldl_put others,
    Json.Named.get?_put_self]
  rfl

theorem Event.Tidy.lf_not_mem_name {event : Event} (tidy : event.Tidy) {stamp : String}
    {field : Text × Json} (isField : field ∈ (event.entry stamp).fields) :
    Glyph.char '\n' ∉ field.1.toList := by
  have inBase : ∀ member ∈ baseFields "root" event.level, Glyph.char '\n' ∉ member.1.toList := by
    simp [baseFields]
  have inGiven := @Event.forall_mem_given (fun name => Glyph.char '\n' ∉ name.toList) event stamp
    (by simp) (by simp) fun field isField => (tidy.fields field isField).2
  rcases mem_arrange isField with isLeading | ⟨given, isGiven, same⟩
  · have leading : Lacks '\n' leadingNames := by decide
    exact leading field.1 isLeading
  · rw [← same]
    exact Json.Named.forall_mem_foldl_put (fun name => Glyph.char '\n' ∉ name.toList) inBase
      inGiven given (List.mem_filter.mp isGiven).1

/-- The entry of a tidy event is written on lines that stand for themselves. -/
theorem Event.Tidy.upright {event : Event} (tidy : event.Tidy) (stamp : String) :
    Journal.Upright (event.entry stamp).lines := by
  have noTrailer : (event.entry stamp).trailer = [] := rfl
  have title : Glyph.char '\n' ∉ ("=== " ++ event.name ++ " ===").toList := by
    simp [tidy.name]
  rw [Entry.lines, noTrailer, List.append_nil, tidy.title_eq]
  refine ⟨?_, lacks_cons.mpr ⟨title, ?_⟩⟩
  · simp
  · intro line isLine
    obtain ⟨field, isField, rfl⟩ := List.mem_map.mp isLine
    have name := tidy.lf_not_mem_name isField
    have value := lf_not_mem_fieldText field.2
    simp [name, value]

end ShellGloss
