/-
Module: ShellGloss.Proofs.NamedPlaces
Purpose: Which paths name a place.  One from the root does exactly if each of its glyphs may
  stand in the name of a file; and whatever names a place gives names that each go down.
Imports: ShellGloss.Arguments, ShellGloss.Proofs.AbsentCharacter, ShellGloss.Proofs.LogFile
Main exports:
  Text.Nameable, Path.walk_eq_ok_iff, Path.absolute_eq_ok_iff, mapPath_eq_ok,
  mapPath_settled, readArguments_settled
-/
import ShellGloss.Arguments
import ShellGloss.Proofs.AbsentCharacter
import ShellGloss.Proofs.LogFile

namespace ShellGloss

/-! ### Texts of names -/

namespace Text

/-- A text of glyphs that may stand in the name of a file. -/
def Nameable (text : Text) : Prop := ∀ c ∈ text.toList, Utf8.isNameable c = true

theorem toList_subset_joinWith (gap : Text) {text : Text} {texts : List Text}
    (among : text ∈ texts) : text.toList ⊆ (joinWith gap texts).toList := by
  induction texts using joinWith.induct with
  | case1 => cases among
  | case2 one =>
      rw [List.mem_singleton.mp among]
      exact List.Subset.refl _
  | case3 one next rest inductionHypothesis =>
      rw [joinWith, toList_append, toList_append]
      rcases List.mem_cons.mp among with rfl | behind
      · exact List.subset_append_of_subset_left _ (List.subset_append_left ..)
      · exact List.subset_append_of_subset_right _ (inductionHypothesis behind)

/-- Taking a text apart leaves out its marks alone. -/
theorem exists_mem_splitAt {mark c : Glyph} {chars : List Glyph} (isThere : c ∈ chars)
    (noMark : c ≠ mark) : ∃ part ∈ splitAt mark chars, c ∈ part := by
  induction chars with
  | nil => cases isThere
  | cons first rest inductionHypothesis =>
      by_cases same : first = mark
      · rw [same, splitAt_cons_self]
        have behind : c ∈ rest := (List.mem_cons.mp isThere).resolve_left (same ▸ noMark)
        obtain ⟨part, isPart, held⟩ := inductionHypothesis behind
        exact ⟨part, .tail _ isPart, held⟩
      · obtain ⟨part, parts, behind, whole⟩ := exists_splitAt_cons same rest
        rw [whole]
        rcases List.mem_cons.mp isThere with rfl | isThere
        · exact ⟨_, .head _, .head _⟩
        · obtain ⟨other, isPart, held⟩ := inductionHypothesis isThere
          rw [behind] at isPart
          rcases List.mem_cons.mp isPart with rfl | isPart
          · exact ⟨_, .head _, .tail _ held⟩
          · exact ⟨other, .tail _ isPart, held⟩

end Text

theorem Location.toList_text (location : Location) :
    location.text.toList = Glyph.char '/' :: (Text.joinWith "/" location.names).toList := by
  simp [Location.text]

/-- The text of a place is a path exactly if each of its names may be one. -/
theorem Location.nameable_text_iff {location : Location} :
    location.text.Nameable ↔ ∀ name ∈ location.names, name.Nameable := by
  constructor
  · intro nameable name among c held
    apply nameable c
    rw [toList_text]
    exact .tail _ (Text.toList_subset_joinWith "/" among held)
  · intro nameable c held
    apply Decidable.byContradiction
    intro unnameable
    have notSlash : c ≠ .char '/' := by
      rintro rfl
      exact unnameable rfl
    have lacks : Lacks c location.names := fun name among inside =>
      unnameable (nameable name among c inside)
    rw [toList_text, List.mem_cons] at held
    exact Text.not_mem_joinWith (by simpa using notSlash) lacks (held.resolve_left notSlash)

namespace Path

/-! ### Walking -/

theorem nameable_of_silent {name : Text} (silent : name = "" ∨ name = "." ∨ name = "..") :
    name.Nameable := by
  unfold Text.Nameable
  rcases silent with rfl | rfl | rfl
  all_goals decide

theorem nameable_descend {above : List Text} (nameable : ∀ other ∈ above, other.Nameable)
    (name : Text) : (∀ other ∈ descend above name, other.Nameable) ↔ name.Nameable := by
  unfold descend
  split
  next silent =>
    have itself := nameable_of_silent (silent.imp_right .inl)
    exact ⟨fun _ => itself, fun _ => nameable⟩
  next =>
    split
    next up =>
      have itself := nameable_of_silent (.inr (.inr up))
      exact ⟨fun _ => itself, fun _ other among => nameable other (List.mem_of_mem_drop among)⟩
    next =>
      rw [List.forall_mem_cons]
      exact ⟨And.left, fun itself => ⟨itself, nameable⟩⟩

/-- A place on the way can be looked at exactly if the name that leads to it may be one. -/
theorem nameFault?_descend_eq_none_iff {above : List Text}
    (nameable : ∀ other ∈ above, other.Nameable) (name : Text) :
    Text.Utf8.nameFault? (Location.text ⟨(descend above name).reverse⟩) = none ↔
      name.Nameable := by
  rw [Text.Utf8.nameFault?_eq_none_iff, ← nameable_descend nameable name]
  refine Location.nameable_text_iff.trans ?_
  simp only [List.mem_reverse]

/-- A walk comes to its end exactly if each name on the way may be one. -/
theorem walk_eq_ok_iff {above names reached : List Text}
    (nameable : ∀ name ∈ above, name.Nameable) :
    walk above names = .ok reached ↔
      (∀ name ∈ names, name.Nameable) ∧ reached = names.foldl descend above := by
  induction names generalizing above with
  | nil =>
      rw [walk, Except.ok.injEq, eq_comm]
      simp
  | cons name rest inductionHypothesis =>
      have looked := nameFault?_descend_eq_none_iff nameable name
      rw [walk, List.forall_mem_cons, List.foldl_cons]
      split
      next fault faulty =>
        rw [faulty] at looked
        constructor
        · intro walked
          cases walked
        · rintro ⟨⟨itself, -⟩, -⟩
          cases looked.mpr itself
      next faultless =>
        have itself := looked.mp faultless
        rw [inductionHypothesis ((nameable_descend nameable name).mpr itself), and_iff_right itself]

theorem nameable_segments_iff {chars : List Glyph} :
    (∀ name ∈ segments chars, name.Nameable) ↔ (Text.ofList chars).Nameable := by
  constructor
  · intro nameable c held
    by_cases slash : c = .char '/'
    · rw [slash]
      rfl
    · obtain ⟨part, isPart, held⟩ := Text.exists_mem_splitAt held slash
      exact nameable (.ofList part) (List.mem_map_of_mem isPart) c held
  · intro nameable name among
    obtain ⟨part, isPart, rfl⟩ := List.mem_map.mp among
    exact fun c held => nameable c ((Text.mem_splitAt isPart).2 held)

/-- A path names a place exactly if it starts at the root and may be one; the place is then the
one where its names lead. -/
theorem absolute_eq_ok_iff {chars : List Glyph} {location : Location} :
    absolute chars = .ok location ↔
      isAbsolute chars = true ∧ (Text.ofList chars).Nameable ∧ location = locate chars := by
  have walked {reached : List Text} : walk [] (segments chars) = .ok reached ↔
      (Text.ofList chars).Nameable ∧ reached = (segments chars).foldl descend [] := by
    rw [walk_eq_ok_iff (List.forall_mem_nil _), nameable_segments_iff]
  rw [absolute]
  cases isAbsolute chars with
  | false => simp
  | true =>
      cases outcome : walk [] (segments chars) with
      | error fault =>
          have failed : ¬(Text.ofList chars).Nameable := fun nameable =>
            nomatch outcome.symm.trans (walked.mpr ⟨nameable, rfl⟩)
          simp [failed]
      | ok reached =>
          obtain ⟨nameable, rfl⟩ := walked.mp outcome
          simp [nameable, locate, settle, eq_comm]

end Path

/-! ### Places from arguments -/

/-- Whatever its form, an argument that names a place is a path that leads there. -/
theorem mapPath_eq_ok {around : Surroundings} {raw : Text} {location : Location}
    (mapped : mapPath around raw = .ok location) :
    Path.isAbsolute around.appRoot.toList = true ∧
      ∃ path, (Text.ofList path).Nameable ∧ location = Path.locate path := by
  have placed {path : List Glyph} (placed : Path.absolute path = .ok location) :
      ∃ path, (Text.ofList path).Nameable ∧ location = Path.locate path :=
    ⟨path, (Path.absolute_eq_ok_iff.mp placed).2⟩
  unfold mapPath at mapped
  split at mapped
  · cases mapped
  next rooted =>
    refine ⟨by simpa using rooted, ?_⟩
    split at mapped
    · cases mapped
    split at mapped
    next => exact placed mapped
    next =>
      unfold Path.fromHome at mapped
      dsimp only at mapped
      split at mapped
      next => cases mapped
      next =>
        split at mapped
        next => cases mapped
        next => exact placed mapped
    next => exact placed mapped

/-- The place that a path argument names is given by names that each go down. -/
theorem mapPath_settled {around : Surroundings} {raw : Text} {location : Location}
    (mapped : mapPath around raw = .ok location) : Path.Settled location.names := by
  obtain ⟨-, path, -, rfl⟩ := mapPath_eq_ok mapped
  exact Path.settled_settle _

theorem Arguments.collect_settled {around : Surroundings} {sofar arguments : Arguments}
    {argv : List Text} (collected : Arguments.collect around sofar argv = .ok arguments)
    (before : ∀ location ∈ sofar.logFile, Path.Settled location.names) :
    ∀ location ∈ arguments.logFile, Path.Settled location.names := by
  fun_induction Arguments.collect around sofar argv with
  | case1 sofar =>
      cases collected
      exact before
  | case2 sofar =>
      cases collected
      exact before
  | case3 => cases collected
  | case4 => cases collected
  | case5 sofar next rest inductionHypothesis => exact inductionHypothesis collected before
  | case6 sofar next rest _ inductionHypothesis => exact inductionHypothesis collected before
  | case7 => cases collected
  | case8 sofar next rest location _ _ placed inductionHypothesis =>
      exact inductionHypothesis collected before
  | case9 => cases collected
  | case10 sofar next rest location _ _ _ placed inductionHypothesis =>
      -- The only option that sets the place of the log.
      refine inductionHypothesis collected ?_
      rintro other ⟨⟩
      rw [Arguments.place] at placed
      split at placed
      next mapped =>
        cases placed
        exact mapPath_settled mapped
      next => cases placed
  | case11 => cases collected

theorem readArguments_settled {around : Surroundings} {argv : List Text}
    {arguments : Arguments} (read : readArguments around argv = .ok (.run arguments)) :
    ∀ location ∈ arguments.logFile, Path.Settled location.names := by
  rw [readArguments] at read
  split at read
  · cases read
  split at read
  next => cases read
  next collected isCollected =>
    split at read
    next => cases read
    next arguments isSettled =>
      cases read
      have same : arguments = collected := by
        rw [Arguments.settle] at isSettled
        split at isSettled
        next =>
          split at isSettled
          · cases isSettled
          · cases isSettled
            rfl
        next =>
          cases isSettled
          rfl
      rw [same]
      exact Arguments.collect_settled isCollected (fun location isThere => nomatch isThere)

end ShellGloss
