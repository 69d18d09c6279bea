/-
Module: ShellGloss.Proofs.NormalPaths
Purpose: The places that path arguments name: their texts are normal paths that name them
  again, and a path in the program's directory is the path behind that directory's own.
Imports: Mathlib.Tactic.ByContra, ShellGloss.Proofs.NamedPlaces
Main exports:
  Path.spokenNames_append, Path.spokenNames_joinWith, Path.locate_eq, Path.walk_spoken,
  Path.absolute_eq_of_spokenNames, plainPath_spokenNames, mapPath_text, mapPath_normal
-/
import Mathlib.Tactic.ByContra
import ShellGloss.Proofs.NamedPlaces

namespace ShellGloss

/-! ### Names that say something

Where a path leads depends on its names alone, and on those only that say something.  So
paths are compared by `spokenNames`, which takes a path apart at any of its slashes.
-/

namespace Path

theorem spokenNames_append (one two : List Glyph) :
    spokenNames (one ++ .char '/' :: two) = spokenNames one ++ spokenNames two := by
  rw [spokenNames, segments, Text.splitAt_append, List.map_append, List.filter_append]
  rfl

/-- A name that goes down one step, or up, and has no slash inside. -/
def Spoken (name : Text) : Prop := name ≠ "" ∧ name ≠ "." ∧ Glyph.char '/' ∉ name.toList

theorem spokenNames_of_spoken {name : Text} (spoken : Spoken name) :
    spokenNames name.toList = [name] := by
  obtain ⟨filled, notDot, noSlash⟩ := spoken
  rw [spokenNames, segments, Text.splitAt_of_not_mem noSlash]
  simp [filled, notDot]

theorem spoken_of_mem_spokenNames {chars : List Glyph} {name : Text}
    (among : name ∈ spokenNames chars) : Spoken name ∧ name.toList ⊆ chars := by
  rw [spokenNames, segments, List.mem_filter, List.mem_map, decide_eq_true_eq] at among
  obtain ⟨⟨part, isPart, rfl⟩, filled, notDot⟩ := among
  obtain ⟨noSlash, held⟩ := Text.mem_splitAt isPart
  rw [Spoken, Text.toList_ofList]
  exact ⟨⟨filled, notDot, noSlash⟩, held⟩

/-- Names joined by slashes are the names of the path. -/
theorem spokenNames_joinWith {names : List Text} (spoken : ∀ name ∈ names, Spoken name) :
    spokenNames (Text.joinWith "/" names).toList = names := by
  induction names using Text.joinWith.induct with
  | case1 => rfl
  | case2 one => exact spokenNames_of_spoken (spoken one (.head _))
  | case3 one next rest inductionHypothesis =>
      rw [List.forall_mem_cons] at spoken
      have spelled : (Text.joinWith "/" (one :: next :: rest)).toList =
          one.toList ++ .char '/' :: (Text.joinWith "/" (next :: rest)).toList := by
        simp [Text.joinWith]
      rw [spelled, spokenNames_append, spokenNames_of_spoken spoken.1,
        inductionHypothesis spoken.2, List.singleton_append]

theorem descend_of_silent {name : Text} (silent : ¬(name ≠ "" ∧ name ≠ ".")) (above : List Text) :
    descend above name = above := by
  rw [not_and_or, not_not, not_not] at silent
  rw [descend, if_pos silent]

/-- What says nothing leads nowhere. -/
theorem settle_spokenNames (chars : List Glyph) :
    settle (spokenNames chars) = settle (segments chars) := by
  suffices general : ∀ above, (spokenNames chars).foldl descend above =
      (segments chars).foldl descend above by
    rw [settle, general, settle]
  rw [spokenNames]
  induction segments chars with
  | nil => exact fun above => rfl
  | cons name rest inductionHypothesis =>
      intro above
      rw [List.filter_cons, List.foldl_cons]
      split
      · rw [List.foldl_cons, inductionHypothesis]
      next silent =>
        rw [decide_eq_true_eq] at silent
        rw [inductionHypothesis, descend_of_silent silent]

theorem locate_eq (chars : List Glyph) : locate chars = ⟨settle (spokenNames chars)⟩ := by
  rw [locate, settle_spokenNames]

/-- Every name of a place was one of the names that led there. -/
theorem settle_subset (names : List Text) : settle names ⊆ names := by
  suffices general : ∀ above, names.foldl descend above ⊆ above ++ names by
    intro name isThere
    simpa using general [] (List.mem_reverse.mp isThere)
  induction names with
  | nil => simp
  | cons name rest inductionHypothesis =>
      intro above other isThere
      have step : descend above name ⊆ above ++ [name] := by
        unfold descend
        split
        · exact List.subset_append_left ..
        · split
          · exact List.subset_append_of_subset_left _ (List.drop_subset 1 above)
          · simp
      rcases List.mem_append.mp (inductionHypothesis _ isThere) with before | later
      · exact List.append_subset.mpr ⟨List.subset_append_left .., by simp⟩ (step before)
      · exact List.mem_append_right _ (.tail _ later)

/-- The names of the place where a path leads. -/
theorem spoken_of_mem_locate {chars : List Glyph} {name : Text}
    (among : name ∈ (locate chars).names) : Spoken name ∧ name.toList ⊆ chars := by
  rw [locate_eq] at among
  exact spoken_of_mem_spokenNames (settle_subset _ among)

end Path

theorem Location.isAbsolute_text (location : Location) :
    Path.isAbsolute location.text.toList = true := by
  simp [Path.isAbsolute, Location.toList_text]

/-- The text of a place leads to the place. -/
theorem Path.locate_text {location : Location} (settled : Settled location.names)
    (spoken : ∀ name ∈ location.names, Spoken name) : locate location.text.toList = location := by
  have rooted := spokenNames_append [] (Text.joinWith "/" location.names).toList
  rw [List.nil_append, spokenNames_joinWith spoken] at rooted
  have nothing : spokenNames [] = [] := rfl
  rw [locate_eq, location.toList_text, rooted, nothing, List.nil_append, settle_eq_self settled]

/-! ### Paths as they are shown -/

theorem Path.spokenNames_rootMark (chars rest : List Glyph) :
    spokenNames ((rootMark chars).toList ++ rest) = spokenNames rest := by
  have slash (behind : List Glyph) : spokenNames ('/' :: behind) = spokenNames behind :=
    spokenNames_append [] behind
  unfold rootMark
  split
  · exact slash rest
  · exact (slash ('/' :: rest)).trans (slash rest)
  · exact slash rest
  · rfl

/-- A path that is shown has the names of the path that was given. -/
theorem plainPath_spokenNames (raw : Text) :
    Path.spokenNames (plainPath raw).toList = Path.spokenNames raw.toList := by
  have body := Path.spokenNames_joinWith fun name (among : name ∈ Path.spokenNames raw.toList) =>
    (Path.spoken_of_mem_spokenNames among).1
  unfold plainPath
  dsimp only
  split
  next silent =>
    rw [silent.2] at body
    exact body
  · rw [Text.toList_append, Path.spokenNames_rootMark, body]

theorem Path.mem_rootMark {chars : List Glyph} {c : Glyph} (among : c ∈ (rootMark chars).toList) :
    c = '/' := by
  unfold rootMark at among
  split at among <;> simp_all

theorem Path.rootMark_of_isAbsolute {chars : List Glyph} (absolute : isAbsolute chars = true) :
    isAbsolute (rootMark chars).toList = true := by
  unfold rootMark
  split
  · rfl
  · rfl
  · rfl
  next relative =>
    cases chars with
    | nil => exact absolute
    | cons c rest =>
        have slash : c = '/' := by simpa [isAbsolute] using absolute
        exact absurd (congrArg (· :: rest) slash) (relative rest)

theorem Path.isAbsolute_append {chars : List Glyph} (absolute : isAbsolute chars = true)
    (rest : List Glyph) : isAbsolute (chars ++ rest) = true := by
  cases chars with
  | nil => cases absolute
  | cons c others => exact absolute

theorem plainPath_of_isAbsolute {raw : Text} (absolute : Path.isAbsolute raw.toList = true) :
    plainPath raw =
      Path.rootMark raw.toList ++ Text.joinWith "/" (Path.spokenNames raw.toList) := by
  refine if_neg ?_
  rintro ⟨rootless, -⟩
  have rooted := Path.rootMark_of_isAbsolute absolute
  rw [rootless] at rooted
  cases rooted

theorem plainPath_isAbsolute {raw : Text} (absolute : Path.isAbsolute raw.toList = true) :
    Path.isAbsolute (plainPath raw).toList = true := by
  rw [plainPath_of_isAbsolute absolute, Text.toList_append]
  exact Path.isAbsolute_append (Path.rootMark_of_isAbsolute absolute) _

/-- A path that is shown holds nothing that was not given. -/
theorem plainPath_subset {raw : Text} (absolute : Path.isAbsolute raw.toList = true) :
    (plainPath raw).toList ⊆ raw.toList := by
  have slash : Glyph.char '/' ∈ raw.toList := List.mem_of_head? (eq_of_beq absolute)
  intro c held
  by_contra absent
  have notSlash : c ≠ '/' := fun same => absent (same ▸ slash)
  have lacks : Lacks c (Path.spokenNames raw.toList) := fun name among inside =>
    absent ((Path.spoken_of_mem_spokenNames among).2 inside)
  rw [plainPath_of_isAbsolute absolute, Text.toList_append, List.mem_append] at held
  rcases held with inRoot | inBody
  · exact notSlash (Path.mem_rootMark inRoot)
  · exact Text.not_mem_joinWith (by simpa using notSlash) lacks inBody

/-! ### Walking what is said -/

namespace Path

/-- What says nothing is no place to look at. -/
theorem walk_spoken {above : List Text} (nameable : ∀ name ∈ above, name.Nameable)
    (names : List Text) :
    walk above (names.filter fun name => name ≠ "" ∧ name ≠ ".") = walk above names := by
  induction names generalizing above with
  | nil => rfl
  | cons name rest inductionHypothesis =>
      rw [List.filter_cons, walk]
      have looked := nameFault?_descend_eq_none_iff nameable name
      split
      · rw [walk]
        split
        next => rfl
        next faultless =>
          exact inductionHypothesis ((nameable_descend nameable name).mpr (looked.mp faultless))
      next silent =>
        rw [decide_eq_true_eq] at silent
        have stays := descend_of_silent silent above
        have faultless : Text.Utf8.nameFault? (Location.text ⟨above.reverse⟩) = none := by
          rw [Text.Utf8.nameFault?_eq_none_iff]
          apply Location.nameable_text_iff.mpr
          exact fun other among => nameable other (List.mem_reverse.mp among)
        rw [stays, faultless]
        exact inductionHypothesis nameable

/-- Paths from the root with the same names end alike: at one place, or at one fault. -/
theorem absolute_eq_of_spokenNames {one two : List Glyph} (oneRooted : isAbsolute one = true)
    (twoRooted : isAbsolute two = true) (same : spokenNames one = spokenNames two) :
    absolute one = absolute two := by
  have walks (chars : List Glyph) : walk [] (segments chars) = walk [] (spokenNames chars) :=
    (walk_spoken (List.forall_mem_nil _) (segments chars)).symm
  rw [absolute, absolute, oneRooted, twoRooted, walks one, walks two, same]

theorem exists_half_of_unencodable {glyphs : List Glyph} {offset : Nat}
    {fault : Text.Utf8.NameFault}
    (unencodable : Text.Utf8.unencodable? offset glyphs = some fault) :
    ∃ place halves, fault = .unencodable place halves := by
  induction glyphs generalizing offset with
  | nil => cases unencodable
  | cons c rest inductionHypothesis =>
      rw [Text.Utf8.unencodable?] at unencodable
      split at unencodable
      · exact inductionHypothesis unencodable
      · cases unencodable
        exact ⟨_, _, rfl⟩

/-- A walk along names without NUL fails by a half that has no byte, if it fails. -/
theorem exists_half_of_walk {above names : List Text} {fault : Text.Utf8.NameFault}
    (cleanAbove : Lacks '\x00' above) (clean : Lacks '\x00' names)
    (failed : walk above names = .error fault) :
    ∃ place halves, fault = .unencodable place halves := by
  induction names generalizing above with
  | nil => cases failed
  | cons name rest inductionHypothesis =>
      obtain ⟨nameClean, restClean⟩ := lacks_cons.mp clean
      have cleanHere : Lacks '\x00' (descend above name) := by
        unfold descend
        split
        · exact cleanAbove
        · split
          · exact fun other among => cleanAbove other (List.mem_of_mem_drop among)
          · exact lacks_cons.mpr ⟨nameClean, cleanAbove⟩
      rw [walk] at failed
      split at failed
      next faulty =>
        cases failed
        rw [Text.Utf8.nameFault?] at faulty
        split at faulty
        next unencodable =>
          cases faulty
          exact exists_half_of_unencodable unencodable
        next =>
          have noNul : Glyph.char '\x00' ∉
              (Location.text ⟨(descend above name).reverse⟩).toList := by
            rw [Location.toList_text, List.mem_cons, not_or]
            refine ⟨by decide, Text.not_mem_joinWith (by decide) ?_⟩
            exact fun other among => cleanHere other (List.mem_reverse.mp among)
          rw [if_neg (by simpa using noNul)] at faulty
          cases faulty
      next => exact inductionHypothesis cleanHere restClean failed

/-- A path from the root that holds no NUL names a place exactly if each of its glyphs has a
byte, and otherwise it fails by a half that has none. -/
theorem absolute_outcome {chars : List Glyph} (rooted : isAbsolute chars = true)
    (clean : Glyph.char '\x00' ∉ chars) :
    ((∃ location, absolute chars = .ok location) ↔
      ∀ c ∈ chars, (Text.Utf8.nameBytes? c).isSome = true) ∧
    ∀ error, absolute chars = .error error →
      ∃ place halves, error = .unnameable (.unencodable place halves) := by
  constructor
  · have nameable : (Text.ofList chars).Nameable ↔
        ∀ c ∈ chars, (Text.Utf8.nameBytes? c).isSome = true := by
      refine forall₂_congr fun c held => ?_
      have notNul : c ≠ .char '\x00' := fun isNul => clean (isNul ▸ held)
      simp [Text.Utf8.isNameable, notNul]
    simp only [absolute_eq_ok_iff, rooted, true_and, exists_and_left, exists_eq, and_true, nameable]
  · intro error failed
    have cleanNames : Lacks '\x00' (segments chars) := by
      intro name among held
      obtain ⟨part, isPart, rfl⟩ := List.mem_map.mp among
      exact clean ((Text.mem_splitAt isPart).2 held)
    rw [absolute, rooted, if_neg (by decide)] at failed
    split at failed
    next fault faulty =>
      cases failed
      obtain ⟨place, halves, rfl⟩ := exists_half_of_walk lacks_nil cleanNames faulty
      exact ⟨place, halves, rfl⟩
    next => cases failed

end Path

/-! ### Arguments that name a place -/

/-- A path from the root is taken as it is. -/
theorem mapPath_of_isAbsolute {around : Surroundings}
    (rooted : Path.isAbsolute around.appRoot.toList = true) {raw : Text}
    (absolute : Path.isAbsolute raw.toList = true) (clean : Glyph.char '\x00' ∉ raw.toList) :
    mapPath around raw = Path.absolute raw.toList := by
  unfold mapPath
  rw [rooted]
  rw [if_neg (by decide), if_neg (by simpa using clean)]
  split
  next spelled => simp [spelled, Path.isAbsolute] at absolute
  next spelled => simp [spelled, Path.isAbsolute] at absolute
  next => rfl

/-- The text of a place that an argument names, names it again. -/
theorem mapPath_text {around : Surroundings} {raw : Text} {location : Location}
    (mapped : mapPath around raw = .ok location) :
    mapPath around location.text = .ok location := by
  obtain ⟨rooted, path, nameable, rfl⟩ := mapPath_eq_ok mapped
  have spoken (name : Text) (among : name ∈ (Path.locate path).names) :=
    Path.spoken_of_mem_locate among
  have isPath : (Path.locate path).text.Nameable := by
    apply Location.nameable_text_iff.mpr
    exact fun name among c held => nameable c ((spoken name among).2 held)
  have clean : Glyph.char '\x00' ∉ (Path.locate path).text.toList :=
    fun held => absurd (isPath _ held) (by decide)
  have back := Path.locate_text (mapPath_settled mapped) fun name among => (spoken name among).1
  rw [mapPath_of_isAbsolute rooted (Location.isAbsolute_text _) clean]
  exact Path.absolute_eq_ok_iff.mpr ⟨Location.isAbsolute_text _, isPath, back.symm⟩

/-- A text by the slashes and backslashes it starts with. -/
theorem Path.exists_marks (chars : List Glyph) :
    ∃ marks rest, chars = marks ++ rest ∧ (∀ c ∈ marks, c = '/' ∨ c = '\\') ∧
      ∀ c ∈ rest.head?, c ≠ '/' ∧ c ≠ '\\' := by
  induction chars with
  | nil => exact ⟨[], [], rfl, by simp, by simp⟩
  | cons c others inductionHypothesis =>
      by_cases isMark : c = '/' ∨ c = '\\'
      · obtain ⟨marks, rest, rfl, areMarks, markless⟩ := inductionHypothesis
        exact ⟨c :: marks, rest, rfl, List.forall_mem_cons.mpr ⟨isMark, areMarks⟩, markless⟩
      · rw [not_or] at isMark
        refine ⟨[], c :: others, rfl, by simp, ?_⟩
        rintro _ ⟨⟩
        exact isMark

/-- A path in the program's directory, by what stands behind the marks it starts with. -/
theorem mapPath_of_appRoot {around : Surroundings}
    (rooted : Path.isAbsolute around.appRoot.toList = true) {raw : Text}
    (clean : Glyph.char '\x00' ∉ raw.toList) {marks rest : List Glyph}
    (spelled : raw.toList = Glyph.char '@' :: (marks ++ rest))
    (areMarks : ∀ c ∈ marks, c = '/' ∨ c = '\\')
    (markless : ∀ c ∈ rest.head?, c ≠ '/' ∧ c ≠ '\\') :
    mapPath around raw = Path.absolute (around.appRoot.toList ++ .char '/' :: rest) := by
  have behind : (marks ++ rest).dropWhile (fun c => c == .char '/' || c == .char '\\') = rest := by
    rw [List.dropWhile_append_of_pos (by simpa using areMarks)]
    cases rest with
    | nil => rfl
    | cons c others => exact List.dropWhile_cons_of_neg (by simpa using markless c rfl)
  have placed : Path.fromAppRoot around.appRoot (marks ++ rest) =
      Path.absolute (around.appRoot.toList ++ .char '/' :: rest) := by
    rw [Path.fromAppRoot, behind]
  unfold mapPath
  rw [rooted, if_neg (by decide), if_neg (by simpa using clean), spelled]
  exact placed

/-- Paths behind two directories with the same names end alike. -/
theorem mapPath_behind {around : Surroundings}
    (rooted : Path.isAbsolute around.appRoot.toList = true) {root : Text}
    (absolute : Path.isAbsolute root.toList = true)
    (same : Path.spokenNames root.toList = Path.spokenNames around.appRoot.toList)
    {rest : List Glyph} (clean : Glyph.char '\x00' ∉ root.toList ++ .char '/' :: rest) :
    mapPath around (root ++ "/" ++ Text.ofList rest) =
      Path.absolute (around.appRoot.toList ++ .char '/' :: rest) := by
  have spelled : (root ++ "/" ++ Text.ofList rest).toList = root.toList ++ .char '/' :: rest := by
    simp
  have isPath := Path.isAbsolute_append absolute ('/' :: rest)
  have names : Path.spokenNames (root.toList ++ .char '/' :: rest) =
      Path.spokenNames (around.appRoot.toList ++ .char '/' :: rest) := by
    rw [Path.spokenNames_append, same, Path.spokenNames_append]
  rw [← spelled] at isPath clean
  rw [mapPath_of_isAbsolute rooted isPath clean, spelled]
  rw [spelled] at isPath
  exact Path.absolute_eq_of_spokenNames isPath (Path.isAbsolute_append rooted _) names

/-- An argument names a place by a normal path: it starts at the root, no name between its
slashes is missing, `.` or `..`, and it names the same place again.  An argument that starts
with `@` ends like the path of the rest behind the program's directory, given or shown: it names
the same place, which it does exactly if each glyph has a byte in the name of a file, or it
fails in the same way, by a half of a pair that has none. -/
theorem mapPath_normal (around : Surroundings) (raw : Text) :
    (∀ location, mapPath around raw = .ok location →
      Path.isAbsolute location.text.toList = true ∧
        (∀ name ∈ location.names,
          name ≠ "" ∧ name ≠ "." ∧ name ≠ ".." ∧ Glyph.char '/' ∉ name.toList) ∧
        mapPath around location.text = .ok location) ∧
    (Path.isAbsolute around.appRoot.toList = true → Glyph.char '\x00' ∉ around.appRoot.toList →
      Glyph.char '\x00' ∉ raw.toList → raw.toList.head? = some (.char '@') →
      ∃ marks rest, raw.toList = Glyph.char '@' :: (marks ++ rest) ∧
        (∀ c ∈ marks, c = '/' ∨ c = '\\') ∧ (∀ c ∈ rest.head?, c ≠ '/' ∧ c ≠ '\\') ∧
        (∀ root ∈ [around.appRoot, plainPath around.appRoot],
          mapPath around raw = mapPath around (root ++ "/" ++ Text.ofList rest)) ∧
        ((∃ location, mapPath around raw = .ok location) ↔
          ∀ c ∈ around.appRoot.toList ++ raw.toList, (Text.Utf8.nameBytes? c).isSome = true) ∧
        ∀ error, mapPath around raw = .error error →
          ∃ place halves, error = .unnameable (.unencodable place halves)) := by
  constructor
  · intro location mapped
    obtain ⟨-, path, -, isThere⟩ := mapPath_eq_ok mapped
    refine ⟨location.isAbsolute_text, ?_, mapPath_text mapped⟩
    intro name among
    obtain ⟨filled, notDot, notUp⟩ := mapPath_settled mapped name among
    rw [isThere] at among
    exact ⟨filled, notDot, notUp, (Path.spoken_of_mem_locate among).1.2.2⟩
  · intro rooted rootClean rawClean starts
    obtain ⟨body, spelled⟩ := List.head?_eq_some_iff.mp starts
    obtain ⟨marks, rest, rfl, areMarks, markless⟩ := Path.exists_marks body
    have restClean : Glyph.char '\x00' ∉ rest := by
      rw [spelled] at rawClean
      exact fun among => rawClean (.tail _ (List.mem_append_right _ among))
    have behind {root : Text} (held : root.toList ⊆ around.appRoot.toList) :
        Glyph.char '\x00' ∉ root.toList ++ .char '/' :: rest := by
      simp only [List.mem_append, List.mem_cons, not_or]
      exact ⟨fun among => rootClean (held among), by decide, restClean⟩
    have itself := mapPath_of_appRoot rooted rawClean spelled areMarks markless
    obtain ⟨succeeds, fails⟩ := Path.absolute_outcome
      (Path.isAbsolute_append rooted (.char '/' :: rest)) (behind (List.Subset.refl _))
    rw [itself]
    refine ⟨marks, rest, spelled, areMarks, markless, ?_, ?_, fails⟩
    · -- As shown, the directory may be spelled differently, but its names are the same.
      rw [List.forall_mem_cons, List.forall_mem_singleton]
      exact ⟨(mapPath_behind rooted rooted rfl (behind (List.Subset.refl _))).symm,
        (mapPath_behind rooted (plainPath_isAbsolute rooted) (plainPath_spokenNames _)
          (behind (plainPath_subset rooted))).symm⟩
    · -- The marks and the slash in their place have bytes.
      have ofMarks : ∀ c ∈ marks, (Text.Utf8.nameBytes? c).isSome = true := by
        intro c isMark
        rcases areMarks c isMark with rfl | rfl <;> rfl
      rw [succeeds, spelled]
      simp only [List.forall_mem_append, List.forall_mem_cons, and_congr_right_iff]
      intro _
      exact ⟨fun both => ⟨rfl, ofMarks, both.2⟩, fun all => ⟨rfl, all.2.2⟩⟩

/-- A way out of the home directory of another user, and the directory of a program that is
written in a roundabout way. -/
theorem mapPath_normal_roundabout :
    let around : Surroundings :=
      { home := "/home/me//", users := [("you", "/home/you/")], appRoot := "//app/./root/.." }
    mapPath around "~you/../..//a/./~/@b/" = .ok ⟨["a", "~", "@b"]⟩ ∧
      mapPath around "/a/~/@b" = .ok ⟨["a", "~", "@b"]⟩ ∧
      plainPath around.appRoot = "//app/root/.." ∧
      ∃ marks rest, ("@\\/../../data//x" : Text).toList = Glyph.char '@' :: (marks ++ rest) ∧
        ∃ location, mapPath around "@\\/../../data//x" = .ok location ∧
          mapPath around ("//app/root/.." ++ "/" ++ Text.ofList rest) = .ok location := by
  intro around
  have mapped : mapPath around "~you/../..//a/./~/@b/" = .ok ⟨["a", "~", "@b"]⟩ := rfl
  have shown : plainPath around.appRoot = "//app/root/.." := by decide +kernel
  obtain ⟨marks, rest, spelled, -, -, roots, succeeds, -⟩ :=
    (mapPath_normal around "@\\/../../data//x").2 (by decide) (by decide) (by decide) (by decide)
  obtain ⟨location, placed⟩ := succeeds.mpr (by decide +kernel)
  have behind := roots (plainPath around.appRoot) (.tail _ (.head _))
  rw [shown] at behind
  exact ⟨mapped, ((mapPath_normal around _).1 _ mapped).2.2, shown, marks, rest, spelled, location,
    placed, behind.symm.trans placed⟩

/-- A half of a pair that has no byte is refused, also behind `@` and where the path leads out
of it again. -/
theorem mapPath_half_ne :
    let around : Surroundings := { home := "/home/me", appRoot := "/app/root" }
    let raw : Text := .ofList ['@', .half 0, '/', '.', '.']
    Path.isAbsolute around.appRoot.toList = true ∧
      Glyph.char '\x00' ∉ around.home.toList ++ around.appRoot.toList ++ raw.toList ∧
      raw.toList.head? = some (.char '@') ∧
      mapPath around raw = .error (.unnameable (.unencodable 10 [.half 0])) ∧
      ∀ location, mapPath around raw ≠ .ok location := by
  intro around raw
  have refused : mapPath around raw = .error (.unnameable (.unencodable 10 [.half 0])) := rfl
  refine ⟨by decide, by decide +kernel, by decide, refused, ?_⟩
  intro location placed
  cases refused.symm.trans placed

end ShellGloss
