/-
Module: ShellGloss.Proofs.LogFile
Purpose: What a log leaves in its file: opening it changes no file, and each event that is
  written adds its entry to the end.
Imports: ShellGloss.Journal.Log
Main exports:
  Path.Settled, Path.settle_eq_self, Disk.bytesAt, Disk.bytesAt_openForAppend,
  Text.Utf8.encode?_eq_some_iff, entriesOf, Entry.isPlain, Entry.chronicle,
  Log.WritesTo.writeAll, Log.writesTo_of_openFile
-/
import ShellGloss.Journal.Log

namespace ShellGloss

/-! ### Settled names -/

namespace Path

/-- Names of which each goes down one step. -/
def Settled (names : List Text) : Prop :=
  ∀ name ∈ names, name ≠ "" ∧ name ≠ "." ∧ name ≠ ".."

theorem descend_of_settled {name : Text} (above : List Text)
    (down : name ≠ "" ∧ name ≠ "." ∧ name ≠ "..") : descend above name = name :: above := by
  simp [descend, down]

theorem Settled.descend {above : List Text} (settled : Settled above) (name : Text) :
    Settled (Path.descend above name) := by
  unfold Path.descend
  split
  · exact settled
  next speaks =>
    split
    · exact fun other isThere => settled other (List.mem_of_mem_drop isThere)
    next down =>
      simp only [not_or] at speaks
      intro other isThere
      rcases List.mem_cons.mp isThere with rfl | isThere
      · exact ⟨speaks.1, speaks.2, down⟩
      · exact settled other isThere

theorem settled_settle (names : List Text) : Settled (settle names) := by
  suffices general : ∀ above, Settled above → Settled (names.foldl descend above) by
    intro name isThere
    exact general [] (fun _ isThere => nomatch isThere) name (List.mem_reverse.mp isThere)
  induction names with
  | nil => exact fun above settled => settled
  | cons name rest inductionHypothesis =>
      intro above settled
      exact inductionHypothesis _ (settled.descend name)

/-- Settled names stay as they are. -/
theorem settle_eq_self {names : List Text} (settled : Settled names) : settle names = names := by
  suffices general : ∀ above, names.foldl descend above = names.reverse ++ above by
    rw [settle, general, List.append_nil, List.reverse_reverse]
  induction names with
  | nil => exact fun above => rfl
  | cons name rest inductionHypothesis =>
      intro above
      rw [List.foldl_cons, descend_of_settled above (settled name (.head _)),
        inductionHypothesis (fun other isThere => settled other (.tail _ isThere)),
        List.reverse_cons, List.append_assoc, List.singleton_append]

end Path

/-! ### Files of a tree -/

namespace Disk

theorem find?_putEntry_self (entries : List (Location × DiskEntry)) (location : Location)
    (entry : DiskEntry) :
    ((putEntry entries location entry).find? (·.1 == location)).map (·.2) = some entry := by
  induction entries with
  | nil => simp [putEntry]
  | cons pair rest inductionHypothesis =>
      obtain ⟨known, old⟩ := pair
      by_cases same : known = location
      · simp [putEntry, same]
      · simpa [putEntry, same] using inductionHypothesis

theorem find?_putEntry_of_ne (entries : List (Location × DiskEntry)) {location other : Location}
    (entry : DiskEntry) (different : other ≠ location) :
    (putEntry entries location entry).find? (·.1 == other) =
      entries.find? (·.1 == other) := by
  induction entries with
  | nil => simp [putEntry, different.symm]
  | cons pair rest inductionHypothesis =>
      obtain ⟨known, old⟩ := pair
      by_cases same : known = location
      · simp [putEntry, same, different.symm]
      · simp [putEntry, same, List.find?_cons, inductionHypothesis]

theorem get?_put_self {location : Location} (below : location.names ≠ []) (disk : Disk)
    (entry : DiskEntry) : (disk.put location entry).get? location = some entry := by
  rw [get?, if_neg (by simpa using below)]
  exact find?_putEntry_self disk.entries location entry

theorem get?_put_of_ne {location other : Location} (different : other ≠ location) (disk : Disk)
    (entry : DiskEntry) : (disk.put location entry).get? other = disk.get? other := by
  rw [get?, get?, put, find?_putEntry_of_ne disk.entries entry different]

/-- Only the root is a directory without being one of the entries. -/
theorem names_ne_nil (disk : Disk) {location : Location}
    (notDirectory : disk.get? location ≠ some .directory) : location.names ≠ [] := by
  intro root
  rw [get?, if_pos (by simpa using root)] at notDirectory
  exact notDirectory rfl

/-- The bytes of the file at a place; what is no file has none. -/
def bytesAt (disk : Disk) (location : Location) : List UInt8 :=
  match disk.get? location with
  | some (.file bytes) => bytes
  | _ => []

theorem bytesAt_of_get? {disk : Disk} {location : Location} {bytes : List UInt8}
    (isFile : disk.get? location = some (.file bytes)) : disk.bytesAt location = bytes := by
  rw [bytesAt, isFile]

/-- Putting something with the bytes that a place has changes no bytes. -/
theorem bytesAt_put {disk : Disk} {location : Location} {entry : DiskEntry}
    (notDirectory : disk.get? location ≠ some .directory)
    (same : (match entry with | .file bytes => bytes | .directory => []) = disk.bytesAt location)
    (other : Location) : (disk.put location entry).bytesAt other = disk.bytesAt other := by
  by_cases here : other = location
  · subst here
    rw [← same, bytesAt, get?_put_self (names_ne_nil disk notDirectory)]
    cases entry <;> rfl
  · rw [bytesAt, bytesAt, get?_put_of_ne here]

/-! ### Opening a file -/

theorem bytesAt_addDirectory {disk tree : Disk} {route : Route}
    (added : disk.addDirectory route = .ok tree) (location : Location) :
    tree.bytesAt location = disk.bytesAt location := by
  rw [addDirectory] at added
  split at added
  next => cases added
  next place _ =>
    split at added
    next => cases added
    next nothing =>
      cases added
      exact bytesAt_put (by simp [nothing]) (by simp [bytesAt, nothing]) location

theorem bytesAt_provide (disk : Disk) (route : Route) (location : Location) :
    (disk.provide route).disk.bytesAt location = disk.bytesAt location := by
  rw [provide]
  split
  next added => exact bytesAt_addDirectory added location
  next => split <;> rfl

theorem bytesAt_provideAll (root : Text) (disk : Disk) (names : List Text)
    (location : Location) :
    (provideAll root disk names).disk.bytesAt location = disk.bytesAt location := by
  induction names with
  | nil => rfl
  | cons name above inductionHypothesis =>
      rw [provideAll]
      split
      next =>
        dsimp only
        split
        · exact inductionHypothesis
        · exact (bytesAt_provide _ _ location).trans inductionHypothesis
      next => exact bytesAt_provide disk _ location

theorem bytesAt_makeDirectory (disk : Disk) (route : Route) (location : Location) :
    (disk.makeDirectory route).disk.bytesAt location = disk.bytesAt location := by
  rw [makeDirectory]
  split
  · rfl
  · exact bytesAt_provideAll _ disk _ location

theorem walk_eq {disk : Disk} {above names reached : List Text}
    (walked : disk.walk above names = .ok reached) : reached = names.foldl Path.descend above := by
  induction names generalizing above with
  | nil =>
      cases walked
      rfl
  | cons name rest inductionHypothesis =>
      rw [walk] at walked
      split at walked
      next => cases walked
      next => cases walked
      next =>
        split at walked
        · cases walked
        · exact inductionHypothesis walked

theorem reach_eq {disk : Disk} {route : Route} {location : Location}
    (reached : disk.reach route = .ok location) : location = ⟨Path.settle route.names⟩ := by
  rw [reach] at reached
  split at reached
  · cases reached
  · cases walked : disk.walk [] route.names with
    | error reason =>
        rw [walked] at reached
        cases reached
    | ok names =>
        rw [walked] at reached
        cases reached
        rw [walk_eq walked, Path.settle]

/-- Opening a file and keeping what is in it changes no bytes. -/
theorem bytesAt_openFile (disk : Disk) (route : Route) (location : Location) :
    (disk.openFile route id).disk.bytesAt location = disk.bytesAt location := by
  rw [openFile]
  split
  · rfl
  split
  next => rfl
  next place _ =>
    split
    next => rfl
    next isFile =>
      exact bytesAt_put (by simp [isFile]) (by simp [bytesAt, isFile]) location
    next nothing =>
      exact bytesAt_put (by simp [nothing]) (by simp [bytesAt, nothing]) location

/-- Where a file was opened, there is one. -/
theorem exists_file_of_openFile {disk : Disk} {route : Route} {keep : List UInt8 → List UInt8}
    (opened : (disk.openFile route keep).failure = none) :
    ∃ bytes, (disk.openFile route keep).disk.get? ⟨Path.settle route.names⟩ =
      some (.file bytes) := by
  rw [openFile] at opened ⊢
  split at opened
  · cases opened
  next =>
    split at opened
    next => cases opened
    next place reached =>
      have isPlace := reach_eq reached
      subst isPlace
      split at opened
      next => cases opened
      next bytes isFile =>
        exact ⟨keep bytes, get?_put_self (names_ne_nil disk (by simp [isFile])) disk _⟩
      next nothing =>
        exact ⟨[], get?_put_self (names_ne_nil disk (by simp [nothing])) disk _⟩

theorem bytesAt_openForAppend (disk : Disk) (route : Route) (location : Location) :
    (disk.openForAppend route).disk.bytesAt location = disk.bytesAt location := by
  have made := bytesAt_makeDirectory disk route.parent location
  rw [openForAppend, insideDirectory]
  split
  · exact made
  · exact (bytesAt_openFile _ _ location).trans made

theorem exists_file_of_openForAppend {disk : Disk} {route : Route}
    (opened : (disk.openForAppend route).failure = none) :
    ∃ bytes, (disk.openForAppend route).disk.get? ⟨route.settled.names⟩ =
      some (.file bytes) := by
  rw [openForAppend, insideDirectory] at opened ⊢
  split at opened
  next failed =>
    rw [failed] at opened
    cases opened
  next made =>
    have isFile := exists_file_of_openFile opened
    have settled : Path.settle route.settled.names = route.settled.names :=
      Path.settle_eq_self (Path.settled_settle route.names)
    rwa [settled] at isFile

theorem get?_append {disk : Disk} {location : Location} {old : List UInt8}
    (isFile : disk.get? location = some (.file old)) (bytes : List UInt8) :
    (disk.append location bytes).get? location = some (.file (old ++ bytes)) := by
  rw [append, isFile]
  exact get?_put_self (names_ne_nil disk (by simp [isFile])) disk _

end Disk

/-! ### Bytes of texts -/

namespace Text.Utf8

theorem encode_append (one two : String) : encode (one ++ two) = encode one ++ encode two := by
  rw [encode, String.toList_append, List.flatMap_append]
  rfl

/-- The texts that have bytes are those of characters. -/
theorem encode?_eq_some_iff {text : Text} {bytes : List UInt8} :
    encode? text = some bytes ↔ ∃ s : String, text = s ∧ bytes = encode s := by
  constructor
  · intro encoded
    obtain ⟨s, isPlain, rfl⟩ := Option.map_eq_some_iff.mp encoded
    have plain : text.isPlain = true := by
      rw [← Bool.not_eq_false, ← plain?_eq_none_iff, isPlain]
      exact Option.some_ne_none s
    obtain ⟨spelled, rfl⟩ := isPlain_iff.mp plain
    rw [plain?_ofString, Option.some.injEq] at isPlain
    exact ⟨spelled, rfl, by rw [isPlain]⟩
  · rintro ⟨s, rfl, rfl⟩
    rw [encode?, plain?_ofString, Option.map_some]

theorem encode?_eq_none_iff {text : Text} : encode? text = none ↔ text.isPlain = false := by
  rw [encode?, Option.map_eq_none_iff, plain?_eq_none_iff]

theorem encode?_append {one two : Text} {first second : List UInt8}
    (isFirst : encode? one = some first) (isSecond : encode? two = some second) :
    encode? (one ++ two) = some (first ++ second) := by
  obtain ⟨s, rfl, rfl⟩ := encode?_eq_some_iff.mp isFirst
  obtain ⟨t, rfl, rfl⟩ := encode?_eq_some_iff.mp isSecond
  exact encode?_eq_some_iff.mpr ⟨s ++ t, (ofString_append s t).symm, (encode_append s t).symm⟩

end Text.Utf8

/-! ### Writing events -/

/-- The entries of events that happen at some times. -/
def entriesOf (events : List (String × Event)) : List Entry :=
  events.map fun (stamp, event) => event.entry stamp

namespace Entry

/-- Whether an entry has bytes. -/
def isPlain (entry : Entry) : Bool := entry.text.isPlain

/-- What an entry leaves in the file of a log: one that has no bytes leaves nothing. -/
def trace (first : Bool) (entry : Entry) : Text :=
  if entry.isPlain then entry.following first ++ "\n" else ""

/-- The text of entries that go on from others, or from nothing. -/
def chronicle (first : Bool) : List Entry → Text
  | [] => ""
  | entry :: rest => entry.trace first ++ chronicle false rest

theorem isPlain_following (first : Bool) (entry : Entry) :
    (entry.following first ++ "\n").isPlain = entry.isPlain := by
  cases first <;> simp [following, isPlain]

end Entry

namespace Log

/-- A log that writes to a file, what the file holds, and whether it has had an entry. -/
structure WritesTo (location : Location) (started : Bool) (bytes : List UInt8) (disk : Disk)
    (log : Log) : Prop where
  file : log.file = some ⟨location, started⟩
  audible : log.silenced = false
  content : disk.get? location = some (.file bytes)

variable {location : Location} {started : Bool} {bytes : List UInt8} {disk : Disk} {log : Log}

/-- One event adds its entry, which stands behind a blank line unless it is the first that this
log has to write.  An entry that has no bytes adds nothing, and it counts as one. -/
theorem WritesTo.write (writes : WritesTo location started bytes disk log) (stamp : String)
    {event : Event} (ordinary : event.level = infoLevel) :
    ∃ added, Text.Utf8.encode? ((event.entry stamp).trace (!started)) = some added ∧
      WritesTo location true (bytes ++ added) (Log.write stamp disk log event).1
        (Log.write stamp disk log event).2 := by
  have admitted : log.admits event.level = true := by
    rw [admits, ordinary, writes.audible]
    decide
  have plain := Entry.isPlain_following (!started) (event.entry stamp)
  rw [Log.write, writes.file]
  dsimp only
  rw [if_pos admitted, Entry.trace, ← plain]
  cases encoded : Text.Utf8.encode? ((event.entry stamp).following (!started) ++ "\n") with
  | none =>
      rw [Text.Utf8.encode?_eq_none_iff.mp encoded]
      refine ⟨[], rfl, rfl, writes.audible, ?_⟩
      rw [List.append_nil]
      exact writes.content
  | some added =>
      obtain ⟨s, isText, -⟩ := Text.Utf8.encode?_eq_some_iff.mp encoded
      rw [Text.isPlain_iff.mpr ⟨s, isText⟩]
      exact ⟨added, encoded, rfl, writes.audible, Disk.get?_append writes.content _⟩

/-- Each event adds its entry to the file. -/
theorem WritesTo.writeAll (writes : WritesTo location started bytes disk log)
    {events : List (String × Event)} (ordinary : ∀ pair ∈ events, pair.2.level = infoLevel) :
    ∃ added, Text.Utf8.encode? (Entry.chronicle (!started) (entriesOf events)) = some added ∧
      (Log.writeAll disk log events).1.get? location = some (.file (bytes ++ added)) := by
  induction events generalizing started bytes disk log with
  | nil =>
      refine ⟨[], rfl, ?_⟩
      rw [List.append_nil]
      exact writes.content
  | cons pair rest inductionHypothesis =>
      obtain ⟨first, others⟩ := List.forall_mem_cons.mp ordinary
      obtain ⟨front, isFront, onward⟩ := writes.write pair.1 first
      obtain ⟨behind, isBehind, written⟩ := inductionHypothesis onward others
      rw [List.append_assoc] at written
      exact ⟨front ++ behind, Text.Utf8.encode?_append isFront isBehind, written⟩

/-- A log that was opened writes to its file, whose bytes are those it had. -/
theorem writesTo_of_openFile {route : Route} {opened : Disk}
    (isOpen : Log.openFile disk route = ⟨opened, .ok log⟩) :
    WritesTo ⟨route.settled.names⟩ false (disk.bytesAt ⟨route.settled.names⟩) opened log := by
  rw [Log.openFile] at isOpen
  split at isOpen
  next => cases isOpen
  next tree outcome =>
    cases isOpen
    have same := Disk.bytesAt_openForAppend disk route ⟨route.settled.names⟩
    have opened : (disk.openForAppend route).failure = none := by rw [outcome]
    obtain ⟨bytes, isFile⟩ := Disk.exists_file_of_openForAppend opened
    rw [outcome] at same isFile
    refine ⟨rfl, rfl, ?_⟩
    rw [← same, Disk.bytesAt_of_get? isFile, isFile]

/-- Opening a log changes the bytes of no file, also where it fails. -/
theorem bytesAt_openFile (disk : Disk) (route : Route) (location : Location) :
    (Log.openFile disk route).disk.bytesAt location = disk.bytesAt location := by
  rw [← Disk.bytesAt_openForAppend disk route location, Log.openFile]
  split
  next outcome => rw [outcome]
  next outcome => rw [outcome]

end Log

end ShellGloss
