/-
Module: ShellGloss.Proofs.RunJournal
Purpose: What runs that log to one file leave in it.  Each adds its entries, set off from each
  other by one blank line, but nothing sets them off from those of the run before.
Imports: Mathlib.Data.List.Chain, ShellGloss.App, ShellGloss.Proofs.LogBlocks,
  ShellGloss.Proofs.NamedPlaces, ShellGloss.Proofs.SessionRun, ShellGloss.Proofs.Utf8RoundTrip
Main exports:
  App.Launch.disk_noteAll, App.Call, App.Call.entries, App.Call.LogsTo, App.Call.bytesAt_left,
  App.Call.bytesAt_last, App.Call.exists_text_blocks, blocks_of_runs
-/
import Mathlib.Data.List.Chain
import ShellGloss.App
import ShellGloss.Proofs.LogBlocks
import ShellGloss.Proofs.NamedPlaces
import ShellGloss.Proofs.SessionRun
import ShellGloss.Proofs.Utf8RoundTrip

namespace ShellGloss

/-! ### One run -/

namespace App

/-- The events of a run that are noted go to its log. -/
theorem Launch.disk_noteAll (clock : Clock) (readings : Nat) (launch : Launch)
    (events : List Event) :
    (launch.noteAll clock readings events).disk =
      (Log.writeAll launch.disk launch.log (clock.stamped readings events)).1 := by
  induction events generalizing launch readings with
  | nil => rfl
  | cons event rest inductionHypothesis => exact inductionHypothesis _ _

/-- The events of what a run is started for. -/
def Launch.served (launch : Launch) (script : List PromptOutcome) : List Event :=
  match launch.arguments.query with
  | some query => (ShellGloss.explain launch.screen launch.catalog (Text.trim query)).events
  | none => (Session.run launch.screen launch.catalog script).events

theorem Launch.served_note (launch : Launch) (stamp : String) (event : Event)
    (script : List PromptOutcome) :
    (launch.note stamp event).served script = launch.served script := rfl

/-- A run as it is called: where it is, the clock it reads, what it is asked for, what its
prompts bring, and the tree it finds. -/
structure Call where
  around : Surroundings
  clock : Clock
  disk : Disk
  argv : List Text
  script : List PromptOutcome

namespace Call

/-- The tree that a run leaves. -/
def left (call : Call) : Disk :=
  (App.run call.around call.clock call.disk call.argv call.script).closing.disk

/-- The events of a run: its start, what it is started for, and its exit.  One that cannot be
started has none. -/
def events (call : Call) : List Event :=
  match App.start call.around (call.clock 0) call.disk call.argv with
  | .over _ => []
  | .ready launch =>
      App.startEvent launch.arguments launch.catalog :: launch.served call.script ++
        [App.exitEvent]

/-- The entries of a run: the clock is read once for each. -/
def entries (call : Call) : List Entry := entriesOf (call.clock.stamped 0 call.events)

/-- The blocks that a run leaves in its log. -/
def blocks (call : Call) : List (List Text) := Entry.blocks call.entries

/-- A run that is told to log to a place. -/
def LogsTo (location : Location) (call : Call) : Prop :=
  ∃ arguments, readArguments call.around call.argv = .ok (.run arguments) ∧
    arguments.logFile = some location

end Call

theorem queryEvents_tidy (query : Text) (groups : Option (List (List Node))) :
    ∀ event ∈ queryEvents query groups, event.Tidy := by
  have requested : Event.Tidy
      { name := "explain_request", fields := [("query", .text query)] } :=
    ⟨rfl, by simp, by simp⟩
  cases groups with
  | none =>
      simp only [queryEvents, List.forall_mem_cons, List.not_mem_nil, false_imp_iff,
        implies_true, and_true]
      exact ⟨requested, rfl, by simp, by simp⟩
  | some groups =>
      simp only [queryEvents, List.forall_mem_cons, List.not_mem_nil, false_imp_iff,
        implies_true, and_true]
      exact ⟨requested, rfl, by simp, by simp⟩

theorem events_explain_tidy (screen : Screen) (catalog : Catalog) (query : Text) :
    ∀ event ∈ (explain screen catalog query).events, event.Tidy :=
  queryEvents_tidy query (respond catalog query).groups

theorem Launch.served_tidy (launch : Launch) (script : List PromptOutcome) :
    ∀ event ∈ launch.served script, event.Tidy := by
  rw [Launch.served]
  split
  next query _ => exact events_explain_tidy _ _ _
  next =>
    rw [Session.run, Session.events_runFrom]
    intro event isEvent
    obtain ⟨query, -, isEvent⟩ := List.mem_flatMap.mp isEvent
    exact events_explain_tidy _ _ _ event isEvent

theorem startEvent_tidy (arguments : Arguments) (catalog : Catalog) :
    (startEvent arguments catalog).Tidy :=
  ⟨rfl, by simp [startEvent], by simp [startEvent]⟩

theorem exitEvent_tidy : exitEvent.Tidy := ⟨rfl, by simp [exitEvent], by simp [exitEvent]⟩

theorem Call.events_tidy (call : Call) : ∀ event ∈ call.events, event.Tidy := by
  rw [Call.events]
  split
  next =>
    intro event isEvent
    cases isEvent
  next launch _ =>
    rw [List.cons_append, List.forall_mem_cons, List.forall_mem_append, List.forall_mem_singleton]
    exact ⟨startEvent_tidy _ _, launch.served_tidy call.script, exitEvent_tidy⟩

/-- The events of a run that is under way. -/
theorem Call.events_of_ready {call : Call} {launch : Launch}
    (started : App.start call.around (call.clock 0) call.disk call.argv = .ready launch) :
    call.events =
      startEvent launch.arguments launch.catalog :: (launch.served call.script ++ [exitEvent]) := by
  rw [Call.events, started]
  rfl

/-! ### Entries of a run -/

theorem snd_mem_of_mem_stamped {clock : Clock} {readings : Nat} {events : List Event}
    {pair : String × Event} (isPair : pair ∈ clock.stamped readings events) : pair.2 ∈ events := by
  induction events generalizing readings with
  | nil => cases isPair
  | cons event rest inductionHypothesis =>
      rcases List.mem_cons.mp isPair with rfl | behind
      · exact .head _
      · exact .tail _ (inductionHypothesis behind)

theorem stamped_append (clock : Clock) (readings : Nat) (one two : List Event) :
    clock.stamped readings (one ++ two) =
      clock.stamped readings one ++ clock.stamped (readings + one.length) two := by
  induction one generalizing readings with
  | nil => rfl
  | cons event rest inductionHypothesis =>
      rw [List.cons_append, Clock.stamped, Clock.stamped, inductionHypothesis, List.cons_append,
        List.length_cons, Nat.add_right_comm, Nat.add_assoc]

theorem Call.exists_event {call : Call} {entry : Entry} (isEntry : entry ∈ call.entries) :
    ∃ stamp, ∃ event ∈ call.events, entry = event.entry stamp := by
  obtain ⟨pair, isPair, rfl⟩ := List.mem_map.mp isEntry
  exact ⟨pair.1, pair.2, snd_mem_of_mem_stamped isPair, rfl⟩

theorem Call.upright_entries (call : Call) :
    ∀ entry ∈ call.entries, Journal.Upright entry.lines := by
  intro entry isEntry
  obtain ⟨stamp, event, isEvent, rfl⟩ := Call.exists_event isEntry
  exact (call.events_tidy event isEvent).upright stamp

/-- The exit is told in characters alone. -/
theorem isPlain_exitEvent (stamp : String) : (exitEvent.entry stamp).isPlain = true := by
  have spelled : exitEvent.entry stamp =
      ⟨"app_exit", [("ts", .text stamp), ("level", .text "INFO"), ("logger", .text "root")], []⟩ :=
    rfl
  rw [Entry.isPlain_iff, spelled]
  simp [Entry.lines, isPlain_fieldText]

/-- A run has no entries, or that of its start, others behind it, and that of its exit. -/
theorem Call.entries_cases (call : Call) :
    call.entries = [] ∨
      ∃ entry rest stamp, call.entries = entry :: (rest ++ [exitEvent.entry stamp]) := by
  cases started : App.start call.around (call.clock 0) call.disk call.argv with
  | «over» closing =>
      left
      rw [Call.entries, Call.events, started]
      rfl
  | ready launch =>
      right
      rw [Call.entries, Call.events_of_ready started, Clock.stamped, stamped_append, entriesOf,
        List.map_cons, List.map_append]
      exact ⟨_, _, _, rfl⟩

theorem Call.closed_entries (call : Call) :
    ∀ entry ∈ call.entries.getLast?, entry.isPlain = true := by
  rcases call.entries_cases with nothing | ⟨first, rest, stamp, spelled⟩
  · rw [nothing]
    rintro entry ⟨⟩
  · rw [spelled, List.getLast?_cons, List.getLast?_append]
    rintro entry ⟨⟩
    exact isPlain_exitEvent stamp

/-! ### The log of one run -/

/-- A run that is to log and comes to nothing leaves the bytes of every file; one that is under
way has logged its start to the file as it was. -/
theorem launch_cases (stamp : String) (disk : Disk) {arguments : Arguments}
    {location : Location} (isLog : arguments.logFile = some location)
    (settled : Path.Settled location.names) :
    (∃ closing, launch stamp disk arguments = .over closing ∧
      closing.disk.bytesAt location = disk.bytesAt location) ∨
    ∃ opening : Launch,
      launch stamp disk arguments =
        .ready (opening.note stamp (startEvent opening.arguments opening.catalog)) ∧
      Log.WritesTo location false (disk.bytesAt location) opening.disk opening.log := by
  have place : (⟨location.route.settled.names⟩ : Location) = location := by
    rw [Route.settled, Location.route, Path.settle_eq_self settled]
  have same := Log.bytesAt_openFile disk location.route location
  rw [launch, isLog, openLog]
  split
  next opened isOpen =>
    rw [isOpen] at same
    exact .inl ⟨_, rfl, same⟩
  next opened reason path isOpen =>
    rw [isOpen] at same
    exact .inl ⟨_, rfl, same⟩
  next opened log isOpen =>
    have writes := Log.writesTo_of_openFile isOpen
    rw [place] at writes
    rw [isOpen] at same
    split
    next => exact .inl ⟨_, rfl, same⟩
    next => exact .inl ⟨_, rfl, same⟩
    next catalog _ =>
      let screen : Screen := { painter := { enabled := arguments.color } }
      exact .inr ⟨{ arguments, screen, catalog, disk := opened, log }, rfl, writes⟩

/-- What a run under way leaves: all its events are in the log. -/
theorem disk_run {around : Surroundings} {clock : Clock} {disk : Disk} {argv : List Text}
    {launch : Launch} (started : start around (clock 0) disk argv = .ready launch)
    (script : List PromptOutcome) :
    (run around clock disk argv script).closing.disk =
      (launch.noteAll clock 1 (launch.served script ++ [exitEvent])).disk := by
  rw [Launch.noteAll_append, run, started, Launch.served]
  dsimp only
  cases launch.arguments.query <;> rfl

/-- A run adds the text of its entries to its log. -/
theorem Call.bytesAt_left {call : Call} {location : Location} (logs : call.LogsTo location) :
    ∃ added, Text.Utf8.encode? (Entry.chronicle true call.entries) = some added ∧
      call.left.bytesAt location = call.disk.bytesAt location ++ added := by
  obtain ⟨arguments, read, isLog⟩ := logs
  have settled := readArguments_settled read location isLog
  have starts : start call.around (call.clock 0) call.disk call.argv =
      launch (call.clock 0) call.disk arguments := by
    rw [start, read]
  rcases launch_cases (call.clock 0) call.disk isLog settled with
    ⟨closing, failed, same⟩ | ⟨opening, ready, writes⟩
  · -- A run that cannot be started logs nothing.
    have nothing : call.entries = [] := by
      rw [Call.entries, Call.events, starts, failed]
      rfl
    rw [nothing, Call.left, run, starts, failed, same]
    exact ⟨[], rfl, (List.append_nil _).symm⟩
  · have ordinary : ∀ pair ∈ call.clock.stamped 0 call.events, pair.2.level = infoLevel :=
      fun pair isPair => (call.events_tidy _ (snd_mem_of_mem_stamped isPair)).ordinary
    -- The start is noted as the first of all events, by the first reading of the clock.
    have noted : opening.noteAll call.clock 0 call.events =
        (opening.note (call.clock 0) (startEvent opening.arguments opening.catalog)).noteAll
          call.clock 1 (opening.served call.script ++ [exitEvent]) := by
      rw [Call.events_of_ready (starts.trans ready)]
      rfl
    obtain ⟨added, encoded, written⟩ := writes.writeAll ordinary
    refine ⟨added, encoded, ?_⟩
    rw [Call.left, disk_run (starts.trans ready), Launch.served_note, ← noted,
      Launch.disk_noteAll]
    exact Disk.bytesAt_of_get? written

/-! ### One run after another -/

/-- A run that finds the file at a place as another has left it. -/
def Call.Precedes (location : Location) (call next : Call) : Prop :=
  next.disk.bytesAt location = call.left.bytesAt location

/-- Runs that follow each other add the texts of their entries one behind the other. -/
theorem Call.bytesAt_last {location : Location} {calls : List Call}
    (logs : ∀ call ∈ calls, call.LogsTo location)
    (inTurn : calls.IsChain (Call.Precedes location)) {first last : Call}
    (isFirst : calls.head? = some first) (isLast : calls.getLast? = some last) :
    ∃ added,
      Text.Utf8.encode?
        (Text.concat ((calls.map Call.entries).map (Entry.chronicle true))) = some added ∧
      last.left.bytesAt location = first.disk.bytesAt location ++ added := by
  induction calls generalizing first with
  | nil => cases isFirst
  | cons call rest inductionHypothesis =>
      cases isFirst
      obtain ⟨logsFirst, logsRest⟩ := List.forall_mem_cons.mp logs
      obtain ⟨front, isFront, added⟩ := Call.bytesAt_left logsFirst
      rw [List.map_cons, List.map_cons, Text.concat]
      cases rest with
      | nil =>
          cases isLast
          refine ⟨front, ?_, added⟩
          rw [List.map_nil, List.map_nil, Text.concat, Text.append_empty, isFront]
      | cons next more =>
          obtain ⟨follows, inTurn⟩ := List.isChain_cons_cons.mp inTurn
          rw [List.getLast?_cons_cons] at isLast
          obtain ⟨behind, isBehind, later⟩ := inductionHypothesis logsRest inTurn rfl isLast
          refine ⟨front ++ behind, Text.Utf8.encode?_append isFront isBehind, ?_⟩
          rw [later, follows, added, List.append_assoc]

/-- The text that runs leave in a log which was empty before them, by its lines and by its blocks
between blank lines: those of the runs, run together where they meet. -/
theorem Call.exists_text_blocks {location : Location} {calls : List Call}
    (logs : ∀ call ∈ calls, call.LogsTo location)
    (inTurn : calls.IsChain (Call.Precedes location)) {first last : Call}
    (isFirst : calls.head? = some first) (isLast : calls.getLast? = some last)
    (fresh : first.disk.bytesAt location = []) :
    let blocks := Journal.allTogether (calls.map Call.blocks)
    ∃ text : String, last.left.bytesAt location = Text.Utf8.encode text ∧
      (text : Text) = Text.concat ((Journal.gap.intercalate blocks).map (· ++ "\n")) ∧
      Text.linesOf text = Journal.gap.intercalate blocks ∧ Text.blocks text = blocks := by
  intro blocks
  have spelled : (calls.map Call.entries).map Entry.blocks = calls.map Call.blocks :=
    List.map_map
  have upright : ∀ entries ∈ calls.map Call.entries, ∀ entry ∈ entries,
      Journal.Upright entry.lines := by
    intro entries areEntries
    obtain ⟨call, -, rfl⟩ := List.mem_map.mp areEntries
    exact call.upright_entries
  have closed : ∀ entries ∈ calls.map Call.entries, ∀ entry ∈ entries.getLast?,
      entry.isPlain = true := by
    intro entries areEntries
    obtain ⟨call, -, rfl⟩ := List.mem_map.mp areEntries
    exact call.closed_entries
  obtain ⟨added, encoded, written⟩ := Call.bytesAt_last logs inTurn isFirst isLast
  obtain ⟨text, isText, rfl⟩ := Text.Utf8.encode?_eq_some_iff.mp encoded
  rw [fresh, List.nil_append] at written
  refine ⟨text, written, ?_, ?_, ?_⟩
  · rw [← isText, Journal.concat_chronicles, spelled]
  · rw [← isText, Journal.linesOf_chronicles upright, spelled]
  · rw [← isText, Journal.blocks_chronicles upright closed, spelled]

/-- The runs that have logged anything. -/
def Call.logged (calls : List Call) : List Call := calls.filter fun call => !call.entries.isEmpty

/-- The entries of a run that have bytes. -/
def Call.kept (call : Call) : List Entry := Entry.kept call.entries

theorem Call.written_blocks (calls : List Call) :
    Journal.written (calls.map Call.blocks) = (Call.logged calls).map Call.blocks := by
  rw [Journal.written, Call.logged, List.filter_map]
  congr 2
  funext call
  rw [Function.comp_apply, Call.blocks]
  cases call.entries <;> rfl

theorem Call.goesOn_blocks {calls : List Call} :
    ∀ chapter ∈ (Call.logged calls).map Call.blocks, Journal.GoesOn chapter := by
  intro chapter isChapter
  obtain ⟨call, isLogged, rfl⟩ := List.mem_map.mp isChapter
  rcases call.entries_cases with nothing | ⟨first, rest, stamp, spelled⟩
  · have isSome := (List.mem_filter.mp isLogged).2
    rw [nothing] at isSome
    cases isSome
  · rw [Call.blocks, spelled]
    exact Journal.goesOn_blocks (List.mem_append_right _ (.head _)) (isPlain_exitEvent stamp)

theorem Call.written_flatten (calls : List Call) :
    Journal.written (calls.map Call.blocks).flatten =
      (calls.flatMap Call.kept).map Entry.lines := by
  rw [Journal.written, List.filter_flatten, List.flatMap_def, List.map_flatten, List.map_map,
    List.map_map]
  congr 2
  funext call
  exact Journal.written_blocks call.entries

/-- Run together, the blocks are the entries with bytes exactly if the runs are set off. -/
theorem Call.allTogether_eq_kept_iff (calls : List Call) :
    Journal.allTogether (calls.map Call.blocks) = (calls.flatMap Call.kept).map Entry.lines ↔
      Journal.SetOff ((Call.logged calls).map Call.blocks) := by
  rw [← Call.written_flatten, ← Journal.allTogether_eq_written_iff Call.goesOn_blocks,
    ← Call.written_blocks, Journal.allTogether_written, Journal.flatten_written]

/-- Where the start of each run has bytes, runs are set off only if no more than one of them
has logged anything. -/
theorem Call.setOff_iff {calls : List Call}
    (told : ∀ call ∈ calls, ∀ entry ∈ call.entries.head?, entry.isPlain = true) :
    Journal.SetOff ((Call.logged calls).map Call.blocks) ↔ (Call.logged calls).length ≤ 1 := by
  have filled : ∀ chapter ∈ (Call.logged calls).map Call.blocks,
      Journal.opensBlank chapter = false := by
    intro chapter isChapter
    obtain ⟨call, isLogged, rfl⟩ := List.mem_map.mp isChapter
    have plain := told call (List.mem_filter.mp isLogged).1
    rcases call.entries_cases with nothing | ⟨first, rest, stamp, spelled⟩
    · rw [Call.blocks, nothing]
      rfl
    · rw [spelled] at plain
      rw [Call.blocks, spelled, Journal.opensBlank_blocks, plain first rfl]
      rfl
  rw [Journal.setOff_iff_of_filled filled, List.length_map]

/-- Run together, the blocks are the entries of all runs exactly if every entry has bytes and no
more than one run has logged anything. -/
theorem Call.allTogether_eq_entries_iff (calls : List Call) :
    Journal.allTogether (calls.map Call.blocks) = (calls.flatMap Call.entries).map Entry.lines ↔
      (∀ call ∈ calls, ∀ entry ∈ call.entries, entry.isPlain = true) ∧
        (Call.logged calls).length ≤ 1 := by
  have kept : calls.flatMap Call.kept = Entry.kept (calls.flatMap Call.entries) :=
    List.filter_flatMap.symm
  have whenPlain (plain : ∀ call ∈ calls, ∀ entry ∈ call.entries, entry.isPlain = true) :
      Journal.allTogether (calls.map Call.blocks) = (calls.flatMap Call.entries).map Entry.lines ↔
        (Call.logged calls).length ≤ 1 := by
    have all : Entry.kept (calls.flatMap Call.entries) = calls.flatMap Call.entries := by
      apply List.filter_eq_self.mpr
      intro entry isEntry
      obtain ⟨call, isCall, isEntry⟩ := List.mem_flatMap.mp isEntry
      exact plain call isCall entry isEntry
    have apart := Call.allTogether_eq_kept_iff calls
    rw [kept, all] at apart
    exact apart.trans (Call.setOff_iff fun call isCall entry isFirst =>
      plain call isCall entry (List.mem_of_mem_head? isFirst))
  constructor
  · intro same
    -- Without the gaps, the blocks are the lines of the entries that have bytes.
    have flat := congrArg List.flatten same
    rw [Journal.flatten_allTogether, ← Journal.flatten_written (calls.map Call.blocks).flatten,
      Call.written_flatten, kept, ← List.flatMap_def, ← List.flatMap_def] at flat
    have plain : ∀ call ∈ calls, ∀ entry ∈ call.entries, entry.isPlain = true :=
      fun call isCall entry isEntry => Entry.forall_isPlain_of_flatMap flat entry
        (List.mem_flatMap.mpr ⟨call, isCall, isEntry⟩)
    exact ⟨plain, (whenPlain plain).mp same⟩
  · rintro ⟨plain, alone⟩
    exact (whenPlain plain).mpr alone

end App

/-- The text that runs leave in one log which was empty before them, by its blocks between
blank lines: the entries of each run are blocks of their own, as far as they have bytes, except
that the last entry of a run and the first of the next are one.  So the blocks are the entries
of all runs exactly if every entry has bytes and no more than one run has logged anything; and
they are the entries that have bytes exactly if the runs are set off, which takes a start that
has none in every run that logs behind another. -/
theorem blocks_of_runs {location : Location} {calls : List App.Call}
    (logs : ∀ call ∈ calls, call.LogsTo location)
    (inTurn : calls.IsChain (App.Call.Precedes location)) {first last : App.Call}
    (isFirst : calls.head? = some first) (isLast : calls.getLast? = some last)
    (fresh : first.disk.bytesAt location = []) :
    ∃ text : String, Text.Utf8.decode (last.left.bytesAt location) = .ok text ∧
      Text.blocks text = Journal.allTogether (calls.map App.Call.blocks) ∧
      (Text.blocks text = (calls.flatMap App.Call.entries).map Entry.lines ↔
        (∀ call ∈ calls, ∀ entry ∈ call.entries, entry.isPlain = true) ∧
          (App.Call.logged calls).length ≤ 1) ∧
      (Text.blocks text = (calls.flatMap App.Call.kept).map Entry.lines ↔
        Journal.SetOff ((App.Call.logged calls).map App.Call.blocks)) := by
  obtain ⟨text, written, -, -, blocks⟩ :=
    App.Call.exists_text_blocks logs inTurn isFirst isLast fresh
  have decoded := (congrArg Text.Utf8.decode written).trans (Text.Utf8.decode_encode text)
  have whole := App.Call.allTogether_eq_entries_iff calls
  have apart := App.Call.allTogether_eq_kept_iff calls
  rw [← blocks] at whole apart
  exact ⟨text, decoded, blocks, whole, apart⟩

/-! ### Two idle sessions -/

namespace App.Call

/-- A session that is left at once, told to log to one file. -/
def idle (disk : Disk) : Call :=
  ⟨{ home := "/home", appRoot := "/app" }, fun _ => "noon", disk, ["--log", "/l"], []⟩

/-- The first of two such sessions, on an empty tree. -/
def earlier : Call := idle {}

/-- The second, on the tree that the first leaves. -/
def later : Call := idle earlier.left

theorem idle_logsTo (disk : Disk) : (idle disk).LogsTo ⟨["l"]⟩ := by
  have read : readArguments { home := "/home", appRoot := "/app" } ["--log", "/l"] =
      .ok (.run { logFile := some ⟨["l"]⟩ }) := by decide +kernel
  exact ⟨_, read, rfl⟩

theorem idle_pair_logsTo : ∀ call ∈ [earlier, later], call.LogsTo ⟨["l"]⟩ := by
  rw [List.forall_mem_cons, List.forall_mem_singleton]
  exact ⟨idle_logsTo _, idle_logsTo _⟩

theorem idle_pair_inTurn : [earlier, later].IsChain (Precedes ⟨["l"]⟩) :=
  List.isChain_cons_cons.mpr ⟨rfl, .singleton _⟩

end App.Call

theorem blocks_of_runs_idle :
    (∀ call ∈ [App.Call.earlier, App.Call.later], call.LogsTo ⟨["l"]⟩) ∧
      [App.Call.earlier, App.Call.later].IsChain (App.Call.Precedes ⟨["l"]⟩) ∧
      App.Call.earlier.disk.bytesAt ⟨["l"]⟩ = [] ∧
      ∃ text : String, Text.Utf8.decode (App.Call.later.left.bytesAt ⟨["l"]⟩) = .ok text ∧
        Text.blocks text =
          Journal.allTogether [App.Call.earlier.entries.map Entry.lines,
            App.Call.later.entries.map Entry.lines] := by
  refine ⟨App.Call.idle_pair_logsTo, App.Call.idle_pair_inTurn, rfl, ?_⟩
  obtain ⟨text, decoded, blocks, -, -⟩ := blocks_of_runs App.Call.idle_pair_logsTo
    App.Call.idle_pair_inTurn rfl rfl rfl
  exact ⟨text, decoded, blocks⟩

/-- Two runs, one after the other, leave a log whose blocks are not their entries. -/
theorem blocks_ne_entries :
    (∀ call ∈ [App.Call.earlier, App.Call.later], call.LogsTo ⟨["l"]⟩) ∧
      App.Call.earlier.disk.get? ⟨["l"]⟩ = none ∧ App.Call.later.disk = App.Call.earlier.left ∧
      ∃ text : String, Text.Utf8.decode (App.Call.later.left.bytesAt ⟨["l"]⟩) = .ok text ∧
        Text.blocks text ≠
          (App.Call.earlier.entries ++ App.Call.later.entries).map Entry.lines := by
  refine ⟨App.Call.idle_pair_logsTo, rfl, rfl, ?_⟩
  obtain ⟨text, written, -, -, blocks⟩ := App.Call.exists_text_blocks App.Call.idle_pair_logsTo
    App.Call.idle_pair_inTurn rfl rfl rfl
  refine ⟨text, (congrArg Text.Utf8.decode written).trans (Text.Utf8.decode_encode text), ?_⟩
  intro same
  -- Both sessions have logged something.
  have alone := ((App.Call.allTogether_eq_entries_iff [App.Call.earlier, App.Call.later]).mp
    (blocks.symm.trans same)).2
  exact absurd alone (by decide)

end ShellGloss
