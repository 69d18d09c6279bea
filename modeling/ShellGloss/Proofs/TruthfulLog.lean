/-
Module: ShellGloss.Proofs.TruthfulLog
Purpose: The log of one run, line by line: the start, two entries for each query that is
  explained, and the exit, whatever the queries hold and however the run ends.
Imports: ShellGloss.Proofs.EventMessage, ShellGloss.Proofs.RunJournal,
  ShellGloss.Proofs.SessionScript
Main exports:
  Journal.oneLine, Journal.block, Journal.startBlock, Journal.sessionBlocks,
  App.Launch.queries, App.Launch.told, App.Call.blocks_eq, App.Call.exists_log, log_tells_run
-/
import ShellGloss.Proofs.EventMessage
import ShellGloss.Proofs.RunJournal
import ShellGloss.Proofs.SessionScript

namespace ShellGloss

/-! ### Blocks -/

namespace Journal

/-- A text on one line: every line feed is spelled out, and nothing else is changed. -/
def oneLine (text : Text) : Text :=
  Text.ofList (text.toList.flatMap fun c => if c = .char '\n' then ['\\', 'n'] else [c])

/-- The lines of an entry: its title, the time, the level and the logger, and then one for each
field of its own. -/
def block (stamp : String) (title : Text) (fields : List (Text × Text)) : List Text :=
  ["=== " ++ title ++ " ===", "ts: " ++ oneLine stamp, "level: INFO", "logger: root"] ++
    fields.map fun (name, text) => name ++ ": " ++ oneLine text

/-- What the log calls the catalog of a run. -/
def sourceName (arguments : Arguments) : Text :=
  match arguments.catalogFile with
  | some location => plainPath location.text
  | none => "builtin"

/-- The lines on the start of a run. -/
def startBlock (stamp : String) (arguments : Arguments) (catalog : Catalog) : List Text :=
  block stamp "app_start"
    [("color", if arguments.color then "True" else "False"),
      ("commands", toString catalog.commands.length), ("knowledge", sourceName arguments),
      ("mode", if arguments.query.isSome then "query" else "interactive")]

/-- The lines on a query: that it was asked for, and how it went.  The clock is read for each. -/
def queryBlocks (clock : Clock) (readings : Nat) (catalog : Catalog) (query : Text) :
    List (List Text) :=
  [block (clock readings) "explain_request" [("query", query)],
    match parse catalog query with
    | none => block (clock (readings + 1)) "parse_failed" [("query", query)]
    | some groups =>
        block (clock (readings + 1)) "explain_rendered"
          [("nodes", toString groups.flatten.length), ("query", query),
            ("units", toString groups.length)]]

/-- The lines on one query after another.  A query that has no bytes leaves none behind. -/
def sessionBlocks (clock : Clock) (readings : Nat) (catalog : Catalog) :
    List Text → List (List Text)
  | [] => []
  | query :: rest =>
      (if query.isPlain then queryBlocks clock readings catalog query else []) ++
        sessionBlocks clock (readings + 2) catalog rest

/-- The lines on the exit of a run. -/
def exitBlock (stamp : String) : List Text := block stamp "app_exit" []

theorem isPlain_oneLine (text : Text) : (oneLine text).isPlain = text.isPlain :=
  isPlain_fieldText (.text text)

end Journal

/-- An entry has bytes exactly if its title and its own fields have. -/
theorem Entry.isPlain_of_lines {entry : Entry} {stamp : String} {title : Text}
    {fields : List (Text × Text)} (lines : entry.lines = Journal.block stamp title fields) :
    entry.isPlain =
      (title.isPlain && fields.all fun field => field.1.isPlain && field.2.isPlain) := by
  have ofField (field : Text × Text) : (field.1 ++ ": " ++ Journal.oneLine field.2).isPlain =
      (field.1.isPlain && field.2.isPlain) := by
    simp [Journal.isPlain_oneLine]
  rw [Bool.eq_iff_iff, Entry.isPlain_iff, lines, Journal.block, List.forall_mem_append,
    List.forall_mem_map]
  simp [Journal.isPlain_oneLine, ofField]

/-- The lines of a clear event at the ordinary level. -/
theorem Event.Clear.lines_entry {event : Event} (clear : event.Clear)
    (ordinary : event.level = infoLevel) (stamp : String) :
    (event.entry stamp).lines =
      Journal.block stamp event.name
        ((sortBy precedes event.told).map fun field => (field.1, field.2.display)) := by
  have stamped : "ts" ++ ": " ++ fieldText (.text stamp) = "ts: " ++ Journal.oneLine stamp := rfl
  have level : "level" ++ ": " ++ fieldText (.text (levelName infoLevel)) = "level: INFO" := by
    decide
  have logger : "logger" ++ ": " ++ fieldText (.text "root") = "logger: root" := by decide
  rw [clear.entry_eq stamp, ordinary, Entry.lines, List.append_nil, List.map_append,
    Journal.block, List.map_map]
  simp only [leadingFields, List.map_cons, List.map_nil, stamped, level, logger]
  rfl

/-- An event whose entry has bytes is told in characters alone. -/
theorem Event.Clear.plain_of_isPlain {event : Event} (clear : event.Clear)
    (ordinary : event.level = infoLevel) {stamp : String}
    (hasBytes : (event.entry stamp).isPlain = true) : event.Plain := by
  rw [Entry.isPlain_of_lines (clear.lines_entry ordinary stamp), Bool.and_eq_true,
    List.all_map, List.all_eq_true] at hasBytes
  refine ⟨hasBytes.1, ?_⟩
  intro field isField
  have sorted := (perm_sortBy precedes event.told).mem_iff.mpr isField
  exact Bool.and_eq_true_iff.mp (hasBytes.2 field sorted)

/-! ### The events of a run -/

namespace App

theorem startEvent_clear (arguments : Arguments) (catalog : Catalog) :
    (startEvent arguments catalog).Clear := by
  constructor
  · simp only [startEvent, List.map_cons, List.map_nil]
    decide
  · cases isFile : arguments.catalogFile with
    | none => simp [startEvent, isFile, Datum.Simple]
    | some location => simp [startEvent, isFile, Datum.Simple]

theorem told_startEvent (arguments : Arguments) (catalog : Catalog) :
    (startEvent arguments catalog).told =
      ([("mode", .text (if arguments.query.isSome then "query" else "interactive")),
        ("knowledge", .text (Journal.sourceName arguments)),
        ("commands", .int catalog.commands.length),
        ("color", .bool arguments.color)] : Json.Members) := by
  cases isFile : arguments.catalogFile with
  | none => simp [Event.told, startEvent, Journal.sourceName, isFile, Datum.toJson]
  | some location => simp [Event.told, startEvent, Journal.sourceName, isFile, Datum.toJson]

theorem lines_startEvent (stamp : String) (arguments : Arguments) (catalog : Catalog) :
    ((startEvent arguments catalog).entry stamp).lines =
      Journal.startBlock stamp arguments catalog := by
  have colour : (Json.bool arguments.color).display =
      if arguments.color then ("True" : Text) else "False" := by
    cases arguments.color <;> rfl
  have goUp : (["color", "commands", "knowledge", "mode"] : List Text).Pairwise (· < ·) := by
    decide
  have ordered : sortBy precedes (startEvent arguments catalog).told =
      (startEvent arguments catalog).told.reverse := by
    apply sortBy_precedes_eq (List.reverse_perm _)
    rw [told_startEvent]
    exact goUp
  rw [(startEvent_clear arguments catalog).lines_entry rfl, ordered, told_startEvent,
    Journal.startBlock, ← colour]
  rfl

/-- The start is told in characters alone if the name of the catalog's file is. -/
theorem isPlain_startEvent (stamp : String) (arguments : Arguments) (catalog : Catalog) :
    ((startEvent arguments catalog).entry stamp).isPlain =
      (Journal.sourceName arguments).isPlain := by
  rw [Entry.isPlain_of_lines (lines_startEvent stamp arguments catalog)]
  cases arguments.color <;> cases arguments.query <;> simp

theorem exitEvent_clear : exitEvent.Clear := by
  refine ⟨?_, by simp [exitEvent]⟩
  simp only [exitEvent, List.map_nil]
  decide

theorem lines_exitEvent (stamp : String) :
    (exitEvent.entry stamp).lines = Journal.exitBlock stamp := by
  rw [exitEvent_clear.lines_entry rfl]
  rfl

end App

/-- An event that tells no more than a query. -/
def queryEvent (title query : Text) : Event :=
  { name := title, fields := [("query", .text query)] }

theorem queryEvent_clear (title query : Text) : (queryEvent title query).Clear := by
  refine ⟨?_, by simp [queryEvent, Datum.Simple]⟩
  simp only [queryEvent, List.map_cons, List.map_nil]
  decide

theorem lines_queryEvent (stamp : String) (title query : Text) :
    ((queryEvent title query).entry stamp).lines =
      Journal.block stamp title [("query", query)] := by
  have told : (queryEvent title query).told = ([("query", .text query)] : Json.Members) := by
    simp [Event.told, queryEvent, Datum.toJson]
  rw [(queryEvent_clear title query).lines_entry rfl, told]
  rfl

theorem isPlain_queryEvent (stamp title : String) (query : Text) :
    ((queryEvent title query).entry stamp).isPlain = query.isPlain := by
  rw [Entry.isPlain_of_lines (lines_queryEvent stamp title query)]
  simp

/-- An event that tells a query and two counts. -/
def countsEvent (query : Text) (units nodes : Nat) : Event :=
  { name := "explain_rendered"
    fields := [("query", .text query), ("units", .int units), ("nodes", .int nodes)] }

theorem countsEvent_clear (query : Text) (units nodes : Nat) :
    (countsEvent query units nodes).Clear := by
  refine ⟨?_, by simp [countsEvent, Datum.Simple]⟩
  simp only [countsEvent, List.map_cons, List.map_nil]
  decide

theorem lines_countsEvent (stamp : String) (query : Text) (units nodes : Nat) :
    ((countsEvent query units nodes).entry stamp).lines =
      Journal.block stamp "explain_rendered"
        [("nodes", toString nodes), ("query", query), ("units", toString units)] := by
  have told : (countsEvent query units nodes).told =
      ([("query", .text query), ("units", .int units), ("nodes", .int nodes)] :
        Json.Members) := by
    simp [Event.told, countsEvent, Datum.toJson]
  have goUp : (["nodes", "query", "units"] : List Text).Pairwise (· < ·) := by decide
  have ordered : sortBy precedes (countsEvent query units nodes).told =
      ([("nodes", .int nodes), ("query", .text query), ("units", .int units)] :
        Json.Members) := by
    rw [told]
    exact sortBy_precedes_eq (List.perm_append_singleton _ _).symm goUp
  rw [(countsEvent_clear query units nodes).lines_entry rfl, ordered]
  rfl

theorem isPlain_countsEvent (stamp : String) (query : Text) (units nodes : Nat) :
    ((countsEvent query units nodes).entry stamp).isPlain = query.isPlain := by
  rw [Entry.isPlain_of_lines (lines_countsEvent stamp query units nodes)]
  simp

theorem queryEvents_clear (query : Text) (groups : Option (List (List Node))) :
    ∀ event ∈ queryEvents query groups, event.Clear := by
  cases groups with
  | none =>
      rw [queryEvents, List.forall_mem_cons, List.forall_mem_singleton]
      exact ⟨queryEvent_clear _ query, queryEvent_clear _ query⟩
  | some groups =>
      rw [queryEvents, List.forall_mem_cons, List.forall_mem_singleton]
      exact ⟨queryEvent_clear _ query, countsEvent_clear query _ _⟩

/-- The entries on a query are both kept, or both dropped. -/
theorem kept_queryEvents (clock : Clock) (readings : Nat) (catalog : Catalog) (query : Text) :
    (Entry.kept (entriesOf
        (clock.stamped readings (queryEvents query (parse catalog query))))).map Entry.lines =
      if query.isPlain then Journal.queryBlocks clock readings catalog query else [] := by
  have pair {one two : Entry} (first : one.isPlain = query.isPlain)
      (second : two.isPlain = query.isPlain) :
      (Entry.kept [one, two]).map Entry.lines =
        if query.isPlain then [one.lines, two.lines] else [] := by
    rw [Entry.kept_cons, Entry.kept_cons, first, second]
    split <;> rfl
  rw [Journal.queryBlocks, ← lines_queryEvent]
  cases parse catalog query with
  | none =>
      dsimp only
      rw [← lines_queryEvent]
      exact pair (isPlain_queryEvent _ _ query) (isPlain_queryEvent _ _ query)
  | some groups =>
      dsimp only
      rw [← lines_countsEvent]
      exact pair (isPlain_queryEvent _ _ query) (isPlain_countsEvent _ query _ _)

/-! ### The run -/

namespace App

/-- The queries that a run explains: the one it is given, or those of its session. -/
def Launch.queries (launch : Launch) (script : List PromptOutcome) : List Text :=
  match launch.arguments.query with
  | some query => [Text.trim query]
  | none => (Session.heeded script).filterMap Session.query?

/-- The failure that a run ends in. -/
def Launch.failure? (launch : Launch) (script : List PromptOutcome) : Option Failure :=
  match launch.arguments.query with
  | some _ => none
  | none => (Session.stop script).failure?

theorem events_explain (screen : Screen) (catalog : Catalog) (query : Text) :
    (explain screen catalog query).events = queryEvents query (parse catalog query) := rfl

theorem Launch.served_eq (launch : Launch) (script : List PromptOutcome) :
    launch.served script =
      (launch.queries script).flatMap fun query =>
        queryEvents query (parse launch.catalog query) := by
  rw [Launch.served, Launch.queries]
  cases launch.arguments.query with
  | some query =>
      dsimp only
      rw [events_explain, List.flatMap_singleton]
  | none =>
      dsimp only
      rw [Session.run, Session.events_runFrom, Session.queries_eq]
      simp only [events_explain]

/-- A run that is under way ends with a status, which depends on the last outcome alone. -/
theorem ending_run {around : Surroundings} {clock : Clock} {disk : Disk} {argv : List Text}
    {launch : Launch} (started : start around (clock 0) disk argv = .ready launch)
    (script : List PromptOutcome) :
    (run around clock disk argv script).closing.ending =
      .exit (farewell (launch.failure? script)).2 := by
  have ended := Session.ending_runFrom launch.screen launch.catalog launch.screen.bannerText script
  rw [Session.ending_eq] at ended
  have failure : (Session.run launch.screen launch.catalog script).failure =
      (Session.stop script).failure? := congrArg Prod.fst ended
  rw [run, started, Launch.failure?, ← failure]
  dsimp only
  cases launch.arguments.query <;> rfl

/-- The entries that are kept on one query after another. -/
theorem kept_queries (clock : Clock) (readings : Nat) (catalog : Catalog) (queries : List Text) :
    (Entry.kept (entriesOf (clock.stamped readings
        (queries.flatMap fun query => queryEvents query (parse catalog query))))).map Entry.lines =
      Journal.sessionBlocks clock readings catalog queries := by
  induction queries generalizing readings with
  | nil => rfl
  | cons query rest inductionHypothesis =>
      have two : (queryEvents query (parse catalog query)).length = 2 := rfl
      rw [List.flatMap_cons, stamped_append, two, entriesOf, List.map_append, ← entriesOf,
        ← entriesOf, Entry.kept_append, List.map_append, kept_queryEvents, inductionHypothesis,
        Journal.sessionBlocks]

/-- The blocks that a run under way leaves in its log: those on its start, on its queries and on
its exit.  A start that has no bytes leaves one of no lines. -/
def Launch.told (launch : Launch) (clock : Clock) (script : List PromptOutcome) :
    List (List Text) :=
  (if (Journal.sourceName launch.arguments).isPlain then
      Journal.startBlock (clock 0) launch.arguments launch.catalog else []) ::
    (Journal.sessionBlocks clock 1 launch.catalog (launch.queries script) ++
      [Journal.exitBlock (clock (1 + 2 * (launch.queries script).length))])

theorem length_queryEvents (catalog : Catalog) (queries : List Text) :
    (queries.flatMap fun query => queryEvents query (parse catalog query)).length =
      2 * queries.length := by
  induction queries with
  | nil => rfl
  | cons query rest inductionHypothesis =>
      have two : (queryEvents query (parse catalog query)).length = 2 := rfl
      rw [List.flatMap_cons, List.length_append, inductionHypothesis, two, List.length_cons]
      omega

namespace Call

theorem blocks_eq {call : Call} {launch : Launch}
    (started : App.start call.around (call.clock 0) call.disk call.argv = .ready launch) :
    call.blocks = launch.told call.clock call.script := by
  have exit (stamp : String) : (Entry.kept [exitEvent.entry stamp]).map Entry.lines =
      [Journal.exitBlock stamp] := by
    rw [Entry.kept_cons, isPlain_exitEvent, if_pos rfl, List.map_cons, lines_exitEvent]
    rfl
  rw [blocks, entries, events_of_ready started, Launch.served_eq, Clock.stamped, stamped_append,
    length_queryEvents, entriesOf, List.map_cons, List.map_append, ← entriesOf, Entry.blocks,
    Entry.kept_append, List.map_append, kept_queries, isPlain_startEvent, lines_startEvent]
  exact congrArg (fun closing => _ :: (_ ++ closing)) (exit _)

/-- Every event of a run is clear. -/
theorem events_clear (call : Call) : ∀ event ∈ call.events, event.Clear := by
  cases started : App.start call.around (call.clock 0) call.disk call.argv with
  | «over» closing =>
      rw [Call.events, started]
      intro event isEvent
      cases isEvent
  | ready launch =>
      rw [events_of_ready started, Launch.served_eq, List.forall_mem_cons,
        List.forall_mem_append, List.forall_mem_singleton]
      refine ⟨startEvent_clear _ _, ?_, exitEvent_clear⟩
      intro event isEvent
      obtain ⟨query, -, isEvent⟩ := List.mem_flatMap.mp isEvent
      exact queryEvents_clear query _ event isEvent

/-- The fields of each entry of a run have the leading names, and then others in order. -/
theorem names_entries (call : Call) :
    ∀ entry ∈ call.entries, ∃ own,
      entry.fields.map (·.1) = leadingNames ++ own ∧ own.Pairwise (· < ·) := by
  intro entry isEntry
  obtain ⟨stamp, event, isEvent, rfl⟩ := exists_event isEntry
  have clear := call.events_clear event isEvent
  refine ⟨_, ?_, clear.pairwise_told⟩
  rw [clear.entry_eq, List.map_append]
  rfl

/-- An entry of a run that has bytes is read from the message which its event is handed on as. -/
theorem entry_record {call : Call} {event : Event} (isEvent : event ∈ call.events)
    (countable : event.Countable) {stamp : String}
    (hasBytes : (event.entry stamp).isPlain = true) :
    (event.record stamp).entry = .ok (event.entry stamp) := by
  have clear := call.events_clear event isEvent
  have plain := clear.plain_of_isPlain (call.events_tidy event isEvent).ordinary hasBytes
  exact clear.entry_record plain countable stamp

/-- The text that a run leaves in a log which was empty before it, by its lines and by its
blocks. -/
theorem exists_log {call : Call} {location : Location} {launch : Launch}
    (logs : call.LogsTo location) (fresh : call.disk.bytesAt location = [])
    (started : App.start call.around (call.clock 0) call.disk call.argv = .ready launch) :
    ∃ text : String, call.left.bytesAt location = Text.Utf8.encode text ∧
      (text : Text) = Text.concat
        ((Journal.gap.intercalate (launch.told call.clock call.script)).map (· ++ "\n")) ∧
      Text.linesOf text = Journal.gap.intercalate (launch.told call.clock call.script) ∧
      Text.blocks text = launch.told call.clock call.script := by
  have alone : Journal.allTogether ([call].map blocks) =
      launch.told call.clock call.script := by
    rw [← blocks_eq started]
    exact Journal.runTogether_nil call.blocks
  rw [← alone]
  exact exists_text_blocks (List.forall_mem_singleton.mpr logs) (.singleton call) rfl rfl fresh

end Call

end App

/-- What one run leaves in a log that was empty before it.  The lines are those of the start,
of the request and the outcome of one query after another, and of the exit, with a blank line
between two blocks, each ended by a line feed; so no text that comes from outside makes a line
of its own, whatever it holds and however the run ends.  A query with half of a pair in it has
no bytes, and no entry on it is there; nor is one on the start if the name of the catalog's file
has none.  Within a block the time, the level and the logger come first and then the other
fields, ordered by their names.  Each entry is the one that is read from the message which its
event is handed on as. -/
theorem log_tells_run {call : App.Call} {location : Location} {launch : App.Launch}
    (logs : call.LogsTo location) (fresh : call.disk.bytesAt location = [])
    (started : App.start call.around (call.clock 0) call.disk call.argv = .ready launch) :
    let blocks := launch.told call.clock call.script
    let lines := Journal.gap.intercalate blocks
    (∃ text : String, call.left.bytesAt location = Text.Utf8.encode text ∧
      (text : Text) = Text.concat (lines.map (· ++ "\n")) ∧
      Text.linesOf text = lines ∧ Text.blocks text = blocks) ∧
      call.kept.map Entry.lines = Journal.written blocks ∧
      (∀ entry ∈ call.entries, ∃ own,
        entry.fields.map (·.1) = leadingNames ++ own ∧ own.Pairwise (· < ·)) ∧
      (∀ event ∈ call.events, event.Countable → ∀ stamp, (event.entry stamp).isPlain = true →
        (event.record stamp).entry = .ok (event.entry stamp)) ∧
      (App.run call.around call.clock call.disk call.argv call.script).closing.ending =
        .exit (App.farewell (launch.failure? call.script)).2 := by
  intro blocks lines
  refine ⟨App.Call.exists_log logs fresh started, ?_, call.names_entries, ?_,
    App.ending_run started call.script⟩
  · rw [App.Call.kept, ← Journal.written_blocks, ← App.Call.blocks, App.Call.blocks_eq started]
  · intro event isEvent countable stamp hasBytes
    exact App.Call.entry_record isEvent countable hasBytes

/-! ### A run that breaks off -/

namespace App.Call

/-- A session in which a line is typed that looks like the end of a log, and which breaks off
behind it.  Its clock counts how often it was read. -/
def broken : Call :=
  ⟨{ home := "/home", appRoot := "/app" }, toString, {}, ["--log", "/l"],
    [.line "ls\n\n=== app_exit ===", .failed { kind := .runtime }]⟩

theorem broken_logsTo : broken.LogsTo ⟨["l"]⟩ := idle_logsTo {}

theorem broken_started :
    ∃ launch : Launch,
      App.start broken.around (broken.clock 0) broken.disk broken.argv = .ready launch ∧
        launch.arguments = { logFile := some ⟨["l"]⟩ } ∧ launch.catalog = .bundled := by
  have read : readArguments broken.around broken.argv =
      .ok (.run { logFile := some ⟨["l"]⟩ }) := by decide +kernel
  rw [App.start, read]
  exact ⟨_, rfl, rfl, rfl⟩

end App.Call

theorem log_tells_run_broken :
    App.Call.broken.LogsTo ⟨["l"]⟩ ∧ App.Call.broken.disk.bytesAt ⟨["l"]⟩ = [] ∧
      ∃ launch, App.start App.Call.broken.around "0" App.Call.broken.disk
          App.Call.broken.argv = .ready launch ∧
        ∃ text : String, App.Call.broken.left.bytesAt ⟨["l"]⟩ = Text.Utf8.encode text ∧
          Text.blocks text =
            Journal.startBlock "0" launch.arguments .bundled ::
              (Journal.queryBlocks toString 1 .bundled "ls\n\n=== app_exit ===" ++
                [Journal.exitBlock "3"]) ∧
          (["=== explain_request ===", "ts: 1", "level: INFO", "logger: root",
            "query: ls\\n\\n=== app_exit ==="] : List Text) ∈ Text.blocks text ∧
          (App.run App.Call.broken.around App.Call.broken.clock App.Call.broken.disk
            App.Call.broken.argv App.Call.broken.script).closing.ending = .exit 1 := by
  obtain ⟨launch, started, isArguments, isBundled⟩ := App.Call.broken_started
  have asked : launch.queries App.Call.broken.script = ["ls\n\n=== app_exit ==="] := by
    rw [App.Launch.queries, isArguments]
    decide +kernel
  have failed : launch.failure? App.Call.broken.script = some { kind := .runtime } := by
    rw [App.Launch.failure?, isArguments]
    decide +kernel
  obtain ⟨⟨text, written, -, -, blocks⟩, -, -, -, ending⟩ :=
    log_tells_run App.Call.broken_logsTo rfl started
  have request : Journal.block "1" "explain_request" [("query", "ls\n\n=== app_exit ===")] =
      (["=== explain_request ===", "ts: 1", "level: INFO", "logger: root",
        "query: ls\\n\\n=== app_exit ==="] : List Text) := by decide +kernel
  have builtin : (Journal.sourceName launch.arguments).isPlain = true := by
    rw [isArguments]
    rfl
  rw [App.Launch.told, asked, builtin, isBundled, if_pos rfl] at blocks
  rw [failed] at ending
  refine ⟨App.Call.broken_logsTo, rfl, launch, started, text, written, blocks, ?_, ending⟩
  rw [blocks, ← request]
  exact .tail _ (.head _)

/-! ### A query that has no bytes -/

namespace App.Call

/-- A query that ends in half of a pair, as an argument that is no UTF-8 brings it. -/
def halfQuery : Text := .ofList ['l', 's', ' ', .half ⟨0x4FF, by decide⟩]

/-- A run that is asked about it. -/
def halved : Call :=
  ⟨{ home := "/home", appRoot := "/app" }, toString, {}, ["--log", "/l", "--query", halfQuery],
    []⟩

theorem read_halved : readArguments halved.around halved.argv =
    .ok (.run { logFile := some ⟨["l"]⟩, query := some halfQuery }) := by decide +kernel

theorem halved_logsTo : halved.LogsTo ⟨["l"]⟩ := ⟨_, read_halved, rfl⟩

theorem halved_started :
    ∃ launch : Launch,
      App.start halved.around (halved.clock 0) halved.disk halved.argv = .ready launch ∧
        launch.arguments = { logFile := some ⟨["l"]⟩, query := some halfQuery } := by
  rw [App.start, read_halved]
  exact ⟨_, rfl, rfl⟩

end App.Call

/-- Of a run that is asked about such a query, the log tells the start and the exit alone, and
not the query that is explained between them. -/
theorem log_half_ne :
    App.Call.halved.LogsTo ⟨["l"]⟩ ∧ App.Call.halved.disk.bytesAt ⟨["l"]⟩ = [] ∧
      ∃ launch, App.start App.Call.halved.around "0" App.Call.halved.disk
          App.Call.halved.argv = .ready launch ∧
        launch.queries App.Call.halved.script = [App.Call.halfQuery] ∧
        ∃ text : String, App.Call.halved.left.bytesAt ⟨["l"]⟩ = Text.Utf8.encode text ∧
          Text.blocks text =
            [Journal.startBlock "0" launch.arguments launch.catalog, Journal.exitBlock "3"] ∧
          Text.blocks text ≠
            Journal.startBlock "0" launch.arguments launch.catalog ::
              (Journal.queryBlocks toString 1 launch.catalog App.Call.halfQuery ++
                [Journal.exitBlock "3"]) := by
  obtain ⟨launch, started, isArguments⟩ := App.Call.halved_started
  have asked : launch.queries App.Call.halved.script = [App.Call.halfQuery] := by
    rw [App.Launch.queries, isArguments]
    decide +kernel
  have builtin : (Journal.sourceName launch.arguments).isPlain = true := by
    rw [isArguments]
    rfl
  have noBytes : App.Call.halfQuery.isPlain = false := rfl
  obtain ⟨text, written, -, -, blocks⟩ :=
    App.Call.exists_log App.Call.halved_logsTo rfl started
  rw [App.Launch.told, asked, builtin, if_pos rfl, Journal.sessionBlocks, noBytes] at blocks
  refine ⟨App.Call.halved_logsTo, rfl, launch, started, asked, text, written, blocks, ?_⟩
  intro complete
  have lengths := congrArg List.length (blocks.symm.trans complete)
  simp [Journal.queryBlocks, Journal.sessionBlocks] at lengths

end ShellGloss
