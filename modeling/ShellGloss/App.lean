/-
Module: ShellGloss.App
Purpose: A whole run of the program: arguments, log, catalog, the query or the
  session, and the exit.
Imports: ShellGloss.Arguments, ShellGloss.Catalog.Load, ShellGloss.Journal.Log,
  ShellGloss.Session
Main exports:
  App.installed, App.Launch, App.start, App.World, App.Launch.turn,
  App.Launch.serve, App.finish, App.enact, App.Run, App.run
-/
import ShellGloss.Arguments
import ShellGloss.Catalog.Load
import ShellGloss.Journal.Log
import ShellGloss.Session

namespace ShellGloss.App

/-- A run that is under way: what it does and what it logs to. -/
structure Launch where
  arguments : Arguments
  screen : Screen
  catalog : Catalog
  disk : Disk
  log : Log

/-- How a run ends: with an exit status, or with a breakdown. -/
inductive Ending where
  | exit (status : Nat)
  | uncaught (breakdown : Breakdown)
deriving Repr, Inhabited, DecidableEq

/-- A run that is over: the last it shows, how it ends and the files it
leaves. -/
structure Closing where
  output : Output
  ending : Ending
  disk : Disk
deriving Repr, Inhabited

/-- What comes of starting: the run is over already, or under way. -/
inductive Started where
  | over (closing : Closing)
  | ready (launch : Launch)

/-- The place of the bundled catalog's file, in the program's directory. -/
def bundledFile (around : Surroundings) : Location :=
  ⟨(Path.locate around.appRoot.toList).names.append ["data", "commands.json"]⟩

/-- A tree as the program finds it: the bundled catalog's file is in the program's
directory. -/
def installed (around : Surroundings) (disk : Disk) : Disk :=
  let file := bundledFile around
  let tree := (disk.makeDirectory file.route.parent).disk
  if (tree.get? file).isSome then tree
  else tree.put file (.file (Text.Utf8.encode (Catalog.fileText .bundled)))

/-- The log of a run, opened or silenced. -/
def openLog (disk : Disk) : Option Location → Log.Opened
  | none => ⟨disk, .ok Log.initial.silence⟩
  | some location => Log.openFile disk location.route

/-- The catalog of a run. -/
def openCatalog (disk : Disk) : Option Location → Except LoadError Catalog
  | none => .ok .bundled
  | some location => Catalog.load disk location.route

/-- The event of a start. -/
def startEvent (arguments : Arguments) (catalog : Catalog) : Event :=
  { name := "app_start"
    fields :=
      [("mode", .text (if arguments.query.isSome then "query" else "interactive")),
        ("knowledge",
          match arguments.catalogFile with
          | some location => .path location.text
          | none => .text "builtin"),
        ("commands", .int catalog.commands.length),
        ("color", .bool arguments.color)] }

/-- The event of an exit. -/
def exitEvent : Event := { name := "app_exit" }

/-- Log an event of a run at a time. -/
def Launch.note (launch : Launch) (stamp : String) (event : Event) : Launch :=
  let (disk, log) := Log.write stamp launch.disk launch.log event
  { launch with disk := disk, log := log }

/-- Start with arguments that are in order: the log is opened before the catalog
is read, so a catalog that fails leaves an empty log. -/
def launch (stamp : String) (disk : Disk) (arguments : Arguments) : Started :=
  match openLog disk arguments.logFile with
  | ⟨disk, .error (.unnameable fault)⟩ => .over ⟨.none, .uncaught (.unnameable fault), disk⟩
  | ⟨disk, .error (.refused reason path)⟩ =>
      let message := DiskError.message (.refused reason path)
      .over ⟨.error ("Could not open log file: " ++ message), .exit 1, disk⟩
  | ⟨disk, .ok log⟩ =>
      match openCatalog disk arguments.catalogFile with
      | .error (.broken breakdown) => .over ⟨.none, .uncaught breakdown, disk⟩
      | .error (.faulty source fault) =>
          .over ⟨.error (LoadError.message (.faulty source fault)), .exit 1, disk⟩
      | .ok catalog =>
          let screen : Screen := { painter := { enabled := arguments.color } }
          .ready (Launch.note { arguments, screen, catalog, disk, log } stamp
            (startEvent arguments catalog))

/-- Start a run. -/
def start (around : Surroundings) (stamp : String) (disk : Disk) (argv : List Text) :
    Started :=
  match readArguments around argv with
  | .error error => .over ⟨error.output, .exit 1, disk⟩
  | .ok .help => .over ⟨.block usage, .exit 0, disk⟩
  | .ok (.run arguments) => launch stamp disk arguments

/-! ### The end -/

/-- What a failure that ends a session is told as, and the exit status. -/
def farewell : Option Failure → Output × Nat
  | none => (.none, 0)
  | some failure =>
      if failure.kind = .interrupt then (.block "\nInterrupted.\n", 0)
      else if failure.isOwn then (.error ("Fatal: " ++ failure.message), 1)
      else (.error ("Unexpected: " ++ failure.message), 1)

/-- End a run; the exit is logged whatever happened before. -/
def finish (launch : Launch) (stamp : String) (failure : Option Failure) : Closing :=
  let (output, status) := farewell failure
  ⟨output, .exit status, (launch.note stamp exitEvent).disk⟩

/-! ### In a world -/

/-- What a run asks of the world that it takes place in. -/
structure World (m : Type → Type) where
  /-- Read the clock. -/
  now : m String
  /-- Show a prompt and wait for what it brings. -/
  prompt : Text → m PromptOutcome
  /-- Put an output on the screen. -/
  emit : Output → m Unit
  /-- Carry out what changed from one file tree to another. -/
  persist : Disk → Disk → m Unit

section World

variable {m : Type → Type} [Monad m]

/-- Log some events of a run, each at the time it happens at. -/
def Launch.record (world : World m) (launch : Launch) : List Event → m Launch
  | [] => pure launch
  | event :: rest => do
      let stamp ← world.now
      (launch.note stamp event).record world rest

/-- Keep what is logged of some events, and then show an output. -/
def Launch.tell (world : World m) (launch : Launch) (output : Output) (events : List Event) :
    m Launch := do
  let next ← launch.record world events
  world.persist launch.disk next.disk
  world.emit output
  return next

/-- Explain a query. -/
def Launch.explain (world : World m) (launch : Launch) (query : Text) : m Launch :=
  let explained := ShellGloss.explain launch.screen launch.catalog (Text.trim query)
  launch.tell world explained.output explained.events

/-- One turn of a session: the prompt, and the reply to what it brings. -/
def Launch.turn (world : World m) (launch : Launch) : m (Session.Next × Launch) := do
  let outcome ← world.prompt launch.screen.promptText
  let reply := Session.answer launch.screen launch.catalog outcome
  let next ← launch.tell world reply.output reply.events
  return (reply.next, next)

/-- A session by its next turn; `onward` says how it goes on behind it. -/
def Launch.converseBy (world : World m) (onward : Launch → m (Launch × Option Failure))
    (launch : Launch) : m (Launch × Option Failure) := do
  let (next, served) ← launch.turn world
  match next with
  | .again => onward served
  | .stop => return (served, none)
  | .fail failure => return (served, some failure)

/-- Explain the query, or hold a session. -/
def Launch.serve (world : World m) (converse : Launch → m (Launch × Option Failure))
    (launch : Launch) : m (Launch × Option Failure) := do
  match launch.arguments.query with
  | some query =>
      let served ← launch.explain world query
      return (served, none)
  | none =>
      world.emit launch.screen.bannerText
      converse launch

/-- A run from its start to its end, whose output is what is still to be shown. -/
def enact (world : World m) (converse : Launch → m (Launch × Option Failure))
    (around : Surroundings) (disk : Disk) (argv : List Text) : m Closing := do
  let stamp ← world.now
  match start around stamp disk argv with
  | .over closing =>
      world.persist disk closing.disk
      return closing
  | .ready launch =>
      world.persist disk launch.disk
      let (served, failure) ← launch.serve world converse
      let stamp ← world.now
      let closing := finish served stamp failure
      world.persist served.disk closing.disk
      return closing

end World

/-! ### By a script -/

/-- Log some events of a run by a clock that was read so often before. -/
def Launch.noteAll (clock : Clock) (readings : Nat) (launch : Launch) : List Event → Launch
  | [] => launch
  | event :: rest => (launch.note (clock readings) event).noteAll clock (readings + 1) rest

theorem Launch.noteAll_append (clock : Clock) (readings : Nat) (launch : Launch)
    (one two : List Event) :
    launch.noteAll clock readings (one ++ two) =
      (launch.noteAll clock readings one).noteAll clock (readings + one.length) two := by
  induction one generalizing launch readings with
  | nil => rfl
  | cons event rest inductionHypothesis =>
      rw [List.cons_append, noteAll, inductionHypothesis, noteAll, List.length_cons,
        Nat.add_right_comm, Nat.add_assoc]

@[simp] theorem Launch.screen_noteAll (clock : Clock) (readings : Nat) (launch : Launch)
    (events : List Event) : (launch.noteAll clock readings events).screen = launch.screen := by
  induction events generalizing launch readings with
  | nil => rfl
  | cons event rest inductionHypothesis => exact inductionHypothesis _ _

@[simp] theorem Launch.catalog_noteAll (clock : Clock) (readings : Nat) (launch : Launch)
    (events : List Event) : (launch.noteAll clock readings events).catalog = launch.catalog := by
  induction events generalizing launch readings with
  | nil => rfl
  | cons event rest inductionHypothesis => exact inductionHypothesis _ _

/-- A complete run: its turns and its closing, whose output holds all that is
shown behind the last prompt. -/
structure Run where
  turns : List Session.Turn
  closing : Closing
deriving Repr, Inhabited

/-- The run of a launch that has read the clock once: the turns, what is shown
behind them, the events, and the failure it ends in. -/
def Launch.complete (clock : Clock) (launch : Launch) (turns : List Session.Turn)
    (last : Output) (events : List Event) (failure : Option Failure) : Run :=
  let served := launch.noteAll clock 1 events
  let closing := finish served (clock (1 + events.length)) failure
  ⟨turns, { closing with output := last ++ closing.output }⟩

/-- Run with a script of what the prompts bring, by a clock. -/
def run (around : Surroundings) (clock : Clock) (disk : Disk) (argv : List Text)
    (script : List PromptOutcome) : Run :=
  match start around (clock 0) disk argv with
  | .over closing => ⟨[], closing⟩
  | .ready launch =>
      match launch.arguments.query with
      | some query =>
          let explained := ShellGloss.explain launch.screen launch.catalog (Text.trim query)
          launch.complete clock [] explained.output explained.events none
      | none =>
          let session := Session.run launch.screen launch.catalog script
          launch.complete clock session.turns session.last session.events session.failure

end ShellGloss.App
