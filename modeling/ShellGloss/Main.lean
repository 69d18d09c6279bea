/-
Module: ShellGloss.Main
Purpose: The command: arguments, environment, files, clock and terminal around
  `ShellGloss.App`.
Imports: ShellGloss.App, Std.Time.DateTime
Main exports:
  main
-/
import ShellGloss.App
import Std.Time.DateTime

namespace ShellGloss.Main

/-!
Nothing is decided here.  The files that the arguments name are read into a
`Disk`, `App` says what a run does with them, and what it shows and changes is
carried out.  The arguments and the lines that come in here are strings, so no
half of a surrogate pair is among them.
-/

/-- A number of at least `width` digits. -/
def padded (width : Nat) (n : Int) : String :=
  let digits := (toString n).toList
  String.ofList (List.replicate (width - digits.length) '0' ++ digits)

/-- A date and time of day, to the microsecond. -/
def stampText (time : Std.Time.PlainDateTime) : String :=
  padded 4 time.year ++ "-" ++ padded 2 time.month.val ++ "-" ++ padded 2 time.day.val ++ "T" ++
    padded 2 time.hour.val ++ ":" ++ padded 2 time.minute.val ++ ":" ++
    padded 2 time.second.val ++ "." ++ padded 6 (time.nanosecond.val / 1000) ++ "+00:00"

/-- The time now. -/
def currentStamp : IO String := do
  let now ← Std.Time.Timestamp.now
  return stampText (.ofWallTime (.ofTimestamp now .zero))

/-- What a place holds, if anything. -/
def look (location : Location) : IO (Option DiskEntry) := do
  match ← (IO.FS.readBinFile location.text.spelled).toBaseIO with
  | .ok bytes => return some (.file bytes.toList)
  | .error (.inappropriateType ..) => return some .directory
  | .error _ => return none

/-- The part of the file tree that leads to some places. -/
def survey (locations : List Location) : IO Disk := do
  let mut disk : Disk := {}
  for place in locations.flatMap Disk.waypoints do
    if let some entry ← look place then
      disk := disk.put place entry
  return disk

/-- The places that the arguments name. -/
def namedPlaces (around : Surroundings) (argv : List Text) : List Location :=
  match readArguments around argv with
  | .ok (.run arguments) => arguments.catalogFile.toList ++ arguments.logFile.toList
  | _ => []

/-- The users of a list with seven fields a line: the first is the name and the
sixth the home directory. -/
def usersOf (list : Text) : List (Text × Text) :=
  (Text.splitAt '\n' list.toList).filterMap fun line =>
    match Text.splitAt ':' line with
    | name :: _ :: _ :: _ :: _ :: home :: _ => some (.ofList name, .ofList home)
    | _ => none

/-- The users of this machine. -/
def users : IO (List (Text × Text)) := do
  match ← (IO.FS.readBinFile "/etc/passwd").toBaseIO with
  | .ok bytes => return usersOf (Text.Utf8.decodePast bytes.toList)
  | .error _ => return []

/-- Carry out what changed in a file tree. -/
def persist (before after : Disk) : IO Unit := do
  for (location, entry) in before.changes after do
    match entry with
    | .directory => IO.FS.createDirAll location.text.spelled
    | .file bytes =>
        IO.FS.createDirAll location.parent.text.spelled
        IO.FS.writeBinFile location.text.spelled (ByteArray.mk bytes.toArray)

/-- Put an output on the two streams. -/
def emit (output : Output) : IO Unit := do
  (← IO.getStdout).putStr output.out.spelled
  (← IO.getStdout).flush
  (← IO.getStderr).putStr output.err.spelled
  (← IO.getStderr).flush

/-- What a prompt brings; at the end of the input there is nothing more. -/
def prompt (message : Text) : IO PromptOutcome := do
  emit (.block message)
  let line ← (← IO.getStdin).getLine
  return if line.isEmpty then Session.exhausted else .line line

/-- The terminal, the clock and the files of this machine. -/
def world : App.World IO := { now := currentStamp, prompt, emit, persist }

/-- One turn after another until the session ends. -/
partial def converse (launch : App.Launch) : IO (App.Launch × Option Failure) :=
  launch.converseBy world converse

end ShellGloss.Main

open ShellGloss in
/-- Explain one command, or hold a session of prompts. -/
def main (arguments : List String) : IO UInt32 := do
  let argv : List Text := arguments.map Text.ofString
  let around : Surroundings :=
    { home := (← IO.getEnv "HOME").getD ""
      users := ← Main.users
      appRoot := toString (← IO.appDir)
      noColor := (← IO.getEnv "NO_COLOR").map Text.ofString }
  let disk := App.installed around (← Main.survey (Main.namedPlaces around argv))
  let closing ← App.enact Main.world Main.converse around disk argv
  Main.emit closing.output
  match closing.ending with
  | .exit status => return status.toUInt32
  | .uncaught breakdown =>
      Main.emit { err := breakdown.message ++ "\n" }
      return 1
