/-
Module: ShellGloss.Journal.Log
Purpose: The log: where events go, and when they are kept back.
Imports: ShellGloss.Disk, ShellGloss.Journal.Entry, ShellGloss.Text.Utf8
Main exports:
  Log, Log.Opened, Log.openFile, Log.silence, Log.admits, Log.write, Clock,
  Clock.stamped, Log.writeAll
-/
import ShellGloss.Disk
import ShellGloss.Journal.Entry
import ShellGloss.Text.Utf8

namespace ShellGloss

/-- A log file that is open, and whether an entry was made for it since. -/
structure LogFile where
  location : Location
  started : Bool := false
deriving Repr, Inhabited, DecidableEq

/-- The log: the file it goes to, if one was ever opened, and whether it is
silenced.  Silence holds back all but what is beyond critical, and the file
stays open behind it. -/
structure Log where
  file : Option LogFile := none
  silenced : Bool := true
deriving Repr, Inhabited, DecidableEq

namespace Log

/-- No file yet, and silent. -/
def initial : Log := {}

/-- What comes of opening a log: the tree that is left, and the log or why there
is none. -/
structure Opened where
  disk : Disk
  log : Except DiskError Log

/-- Log to a file from now on.  What it holds stays, and the first new entry
follows it without a blank line. -/
def openFile (disk : Disk) (route : Route) : Opened :=
  match disk.openForAppend route with
  | ⟨tree, some failure⟩ => ⟨tree, .error failure⟩
  | ⟨tree, none⟩ =>
      ⟨tree, .ok { file := some { location := ⟨route.settled.names⟩ }, silenced := false }⟩

/-- Keep events back from now on. -/
def silence (log : Log) : Log := { log with silenced := true }

/-- Whether an event of a level is written. -/
def admits (log : Log) (level : Int) : Bool :=
  infoLevel ≤ level && (!log.silenced || criticalLevel < level)

/-- Write an event at a time.  An entry that has no bytes is dropped as a whole, and
it still counts as one in front of the next.  What the log itself reports of a dropped
entry is not part of what a run shows. -/
def write (stamp : String) (disk : Disk) (log : Log) (event : Event) : Disk × Log :=
  match log.file with
  | none => (disk, log)
  | some file =>
      if log.admits event.level then
        let text := (event.entry stamp).following (!file.started) ++ "\n"
        let tree :=
          match Text.Utf8.encode? text with
          | some bytes => disk.append file.location bytes
          | none => disk
        (tree, { log with file := some { file with started := true } })
      else (disk, log)

/-- Write some events, each at a time of its own. -/
def writeAll (disk : Disk) (log : Log) : List (String × Event) → Disk × Log
  | [] => (disk, log)
  | (stamp, event) :: rest =>
      let (disk, log) := write stamp disk log event
      writeAll disk log rest

end Log

/-- A clock, by what it shows at one reading after another. -/
abbrev Clock := Nat → String

/-- Events with the times they happen at: the clock is read once for each, and it
has been read so often before. -/
def Clock.stamped (clock : Clock) (readings : Nat) : List Event → List (String × Event)
  | [] => []
  | event :: rest => (clock readings, event) :: stamped clock (readings + 1) rest

end ShellGloss
