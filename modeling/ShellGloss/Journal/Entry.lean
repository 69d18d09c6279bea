/-
Module: ShellGloss.Journal.Entry
Purpose: Log records as blocks of readable lines.
Imports: ShellGloss.Journal.Datum, ShellGloss.Json.Reader, ShellGloss.Sorted
Main exports:
  levelName, Entry, Entry.text, LogRecord, LogRecord.entry, Event,
  Event.ofParts, Event.entry
-/
import ShellGloss.Journal.Datum
import ShellGloss.Json.Reader
import ShellGloss.Sorted

namespace ShellGloss

/-! ### Levels -/

/-- The level of ordinary events, and the least that is written. -/
def infoLevel : Int := 20

/-- The greatest level that silence holds back. -/
def criticalLevel : Int := 50

/-- The written name of a level. -/
def levelName (level : Int) : Text :=
  if level = 0 then "NOTSET"
  else if level = 10 then "DEBUG"
  else if level = 20 then "INFO"
  else if level = 30 then "WARNING"
  else if level = 40 then "ERROR"
  else if level = 50 then "CRITICAL"
  else "Level " ++ toString level

/-! ### Entries -/

/-- An entry: its title, its fields in the order they are shown, and lines that
follow them as they are. -/
structure Entry where
  title : Text
  fields : List (Text × Json)
  trailer : List Text := []
deriving Repr, Inhabited

/-- A value on one line: its line feeds are spelled out. -/
def fieldText (value : Json) : Text :=
  Text.ofList (Text.replaceChar '\n' ['\\', 'n'] value.display.toList)

/-- The lines of an entry. -/
def Entry.lines (entry : Entry) : List Text :=
  ("=== " ++ entry.title ++ " ===") ::
    (entry.fields.map fun (name, value) => name ++ ": " ++ fieldText value) ++ entry.trailer

/-- The text of an entry, without a line feed at its end. -/
def Entry.text (entry : Entry) : Text :=
  Text.joinWith "\n" entry.lines

/-- The fields that come first, in this order. -/
def leadingNames : List Text := ["ts", "level", "logger"]

/-- Whether a value is shown. -/
def isShown : Json → Bool
  | .null => false
  | _ => true

/-- The fields of an entry in order: the leading ones, then the others by name.
Null values are left out. -/
def arrange (fields : Json.Members) : List (Text × Json) :=
  let shown := fields.filter fun field => isShown field.2
  let leading := leadingNames.filterMap fun name =>
    (Json.Named.get? shown name).map fun value => (name, value)
  let others := shown.filter fun field => !leadingNames.contains field.1
  leading ++ sortBy (fun a b => !decide (b.1 < a.1)) others

/-- The entry of some fields.  The field `event` is its title; without one, the
name of the logger is. -/
def Entry.ofFields (logger : Text) (fields : Json.Members) (trailer : List Text) : Entry :=
  let title := ((Json.Named.get? fields "event").map Json.display).getD logger
  ⟨title, arrange (fields.filter fun field => field.1 != "event"), trailer⟩

/-! ### Records -/

/-- A record as it is handed to the log. -/
structure LogRecord where
  message : String
  logger : Text := "root"
  level : Int := infoLevel
  /-- The wording of the failure that came with the record. -/
  failure : Option Text := none
deriving Repr, Inhabited, DecidableEq

/-- The fields every entry starts from. -/
def baseFields (logger : Text) (level : Int) : Json.Members :=
  [("level", .text (levelName level)), ("logger", .text logger)]

/-- The lines for a failure. -/
def failureLines : Option Text → List Text
  | none => []
  | some failure => ["traceback:", failure]

/-- Whether a message is worth reading as an object: it starts and ends like
one. -/
def looksLikeObject (message : String) : Bool :=
  let cs := message.toList
  cs.head? == some '\x7b' && cs.getLast? == some '\x7d'

/-- The members of a message that is an object.  A message that is no object is
plain; one that goes beyond a limit of the reader cannot be shown at all. -/
def messageMembers (message : String) : Except Json.Limit (Option Json.Members) :=
  if looksLikeObject message then
    match Json.read message with
    | .ok value => .ok value.members?
    | .error (.malformed _ _ _ _) => .ok none
    | .error (.beyond limit) => .error limit
  else .ok none

/-- The entry of a record: the members of its message as fields, or the message
itself as one. -/
def LogRecord.entry (record : LogRecord) : Except Json.Limit Entry :=
  let base := baseFields record.logger record.level
  let trailer := failureLines record.failure
  match messageMembers record.message with
  | .error limit => .error limit
  | .ok (some members) =>
      .ok (.ofFields record.logger
        (members.foldl (fun fields member => fields.put member.1 member.2) base) trailer)
  | .ok none =>
      .ok (.ofFields record.logger
        (base.append [("event", .text record.logger), ("message", .text record.message)])
        trailer)

/-- An entry's text as it goes on from the entries before it: a blank line sets
it off from them. -/
def Entry.following (first : Bool) (entry : Entry) : Text :=
  if first then entry.text else "\n" ++ entry.text

/-- The texts of records formatted one after another.  A record that cannot be
read does not count as an entry before the next. -/
def formatRecords (first : Bool) : List LogRecord → List (Except Json.Limit Text)
  | [] => []
  | record :: rest =>
      match record.entry with
      | .error limit => .error limit :: formatRecords first rest
      | .ok entry => .ok (entry.following first) :: formatRecords false rest

/-! ### Events -/

/-- Something that happened, with its particulars. -/
structure Event where
  name : Text
  fields : List (Text × Datum) := []
  level : Int := infoLevel
deriving Repr, Inhabited

/-- Why an event cannot be logged. -/
inductive EventError where
  | repeatedName
  | repeatedLevel
  | levelNotInteger
deriving Repr, Inhabited, DecidableEq

/-- The wording of an event's error. -/
def EventError.message : EventError → Text
  | .repeatedName => "log_event() got multiple values for argument 'event'"
  | .repeatedLevel => "log_event() got multiple values for argument 'level'"
  | .levelNotInteger => "level must be an integer"

/-- A level: a whole number, or a truth value as one. -/
def levelOf? : Datum → Option Int
  | .int n => some n
  | .bool b => some (if b then 1 else 0)
  | _ => none

/-- The event of a name, an optional level and fields.  A field `level` is the
event's level and not one of its fields, and none may be called `event`. -/
def Event.ofParts (name : Text) (level : Option Datum) (fields : List (Text × Datum)) :
    Except EventError Event :=
  let named := fields.lookup ("level" : Text)
  if (fields.lookup ("event" : Text)).isSome then .error .repeatedName
  else if level.isSome && named.isSome then .error .repeatedLevel
  else
    match levelOf? ((level <|> named).getD (.int infoLevel)) with
    | none => .error .levelNotInteger
    | some level =>
        .ok { name := name, fields := fields.filter fun field => field.1 != "level"
              level := level }

/-- The entry of an event at a time. -/
def Event.entry (stamp : String) (event : Event) : Entry :=
  let given : Json.Members :=
    ("ts", .text stamp) :: ("event", .text event.name) ::
      event.fields.map fun (name, datum) => (name, datum.toJson)
  .ofFields "root"
    (given.foldl (fun fields field => fields.put field.1 field.2)
      (baseFields "root" event.level)) []

end ShellGloss
