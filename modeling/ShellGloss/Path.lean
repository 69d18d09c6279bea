/-
Module: ShellGloss.Path
Purpose: Path arguments, and the absolute places they name.
Imports: ShellGloss.Text.Slice, ShellGloss.Text.Utf8
Main exports:
  Location, Location.text, Route, Route.text, Route.settled, plainPath,
  PathError, PathError.message, Surroundings, mapPath
-/
import ShellGloss.Text.Slice
import ShellGloss.Text.Utf8

namespace ShellGloss

/-- An absolute place in the file tree, by the names from the root down. -/
structure Location where
  names : List Text
deriving Repr, Inhabited, DecidableEq

/-- The text of a place. -/
def Location.text (location : Location) : Text :=
  "/" ++ Text.joinWith "/" location.names

/-- The place that holds a place; the root holds itself. -/
def Location.parent (location : Location) : Location := ⟨location.names.dropLast⟩

namespace Path

/-- The names between the slashes of a path. -/
def segments (cs : List Glyph) : List Text :=
  (Text.splitAt '/' cs).map Text.ofList

/-- Go down one name; the names so far stand last first.  No name and `.` stay
where they are, and `..` goes up, at the root nowhere. -/
def descend (above : List Text) (name : Text) : List Text :=
  if name = "" ∨ name = "." then above
  else if name = ".." then above.drop 1
  else name :: above

/-- Names with every `.` and `..` carried out. -/
def settle (names : List Text) : List Text :=
  (names.foldl descend []).reverse

/-- Whether a path starts at the root. -/
def isAbsolute (cs : List Glyph) : Bool := cs.head? == some (.char '/')

/-- The place that a path from the root names. -/
def locate (cs : List Glyph) : Location := ⟨settle (segments cs)⟩

/-- The names of a path that say something: none is empty or `.`. -/
def spokenNames (cs : List Glyph) : List Text :=
  (segments cs).filter fun name => name ≠ "" ∧ name ≠ "."

/-- The slashes that a path starts with: two are kept, and more count as one. -/
def rootMark (cs : List Glyph) : Text :=
  match cs with
  | '/' :: '/' :: '/' :: _ => "/"
  | '/' :: '/' :: _ => "//"
  | '/' :: _ => "/"
  | _ => ""

end Path

/-- A path as it is shown: without what says nothing.  A path that says nothing
at all is `.`. -/
def plainPath (raw : Text) : Text :=
  let root := Path.rootMark raw.toList
  let body := Text.joinWith "/" (Path.spokenNames raw.toList)
  if root = "" ∧ body = "" then "." else root ++ body

/-- A path from the root as it is given: `..` is still one of its names, and it
is carried out only when the path is walked. -/
structure Route where
  root : Text := "/"
  names : List Text
deriving Repr, Inhabited, DecidableEq

namespace Route

/-- The route that a path from the root gives. -/
def ofPath (cs : List Glyph) : Route := ⟨Path.rootMark cs, Path.spokenNames cs⟩

/-- The text of a route. -/
def text (route : Route) : Text := route.root ++ Text.joinWith "/" route.names

/-- The route without its last name. -/
def parent (route : Route) : Route := { route with names := route.names.dropLast }

/-- The route with every `..` carried out on the names alone. -/
def settled (route : Route) : Route := { route with names := Path.settle route.names }

/-- Why the text of a route is no path, if it is none. -/
def fault? (route : Route) : Option Text.Utf8.NameFault := Text.Utf8.nameFault? route.text

end Route

/-- The route straight to a place. -/
def Location.route (location : Location) : Route := { names := location.names }

/-- Why a path argument names no place. -/
inductive PathError where
  | rootNotAbsolute
  | nulCharacter
  | noHome
  | relative
  | unnameable (fault : Text.Utf8.NameFault)
deriving Repr, Inhabited, DecidableEq

/-- The wording of a path error. -/
def PathError.message : PathError → Text
  | .rootNotAbsolute => "app_root_abs must be an absolute path."
  | .nulCharacter => "Path contains NUL (\\0) character."
  | .noHome => "Could not determine home directory."
  | .relative =>
      "Relative paths are not accepted. " ++
        "Use ~ (home), @ (package directory), or an absolute path."
  | .unnameable fault => fault.message

/-- Where the program runs: the user's home directory, those of the users by
their names, and its own directory, as given from outside, and what the variable
that turns colors off holds. -/
structure Surroundings where
  home : Text
  users : List (Text × Text) := []
  appRoot : Text
  noColor : Option Text := none
deriving Repr, Inhabited, DecidableEq

namespace Path

/-- Walk some names from a place and look at each place on the way; `above` holds
the names of the first, last first.  A place can be looked at only if its text is
a path. -/
def walk (above : List Text) : List Text → Except Text.Utf8.NameFault (List Text)
  | [] => .ok above
  | name :: rest =>
      let here := descend above name
      match Text.Utf8.nameFault? (Location.text ⟨here.reverse⟩) with
      | some fault => .error fault
      | none => walk here rest

/-- A path that is to start at the root. -/
def absolute (cs : List Glyph) : Except PathError Location :=
  if !isAbsolute cs then .error .relative
  else
    match walk [] (segments cs) with
    | .error fault => .error (.unnameable fault)
    | .ok above => .ok ⟨above.reverse⟩

/-- A home directory as a path: slashes at its end do not count, and nothing is
the root.  One that itself starts with a tilde is not known. -/
def homePath (home : Text) : Except PathError (List Glyph) :=
  match (home.toList.reverse.dropWhile (· == .char '/')).reverse with
  | [] => .ok ['/']
  | '~' :: _ => .error .noHome
  | path => .ok path

/-- The home directory of the user of a name; without a name, it is the user's
own. -/
def homeOf (around : Surroundings) (name : Text) : Except PathError Text :=
  if name.isEmpty then .ok around.home
  else
    match Text.Utf8.nameFault? name with
    | some fault => .error (.unnameable fault)
    | none =>
        match around.users.lookup name with
        | some home => .ok home
        | none => .error .noHome

/-- A path that starts with a tilde, given without it: up to the first slash it
is the name of a user. -/
def fromHome (around : Surroundings) (rest : List Glyph) : Except PathError Location :=
  let name := Text.beforeFirst '/' rest
  match homeOf around (.ofList name) with
  | .error error => .error error
  | .ok home =>
      match homePath home with
      | .error error => .error error
      | .ok path => absolute (path ++ rest.drop name.length)

/-- A path in the program's directory, without the mark it started with. -/
def fromAppRoot (appRoot : Text) (raw : List Glyph) : Except PathError Location :=
  absolute
    (appRoot.toList ++ .char '/' :: raw.dropWhile fun c => c == .char '/' || c == .char '\\')

end Path

/-- The place that a path argument names: `~` stands for the user's home directory,
`~` and a name for that of another user, `@` for the program's own, and any other
path has to be absolute. -/
def mapPath (around : Surroundings) (raw : Text) : Except PathError Location :=
  if !Path.isAbsolute around.appRoot.toList then .error .rootNotAbsolute
  else if raw.toList.contains '\x00' then .error .nulCharacter
  else
    match raw.toList with
    | '@' :: rest => Path.fromAppRoot around.appRoot rest
    | '~' :: rest => Path.fromHome around rest
    | path => Path.absolute path

end ShellGloss
