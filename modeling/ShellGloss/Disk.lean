/-
Module: ShellGloss.Disk
Purpose: A file tree: looking up, reading, making directories and appending.
Imports: ShellGloss.Path, ShellGloss.Text.Quoted
Main exports:
  Disk, DiskError, DiskError.message, Disk.Outcome, Disk.read,
  Disk.makeDirectory, Disk.createFile, Disk.openForAppend, Disk.append,
  Disk.changes
-/
import ShellGloss.Path
import ShellGloss.Text.Quoted

namespace ShellGloss

/-- What a place in a file tree holds. -/
inductive DiskEntry where
  | directory
  | file (bytes : List UInt8)
deriving Repr, Inhabited, DecidableEq

/-- A file tree, by place.  The root is always a directory. -/
structure Disk where
  entries : List (Location × DiskEntry) := []
deriving Repr, Inhabited, DecidableEq

/-- Why the file system refuses an operation. -/
inductive DiskReason where
  | notFound
  | alreadyThere
  | notDirectory
  | isDirectory
  | nameTooLong
deriving Repr, Inhabited, DecidableEq

/-- The number and the wording of a reason. -/
def DiskReason.message : DiskReason → Text
  | .notFound => "[Errno 2] No such file or directory"
  | .alreadyThere => "[Errno 17] File exists"
  | .notDirectory => "[Errno 20] Not a directory"
  | .isDirectory => "[Errno 21] Is a directory"
  | .nameTooLong => "[Errno 36] File name too long"

/-- A failed file operation: it is refused for the path it was asked for, or it
is not even asked for, as its text is no path. -/
inductive DiskError where
  | refused (reason : DiskReason) (path : Text)
  | unnameable (fault : Text.Utf8.NameFault)
deriving Repr, Inhabited, DecidableEq

/-- The wording of a failure. -/
def DiskError.message : DiskError → Text
  | .refused reason path => reason.message ++ ": " ++ Text.quoted path
  | .unnameable fault => fault.message

namespace Disk

/-! ### Entries -/

/-- What a place holds, if anything. -/
def get? (disk : Disk) (location : Location) : Option DiskEntry :=
  if location.names.isEmpty then some .directory
  else (disk.entries.find? (·.1 == location)).map (·.2)

/-- Put an entry at a place: one that is there is replaced where it stands, a new
one goes to the end. -/
def putEntry (entries : List (Location × DiskEntry)) (location : Location)
    (entry : DiskEntry) : List (Location × DiskEntry) :=
  match entries with
  | [] => [(location, entry)]
  | (known, old) :: rest =>
      if known = location then (known, entry) :: rest
      else (known, old) :: putEntry rest location entry

/-- Put an entry at a place. -/
def put (disk : Disk) (location : Location) (entry : DiskEntry) : Disk :=
  ⟨putEntry disk.entries location entry⟩

/-! ### Walking -/

/-- The greatest number of bytes of a name. -/
def nameLimit : Nat := 255

/-- The greatest number of bytes of a path. -/
def pathLimit : Nat := 4095

/-- Walk down some names from a place; `above` holds its names, last first.  Only
a directory can be walked down from, and `..` goes back up. -/
def walk (disk : Disk) (above : List Text) : List Text → Except DiskReason (List Text)
  | [] => .ok above
  | name :: rest =>
      match disk.get? ⟨above.reverse⟩ with
      | none => .error .notFound
      | some (.file _) => .error .notDirectory
      | some .directory =>
          if nameLimit < Text.Utf8.nameSize name then .error .nameTooLong
          else disk.walk (Path.descend above name) rest

/-- The place that a route leads to.  There may be nothing at it, but what it is
in is a directory. -/
def reach (disk : Disk) (route : Route) : Except DiskReason Location :=
  if pathLimit < Text.Utf8.nameSize route.text then .error .nameTooLong
  else (disk.walk [] route.names).map fun above => ⟨above.reverse⟩

/-- What a route leads to. -/
def find (disk : Disk) (route : Route) : Except DiskReason DiskEntry :=
  match disk.reach route with
  | .error reason => .error reason
  | .ok location =>
      match disk.get? location with
      | some entry => .ok entry
      | none => .error .notFound

/-- Whether a route leads to a directory. -/
def isDirectory (disk : Disk) (route : Route) : Bool :=
  match disk.find route with
  | .ok .directory => true
  | _ => false

/-- The bytes of the file that a route leads to. -/
def read (disk : Disk) (route : Route) : Except DiskError (List UInt8) :=
  match route.fault? with
  | some fault => .error (.unnameable fault)
  | none =>
      match disk.find route with
      | .ok (.file bytes) => .ok bytes
      | .ok .directory => .error (.refused .isDirectory route.text)
      | .error reason => .error (.refused reason route.text)

/-! ### Making -/

/-- The tree that an operation leaves, and why it failed if it did.  What was made
before a failure stays. -/
structure Outcome where
  disk : Disk
  failure : Option DiskError := none
deriving Repr, Inhabited, DecidableEq

/-- The tree with one more directory. -/
def addDirectory (disk : Disk) (route : Route) : Except DiskReason Disk :=
  match disk.reach route with
  | .error reason => .error reason
  | .ok location =>
      match disk.get? location with
      | some _ => .error .alreadyThere
      | none => .ok (disk.put location .directory)

/-- Add a directory.  A refusal does not count if there is one already. -/
def provide (disk : Disk) (route : Route) : Outcome :=
  match disk.addDirectory route with
  | .ok tree => { disk := tree }
  | .error reason =>
      if disk.isDirectory route then { disk := disk }
      else { disk := disk, failure := some (.refused reason route.text) }

/-- Make sure of a directory by its names, last first: where it cannot be added
because it is in none, make sure of that one before. -/
def provideAll (root : Text) (disk : Disk) : List Text → Outcome
  | [] => { disk := disk }
  | name :: above =>
      let route : Route := ⟨root, (name :: above).reverse⟩
      match disk.addDirectory route with
      | .error .notFound =>
          let before := provideAll root disk above
          match before.failure with
          | some _ => before
          | none => before.disk.provide route
      | _ => disk.provide route

/-- Make sure of a directory and of those on the way to it. -/
def makeDirectory (disk : Disk) (route : Route) : Outcome :=
  match route.fault? with
  | some fault => { disk := disk, failure := some (.unnameable fault) }
  | none => provideAll route.root disk route.names.reverse

/-- Open a file for writing.  One that is not there is made, and one that is there
is given the bytes that `keep` leaves of it. -/
def openFile (disk : Disk) (route : Route) (keep : List UInt8 → List UInt8) : Outcome :=
  match route.fault? with
  | some fault => { disk := disk, failure := some (.unnameable fault) }
  | none =>
      match disk.reach route with
      | .error reason => { disk := disk, failure := some (.refused reason route.text) }
      | .ok location =>
          match disk.get? location with
          | some .directory =>
              { disk := disk, failure := some (.refused .isDirectory route.text) }
          | some (.file bytes) => { disk := disk.put location (.file (keep bytes)) }
          | none => { disk := disk.put location (.file []) }

/-- Make sure of the directory that a file is in, and go on with the tree. -/
def insideDirectory (disk : Disk) (route : Route) (next : Disk → Outcome) : Outcome :=
  let before := disk.makeDirectory route.parent
  match before.failure with
  | some _ => before
  | none => next before.disk

/-- An empty file where a route leads, whatever was in it before. -/
def createFile (disk : Disk) (route : Route) : Outcome :=
  disk.insideDirectory route fun tree => tree.openFile route fun _ => []

/-- A file that can be appended to; what is in it stays.  Its directory is the one
that the route walks to, and the file itself is where the names alone lead. -/
def openForAppend (disk : Disk) (route : Route) : Outcome :=
  disk.insideDirectory route fun tree => tree.openFile route.settled id

/-- The tree with bytes added to the end of a file; without such a file there is
no change. -/
def append (disk : Disk) (location : Location) (bytes : List UInt8) : Disk :=
  match disk.get? location with
  | some (.file old) => disk.put location (.file (old ++ bytes))
  | _ => disk

/-! ### Changes -/

/-- The places on the way from the root to a place, itself included. -/
def waypoints (location : Location) : List Location :=
  (List.range location.names.length).map fun n => ⟨location.names.take (n + 1)⟩

/-- The entries of a tree that differ from those of an earlier one, in order. -/
def changes (before after : Disk) : List (Location × DiskEntry) :=
  after.entries.filter fun (location, entry) => before.get? location ≠ some entry

/-- The files among the changes. -/
def changedFiles (before after : Disk) : List (Location × List UInt8) :=
  (changes before after).filterMap fun (location, entry) =>
    match entry with
    | .directory => none
    | .file bytes => some (location, bytes)

end Disk

end ShellGloss
