/-
Module: ShellGloss.Catalog.Load
Purpose: Catalogs from files.
Imports: ShellGloss.Catalog.Bundled, ShellGloss.Catalog.Format,
  ShellGloss.Disk, ShellGloss.Json.Reader, ShellGloss.Json.Writer,
  ShellGloss.Text.Lines, ShellGloss.Text.Utf8
Main exports:
  Breakdown, CatalogFault, LoadError, LoadError.message, Catalog.ofText,
  Catalog.ofBytes, Catalog.load
-/
import ShellGloss.Catalog.Bundled
import ShellGloss.Catalog.Format
import ShellGloss.Disk
import ShellGloss.Json.Reader
import ShellGloss.Json.Writer
import ShellGloss.Text.Lines
import ShellGloss.Text.Utf8

namespace ShellGloss

/-- A failure that lies below the catalog: in the bytes of a text, in a limit of
the reader or in the characters of a path.  It is told without the file's name,
and nothing in the program answers it. -/
inductive Breakdown where
  | undecodable (fault : Text.Utf8.Fault)
  | beyond (limit : Json.Limit)
  | unnameable (fault : Text.Utf8.NameFault)
deriving Repr, Inhabited, DecidableEq

/-- The wording of a breakdown. -/
def Breakdown.message : Breakdown → Text
  | .undecodable fault => fault.message
  | .beyond limit => limit.message
  | .unnameable fault => fault.message

/-- What is wrong with a catalog's file. -/
inductive CatalogFault where
  | unreadable (reason : DiskReason) (path : Text)
  | malformed (complaint : Json.Complaint) (line column offset : Nat)
  | misshapen (issues : List Issue)
deriving Repr, Inhabited, DecidableEq

/-- Why a file gives no catalog. -/
inductive LoadError where
  | faulty (source : Text) (fault : CatalogFault)
  | broken (breakdown : Breakdown)
deriving Repr, Inhabited, DecidableEq

/-- A place on the way to an issue. -/
def Place.text : Place → Text
  | .name text => text
  | .index number => toString number

/-- An issue on one line. -/
def Issue.text (issue : Issue) : Text :=
  Text.joinWith "." (issue.path.map Place.text) ++ ": " ++ issue.cause.message

/-- The wording of a fault, without the file. -/
def CatalogFault.message : CatalogFault → Text
  | .unreadable reason path => DiskError.message (.refused reason path)
  | .malformed complaint line column offset =>
      "invalid JSON: " ++ Json.Fault.message (.malformed complaint line column offset)
  | .misshapen issues =>
      "invalid structure: " ++ Text.joinWith "\n" (issues.map Issue.text)

/-- The wording of an error. -/
def LoadError.message : LoadError → Text
  | .faulty source fault =>
      "Could not load command knowledge from " ++ source ++ ": " ++ fault.message
  | .broken breakdown => breakdown.message

namespace Catalog

/-- The catalog that a JSON text describes. -/
def ofText (source : Text) (text : String) : Except LoadError Catalog :=
  match Json.read text with
  | .error (.beyond limit) => .error (.broken (.beyond limit))
  | .error (.malformed complaint line column offset) =>
      .error (.faulty source (.malformed complaint line column offset))
  | .ok value =>
      match Catalog.check value with
      | .ok catalog => .ok catalog
      | .error issues => .error (.faulty source (.misshapen issues))

/-- The catalog in the bytes of a file. -/
def ofBytes (source : Text) (bytes : List UInt8) : Except LoadError Catalog :=
  match Text.Utf8.decode bytes with
  | .error fault => .error (.broken (.undecodable fault))
  | .ok text => ofText source (String.ofList (Text.unifyLineEnds text.toList))

/-- The catalog in the file that a route leads to. -/
def load (disk : Disk) (route : Route) : Except LoadError Catalog :=
  match disk.read route with
  | .error (.unnameable fault) => .error (.broken (.unnameable fault))
  | .error (.refused reason path) => .error (.faulty route.text (.unreadable reason path))
  | .ok bytes => ofBytes route.text bytes

/-- The text of a catalog's file. -/
def fileText (catalog : Catalog) : String :=
  catalog.toJson.write .spaced ++ "\n"

end Catalog

end ShellGloss
