/-
Module: ShellGloss.Journal.Datum
Purpose: The values that log events may carry, and the JSON they are logged as.
Imports: ShellGloss.Json.Display, ShellGloss.Path, ShellGloss.Text.Quoted
Main exports:
  Datum, Datum.sameKey, Datum.toJson
-/
import ShellGloss.Json.Display
import ShellGloss.Path
import ShellGloss.Text.Quoted

namespace ShellGloss

/-- A value of a log event. -/
inductive Datum where
  | null
  | bool (value : Bool)
  | int (value : Int)
  | real (value : Decimal.Double)
  | text (value : Text)
  | path (value : Text)
  | bytes (value : List UInt8)
  | failure (message : Text)
  | list (items : List Datum)
  | tuple (items : List Datum)
  | map (pairs : List (Datum × Datum))
deriving Repr, Inhabited

namespace Datum

/-! ### Keys of maps -/

mutual

/-- Whether two keys of a map are one: numbers are compared by value, with truth
values as zero and one, and paths as they are shown. -/
def sameKey : Datum → Datum → Bool
  | .null, .null => true
  | .bool a, .bool b => a == b
  | .bool a, .int b | .int b, .bool a => b == (if a then 1 else 0)
  | .bool a, .real b | .real b, .bool a => b.equalsInt (if a then 1 else 0)
  | .int a, .int b => a == b
  | .int a, .real b | .real b, .int a => b.equalsInt a
  | .real a, .real b => a.equals b
  | .text a, .text b => a == b
  | .path a, .path b => plainPath a == plainPath b
  | .bytes a, .bytes b => a == b
  | .tuple a, .tuple b => sameKeys a b
  | _, _ => false

/-- Whether two lists of keys are one. -/
def sameKeys : List Datum → List Datum → Bool
  | [], [] => true
  | a :: as, b :: bs => sameKey a b && sameKeys as bs
  | _, _ => false

end

/-- Give a key a value: a key that is there stays in its place and as it was
written first. -/
def putPair (pairs : List (Datum × Json)) (key : Datum) (value : Json) :
    List (Datum × Json) :=
  match pairs with
  | [] => [(key, value)]
  | (known, old) :: rest =>
      if sameKey known key then (known, value) :: rest
      else (known, old) :: putPair rest key value

mutual

/-- A value inside a key, as a literal: what JSON has no form for is named by its
type. -/
def keyLiteral : Datum → Text
  | .null => Json.literal .null
  | .bool b => Json.literal (.bool b)
  | .int n => Json.literal (.int n)
  | .real d => Json.literal (.real d)
  | .text s => Text.quoted s
  | .path s => "PosixPath(" ++ Text.quoted (plainPath s) ++ ")"
  | .bytes b => Text.quotedBytes b
  | .failure message => "CmdExplainError(" ++ Text.quoted message ++ ")"
  | .tuple [item] => "(" ++ keyLiteral item ++ ",)"
  | .tuple items => "(" ++ Text.joinWith ", " (keyLiterals items) ++ ")"
  | .list items => "[" ++ Text.joinWith ", " (keyLiterals items) ++ "]"
  | .map _ => "\x7b\x7d"

/-- The literals of a list of values inside a key. -/
def keyLiterals : List Datum → List Text
  | [] => []
  | item :: rest => keyLiteral item :: keyLiterals rest

end

/-- The member name that a key gives.  Lists and maps are never keys. -/
def keyText : Datum → Text
  | .text s => s
  | .path s => plainPath s
  | .failure message => message
  | other => keyLiteral other

/-! ### Logged form -/

mutual

/-- The JSON value that a value is logged as: what JSON has no form for becomes
text. -/
def toJson : Datum → Json
  | .null => .null
  | .bool b => .bool b
  | .int n => .int n
  | .real d => .real d
  | .text s => .text s
  | .path s => .text (plainPath s)
  | .bytes b => .text (Text.quotedBytes b)
  | .failure message => .text message
  | .list items | .tuple items => .array (listJson items)
  | .map pairs =>
      let distinct :=
        (pairsJson pairs).foldl (fun known pair => putPair known pair.1 pair.2) []
      .object (Json.Named.ofPairs (distinct.map fun (key, value) => (keyText key, value)))

/-- The JSON values of a list of values. -/
def listJson : List Datum → List Json
  | [] => []
  | item :: rest => toJson item :: listJson rest

/-- The pairs of a map with their values in JSON. -/
def pairsJson : List (Datum × Datum) → List (Datum × Json)
  | [] => []
  | (key, value) :: rest => (key, toJson value) :: pairsJson rest

end

end Datum

end ShellGloss
