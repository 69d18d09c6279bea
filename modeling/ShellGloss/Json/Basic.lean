/-
Module: ShellGloss.Json.Basic
Purpose: JSON values, with whole numbers and doubles told apart and members in
  the order they were written.
Imports: ShellGloss.Decimal.Double, ShellGloss.Text.Basic
Main exports:
  Json, Json.Named, Json.Members, Json.members?, Json.field?
-/
import ShellGloss.Decimal.Double
import ShellGloss.Text.Basic

namespace ShellGloss

/-- A JSON value.  A number written without a point and an exponent is whole and
has no size limit; any other is a double.  The member names of an object are
distinct in every value that is read. -/
inductive Json where
  | null
  | bool (value : Bool)
  | int (value : Int)
  | real (value : Decimal.Double)
  | text (value : Text)
  | array (items : List Json)
  | object (members : List (Text × Json))
deriving Repr, Inhabited

namespace Json

/-- Values under names, in order. -/
abbrev Named (α : Type) := List (α × Json)

namespace Named

variable {α : Type} [DecidableEq α]

/-- Give a name a value: a name that is there keeps its place, a new one goes to
the end. -/
def put (members : Named α) (name : α) (value : Json) : Named α :=
  match members with
  | [] => [(name, value)]
  | (known, old) :: rest =>
      if known = name then (known, value) :: rest
      else (known, old) :: put rest name value

/-- The value of the first member of a name. -/
def get? (members : Named α) (name : α) : Option Json :=
  match members with
  | [] => none
  | (known, value) :: rest =>
      if known = name then some value else get? rest name

/-- All pairs put one after another: of equal names the first place and the last
value stay. -/
def ofPairs (pairs : List (α × Json)) : Named α :=
  pairs.foldl (fun members pair => put members pair.1 pair.2) []

/-- A name reads as the value last put under it. -/
@[simp] theorem get?_put_self (members : Named α) (name : α) (value : Json) :
    get? (put members name value) name = some value := by
  induction members with
  | nil => simp [put, get?]
  | cons pair rest inductionHypothesis =>
      obtain ⟨known, old⟩ := pair
      by_cases same : known = name
      · simp [put, get?, same]
      · simp [put, get?, same, inductionHypothesis]

/-- Putting one name leaves every other name alone. -/
theorem get?_put_of_ne (members : Named α) {name other : α} (value : Json)
    (different : other ≠ name) :
    get? (put members name value) other = get? members other := by
  induction members with
  | nil => simp [put, get?, Ne.symm different]
  | cons pair rest inductionHypothesis =>
      obtain ⟨known, old⟩ := pair
      by_cases same : known = name
      · subst same
        simp [put, get?, Ne.symm different]
      · simp [put, get?, same, inductionHypothesis]

end Named

/-- The members of an object. -/
abbrev Members := Named Text

/-- The members of an object; other values have none at all. -/
def members? : Json → Option Members
  | .object members => some members
  | _ => none

/-- A member of an object. -/
def field? (value : Json) (name : Text) : Option Json :=
  value.members?.bind fun members => members.get? name

/-- A list of texts. -/
def texts (items : List Text) : Json := .array (items.map .text)

/-- A natural number. -/
def nat (n : Nat) : Json := .int n

end Json

end ShellGloss
