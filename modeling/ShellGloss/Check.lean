/-
Module: ShellGloss.Check
Purpose: Checking JSON values against the shape a reader expects, with every
  issue reported at its place.
Imports: ShellGloss.Json.Display, ShellGloss.Text.Blank
Main exports:
  Issue, Checked, Checked.within, Checked.pair, Checked.list, Check.text,
  Check.optional, Check.required, Check.flag, Check.count
-/
import ShellGloss.Json.Display
import ShellGloss.Text.Blank

namespace ShellGloss

/-! ### Issues -/

/-- One step from a value to a part of it. -/
inductive Place where
  | name (name : Text)
  | index (index : Nat)
deriving Repr, Inhabited, DecidableEq

/-- What is wrong with a value. -/
inductive Cause where
  | missing
  | notText
  | looseText
  | notList
  | notTuple
  | notObject (model : Text)
  | notNode
  | tagMissing
  | tagUnknown (shown : Text) (expected : List Text)
  | notInteger
  | notFinite
  | fraction
  | integerSize
  | notIntegerText
  | negative
  | reversedSpan (stop start : Nat)
  | notFlag
  | notFlagText
  | tooDeep
  | frozen
deriving Repr, Inhabited, DecidableEq

namespace Cause

/-- The short name of a cause. -/
def code : Cause → Text
  | .missing => "missing"
  | .notText => "string_type"
  | .looseText => "string_unicode"
  | .notList => "list_type"
  | .notTuple => "tuple_type"
  | .notObject _ => "model_type"
  | .notNode => "model_attributes_type"
  | .tagMissing => "union_tag_not_found"
  | .tagUnknown _ _ => "union_tag_invalid"
  | .notInteger => "int_type"
  | .notFinite => "finite_number"
  | .fraction => "int_from_float"
  | .integerSize => "int_parsing_size"
  | .notIntegerText => "int_parsing"
  | .negative => "greater_than_equal"
  | .reversedSpan _ _ => "value_error"
  | .notFlag => "bool_type"
  | .notFlagText => "bool_parsing"
  | .tooDeep => "recursion_depth_exceeded"
  | .frozen => "frozen_instance"

/-- The wording of a cause. -/
def message : Cause → Text
  | .missing => "Field required"
  | .notText => "Input should be a valid string"
  | .looseText =>
      "Input should be a valid string, unable to parse raw data as a unicode string"
  | .notList => "Input should be a valid list"
  | .notTuple => "Input should be a valid tuple"
  | .notObject model => "Input should be a valid dictionary or instance of " ++ model
  | .notNode => "Input should be a valid dictionary or object to extract fields from"
  | .tagMissing => "Unable to extract tag using discriminator 'kind'"
  | .tagUnknown shown expected =>
      "Input tag '" ++ shown ++
        "' found using 'kind' does not match any of the expected tags: " ++
        Text.joinWith ", " (expected.map fun tag => "'" ++ tag ++ "'")
  | .notInteger => "Input should be a valid integer"
  | .notFinite => "Input should be a finite number"
  | .fraction => "Input should be a valid integer, got a number with a fractional part"
  | .integerSize => "Unable to parse input string as an integer, exceeded maximum size"
  | .notIntegerText =>
      "Input should be a valid integer, unable to parse string as an integer"
  | .negative => "Input should be greater than or equal to 0"
  | .reversedSpan stop start =>
      "Value error, span end " ++ toString stop ++ " precedes start " ++ toString start
  | .notFlag => "Input should be a valid boolean"
  | .notFlagText => "Input should be a valid boolean, unable to interpret input"
  | .tooDeep => "Recursion error - maximum validation depth exceeded"
  | .frozen => "Instance is frozen"

end Cause

/-- A cause and the way from the checked value to the part it concerns. -/
structure Issue where
  path : List Place
  cause : Cause
deriving Repr, Inhabited, DecidableEq

/-- A value that was accepted, or every issue found, in order. -/
abbrev Checked (α : Type) := Except (List Issue) α

namespace Checked

/-- A single issue with the value itself. -/
def issue {α : Type} (cause : Cause) : Checked α := .error [⟨[], cause⟩]

/-- A check of a part: its issues lie one place further away. -/
def within {α : Type} (place : Place) : Checked α → Checked α
  | .ok value => .ok value
  | .error issues =>
      .error (issues.map fun issue => { issue with path := place :: issue.path })

/-- Two checks, both carried out: the issues of the first come first. -/
def pair {α β : Type} : Checked α → Checked β → Checked (α × β)
  | .ok a, .ok b => .ok (a, b)
  | .ok _, .error issues => .error issues
  | .error issues, .ok _ => .error issues
  | .error first, .error second => .error (first ++ second)

/-- Checks of the items of a list, counted from `index` on, all carried out. -/
def listFrom {α β : Type} (check : α → Checked β) (index : Nat) : List α → Checked (List β)
  | [] => .ok []
  | item :: rest =>
      match pair (within (.index index) (check item)) (listFrom check (index + 1) rest) with
      | .ok (value, values) => .ok (value :: values)
      | .error issues => .error issues

/-- Checks of all items of a list. -/
def list {α β : Type} (check : α → Checked β) (items : List α) : Checked (List β) :=
  listFrom check 0 items

/-- A pair is accepted exactly when both parts are. -/
theorem pair_eq_ok_iff {α β : Type} {first : Checked α} {second : Checked β} {a : α} {b : β} :
    pair first second = .ok (a, b) ↔ first = .ok a ∧ second = .ok b := by
  cases first <;> cases second <;> simp [pair]

end Checked

namespace Check

/-! ### Members of objects -/

/-- A member that has to be there. -/
def required {α : Type} (members : Json.Members) (name : Text)
    (check : Json → Checked α) : Checked α :=
  .within (.name name) <|
    match members.get? name with
    | none => .issue .missing
    | some value => check value

/-- A member with a value of its own when it is not there. -/
def optional {α : Type} (members : Json.Members) (name : Text) (absent : α)
    (check : Json → Checked α) : Checked α :=
  match members.get? name with
  | none => .ok absent
  | some value => .within (.name name) (check value)

/-- The members of an object that stands for a model. -/
def members (model : Text) (value : Json) : Checked Json.Members :=
  match value.members? with
  | some members => .ok members
  | none => .issue (.notObject model)

/-! ### Plain values -/

/-- A text; nothing else is taken for one.  It is kept glyph by glyph, halves of
pairs included. -/
def text : Json → Checked Text
  | .text s => .ok s
  | _ => .issue .notText

/-- A list of values. -/
def list {α : Type} (check : Json → Checked α) : Json → Checked (List α)
  | .array items => .list check items
  | _ => .issue .notList

/-- A list of texts, or null for none at all. -/
def aliases : Json → Checked (Option (List Text))
  | .null => .ok none
  | .array items => (Checked.list text items).map some
  | _ => .issue .notTuple

/-- The words for yes. -/
def yesWords : List Text := ["1", "on", "t", "true", "y", "yes"]

/-- The words for no. -/
def noWords : List Text := ["0", "off", "f", "false", "n", "no"]

/-- The first whole number that does not fit into 64 bits with a sign. -/
def wordBound : Int := 9223372036854775808

/-- Whether a whole number fits into 64 bits with a sign. -/
def fitsWord (n : Int) : Bool := -wordBound ≤ n && n < wordBound

/-- A truth value: as such, as the number zero or one, or as a word for it.  A text
that is not plain is no word at all. -/
def flag : Json → Checked Bool
  | .bool b => .ok b
  | .int n =>
      if n = 0 then .ok false
      else if n = 1 then .ok true
      else .issue (if fitsWord n then .notFlagText else .notFlag)
  | .real d =>
      if d.equalsInt 0 then .ok false
      else if d.equalsInt 1 then .ok true
      else .issue .notFlag
  | .text s =>
      let word := Text.foldCase s
      if !s.isPlain then .issue .looseText
      else if yesWords.contains word then .ok true
      else if noWords.contains word then .ok false
      else .issue .notFlagText
  | _ => .issue .notFlag

/-! ### Whole numbers -/

/-!
A number given as text is first tidied: spacing, a plus sign, needless zeros, a
fraction of zeros and the underscores between digits go.  What is left has to be
the plain form of a number.
-/

/-- The greatest number of digits of a number given as text. -/
def digitLimit : Nat := 4300

/-- Whether a text starts with a number that has too many digits, whatever follows
it.  Its sign does not count. -/
def isOversized (cs : List Glyph) : Bool :=
  let size :=
    match cs with
    | '-' :: rest => rest
    | rest => rest
  size.head? != some (.char '0') && digitLimit < (size.takeWhile Glyph.isDigit).length

/-- The size of a number in its plain form: digits, not too many, of which the
first is zero only if it is the last. -/
def plainSize? (cs : List Glyph) : Option Nat :=
  if cs.isEmpty || !cs.all Glyph.isDigit || (cs.head? == some (.char '0') && cs != [.char '0']) ||
      digitLimit < cs.length then none
  else some (cs.foldl (fun n c => n * 10 + (c.code - '0'.toNat)) 0)

/-- A number in its plain form, with a sign if it is negative. -/
def plain? (cs : List Glyph) : Option Int :=
  match cs with
  | '-' :: digits => (plainSize? digits).map fun n => -(n : Int)
  | digits => (plainSize? digits).map fun n => (n : Int)

/-- What is left behind leading zeros and the underscores among them; `last` is
the last of those passed so far.  It stays where a point or the end follows it. -/
def behindZeros? (last : Glyph) : List Glyph → Option (List Glyph)
  | [] => some [last]
  | c :: rest =>
      if c = '0' ∨ c = '_' then behindZeros? c rest
      else if c.isDigit ∨ c = '-' then some (c :: rest)
      else if c = '.' then some (last :: c :: rest)
      else none

/-- An unsigned number without leading zeros.  It has to start with a digit. -/
def withoutZeros? : List Glyph → Option (List Glyph)
  | [] => none
  | c :: rest =>
      if c = '0' then behindZeros? c rest
      else if c.isDigit then some (c :: rest)
      else none

/-- A number without a fraction of zeros; any other fraction stays. -/
def withoutFraction (cs : List Glyph) : List Glyph :=
  match cs.span (· != .char '.') with
  | (whole, '.' :: zeros) => if !zeros.isEmpty && zeros.all (· == .char '0') then whole else cs
  | _ => cs

/-- Digits without the underscores between them.  Each has to stand alone and
inside. -/
def ungrouped? (cs : List Glyph) : Option (List Glyph) :=
  let groups := Text.splitAt '_' cs
  if groups.any List.isEmpty then none else some groups.flatten

/-- An unsigned number, tidied. -/
def tidiedSize? (cs : List Glyph) : Option (List Glyph) :=
  (withoutZeros? cs).bind fun digits => ungrouped? (withoutFraction digits)

/-- A number, tidied. -/
def tidied? (cs : List Glyph) : Option (List Glyph) :=
  match Text.trimWith Text.isSpacing cs with
  | '-' :: rest => (tidiedSize? rest).map ('-' :: ·)
  | '+' :: rest => tidiedSize? rest
  | rest => tidiedSize? rest

/-- A whole number given as text. -/
def integerText (s : Text) : Checked Int :=
  if !s.isPlain then .issue .looseText
  else if isOversized s.toList then .issue .integerSize
  else
    match (tidied? s.toList).bind plain? with
    | some n => .ok n
    | none => .issue .notIntegerText

/-- A whole number: as such, as a truth value, as a double without a fraction
that fits into 64 bits, or as text. -/
def integer : Json → Checked Int
  | .int n => .ok n
  | .bool b => .ok (if b then 1 else 0)
  | .real d =>
      match d with
      | .finite _ _ _ =>
          match d.toInt? with
          | none => .issue .fraction
          | some n =>
              if -wordBound < n ∧ n < wordBound then .ok n else .issue .integerSize
      | _ => .issue .notFinite
  | .text s => integerText s
  | _ => .issue .notInteger

/-- A whole number that is not negative. -/
def count (value : Json) : Checked Nat :=
  match integer value with
  | .error issues => .error issues
  | .ok n => if n < 0 then .issue .negative else .ok n.toNat

end Check

end ShellGloss
