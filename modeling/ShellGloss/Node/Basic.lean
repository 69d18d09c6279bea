/-
Module: ShellGloss.Node.Basic
Purpose: The parts that a command line is explained by, each with the span of
  text it covers.
Imports: ShellGloss.Text.Basic
Main exports:
  Span, Kind, CommandInfo, OptionInfo, Content, Node, Leaf
-/
import ShellGloss.Text.Basic

namespace ShellGloss

/-- A stretch of text by its first offset and its length.  It cannot end before
it starts. -/
structure Span where
  start : Nat
  length : Nat
deriving Repr, Inhabited, DecidableEq

/-- The offset behind the last character. -/
def Span.stop (span : Span) : Nat := span.start + span.length

/-- The same stretch further to the right. -/
def Span.shift (distance : Nat) (span : Span) : Span :=
  { span with start := span.start + distance }

@[simp] theorem Span.start_le_stop (span : Span) : span.start ≤ span.stop :=
  Nat.le_add_right _ _

/-- What a part of a command line is. -/
inductive Kind where
  | program
  | subcommand
  | sudo
  | option
  | stickyOption
  | assignment
  | argument
  | operator
  | pipe
deriving Repr, Inhabited, DecidableEq

namespace Kind

/-- Every kind, in the order they are listed to a user. -/
def all : List Kind :=
  [.program, .subcommand, .sudo, .option, .stickyOption, .assignment, .argument, .operator,
    .pipe]

/-- The written name of a kind. -/
def name : Kind → Text
  | .program => "program"
  | .subcommand => "subcommand"
  | .sudo => "sudo"
  | .option => "option"
  | .stickyOption => "sticky_option"
  | .assignment => "assignment"
  | .argument => "argument"
  | .operator => "operator"
  | .pipe => "pipe"

/-- The kind of a written name. -/
def ofName? (name : Text) : Option Kind :=
  all.find? (·.name == name)

/-- Names tell kinds apart. -/
@[simp] theorem ofName?_name (kind : Kind) : ofName? kind.name = some kind := by
  cases kind <;> decide +kernel

end Kind

/-- What is told about a command. -/
structure CommandInfo where
  name : Text
  summary : Text
deriving Repr, Inhabited, DecidableEq

/-- What is told about an option.  A group of aliases may be missing, which is
not the same as holding none. -/
structure OptionInfo where
  summary : Text
  short : Option (List Text) := none
  long : Option (List Text) := none
deriving Repr, Inhabited, DecidableEq

/-- What a node says about its span. -/
inductive Content where
  | program (info : CommandInfo)
  | subcommand (info : CommandInfo)
  | sudo (info : CommandInfo)
  | option (info : OptionInfo)
  | stickyOption (info : OptionInfo)
  | assignment (word : Text)
  | argument (word : Text)
  | operator (text : Text)
  | pipe (text : Text)
deriving Repr, Inhabited, DecidableEq

/-- The kind of a content. -/
def Content.kind : Content → Kind
  | .program _ => .program
  | .subcommand _ => .subcommand
  | .sudo _ => .sudo
  | .option _ => .option
  | .stickyOption _ => .stickyOption
  | .assignment _ => .assignment
  | .argument _ => .argument
  | .operator _ => .operator
  | .pipe _ => .pipe

/-- One part of a command line. -/
structure Node where
  span : Span
  content : Content
deriving Repr, Inhabited, DecidableEq

/-- The kind of a node. -/
def Node.kind (node : Node) : Kind := node.content.kind

/-- The same part further to the right. -/
def Node.shift (distance : Nat) (node : Node) : Node :=
  { node with span := node.span.shift distance }

/-- What a group of parts may hold: a node, or an object of no known kind, which
is passed over wherever it comes up. -/
inductive Leaf where
  | known (node : Node)
  | stray
deriving Repr, Inhabited, DecidableEq

/-- The node of a leaf. -/
def Leaf.node? : Leaf → Option Node
  | .known node => some node
  | .stray => none

/-- Whether a leaf is a node. -/
def Leaf.isKnown (leaf : Leaf) : Bool := leaf.node?.isSome

/-- Groups of leaves that hold nodes only. -/
def Leaf.ofGroups (groups : List (List Node)) : List (List Leaf) :=
  groups.map (·.map .known)

/-- The nodes of some groups in order, strays left out. -/
def Leaf.nodes (groups : List (List Leaf)) : List Node :=
  groups.flatten.filterMap Leaf.node?

@[simp] theorem Leaf.nodes_ofGroups (groups : List (List Node)) :
    Leaf.nodes (Leaf.ofGroups groups) = groups.flatten := by
  induction groups with
  | nil => rfl
  | cons group rest inductionHypothesis =>
      have here : (group.map Leaf.known).filterMap Leaf.node? = group := by
        induction group with
        | nil => rfl
        | cons node others innerHypothesis => simp [Leaf.node?, innerHypothesis]
      simp only [Leaf.nodes, Leaf.ofGroups, List.map_cons, List.flatten_cons,
        List.filterMap_append, here] at inductionHypothesis ⊢
      rw [inductionHypothesis]

end ShellGloss
