/-
Module: ShellGloss.Node.Format
Purpose: Nodes and responses as JSON values: writing them, and checking values
  from outside.
Imports: ShellGloss.Check, ShellGloss.Line
Main exports:
  Node.toJson, Node.check, Response.toJson, Response.check
-/
import ShellGloss.Check
import ShellGloss.Line

namespace ShellGloss

/-! ### Writing -/

/-- A command's members. -/
def CommandInfo.toJson (info : CommandInfo) : Json :=
  .object [("name", .text info.name), ("summary", .text info.summary)]

/-- A group of aliases, null when it is missing. -/
def aliasesJson : Option (List Text) → Json
  | none => .null
  | some aliases => .texts aliases

/-- An option's members. -/
def OptionInfo.toJson (info : OptionInfo) : Json :=
  .object [("summary", .text info.summary), ("short", aliasesJson info.short),
    ("long", aliasesJson info.long)]

/-- The member that a content adds to a node. -/
def Content.member : Content → Text × Json
  | .program info | .subcommand info | .sudo info => ("command", info.toJson)
  | .option info | .stickyOption info => ("option", info.toJson)
  | .assignment word | .argument word => ("word", .text word)
  | .operator text => ("op", .text text)
  | .pipe text => ("pipe", .text text)

/-- A node's members: its span, its kind and what its kind adds. -/
def Node.toJson (node : Node) : Json :=
  .object [("start", .nat node.span.start), ("end", .nat node.span.stop),
    ("kind", .text node.kind.name), node.content.member]

/-- Groups of nodes, null when there are none. -/
def groupsJson : Option (List (List Node)) → Json
  | none => .null
  | some groups => .array (groups.map fun group => .array (group.map Node.toJson))

/-- A response's members. -/
def Response.toJson (response : Response) : Json :=
  .object [("query", .text response.query), ("leaf_nodes", groupsJson response.groups)]

/-! ### Checking -/

/-- A command's members, checked. -/
def CommandInfo.check (value : Json) : Checked CommandInfo :=
  match Check.members "CommandSchema" value with
  | .error issues => .error issues
  | .ok members =>
      (Checked.pair (Check.required members "name" Check.text)
        (Check.required members "summary" Check.text)).map
        fun (name, summary) => ⟨name, summary⟩

/-- An option's members, checked. -/
def OptionInfo.check (value : Json) : Checked OptionInfo :=
  match Check.members "OptionSchema" value with
  | .error issues => .error issues
  | .ok members =>
      (Checked.pair (Check.required members "summary" Check.text)
        (Checked.pair (Check.optional members "short" none Check.aliases)
          (Check.optional members "long" none Check.aliases))).map
        fun (summary, short, long) => ⟨summary, short, long⟩

/-- The member that a kind adds, checked. -/
def Content.check (members : Json.Members) : Kind → Checked Content
  | .program => (Check.required members "command" CommandInfo.check).map .program
  | .subcommand => (Check.required members "command" CommandInfo.check).map .subcommand
  | .sudo => (Check.required members "command" CommandInfo.check).map .sudo
  | .option => (Check.required members "option" OptionInfo.check).map .option
  | .stickyOption => (Check.required members "option" OptionInfo.check).map .stickyOption
  | .assignment => (Check.required members "word" Check.text).map .assignment
  | .argument => (Check.required members "word" Check.text).map .argument
  | .operator => (Check.required members "op" Check.text).map .operator
  | .pipe => (Check.required members "pipe" Check.text).map .pipe

/-- The members of a node of a kind, checked.  Whether the span ends before it
starts is asked only when every member is in order. -/
def Node.checkMembers (members : Json.Members) (kind : Kind) : Checked Node :=
  let fields :=
    Checked.pair (Check.required members "start" Check.count)
      (Checked.pair (Check.required members "end" Check.count)
        (Content.check members kind))
  match fields with
  | .error issues => .error issues
  | .ok (start, stop, content) =>
      if stop < start then .issue (.reversedSpan stop start)
      else .ok ⟨⟨start, stop - start⟩, content⟩

/-- The kind that a node's tag names. -/
def Kind.ofTag? : Json → Option Kind
  | .text name => Kind.ofName? name
  | _ => none

/-- A node, checked: its kind decides which members it needs, and its issues lie
behind the name of the kind. -/
def Node.check (value : Json) : Checked Node :=
  match value.members? with
  | none => .issue .notNode
  | some members =>
      match members.get? "kind" with
      | none => .issue .tagMissing
      | some tag =>
          match Kind.ofTag? tag with
          | none => .issue (.tagUnknown tag.display (Kind.all.map Kind.name))
          | some kind => .within (.name kind.name) (Node.checkMembers members kind)

/-- Groups of nodes, checked; null stands for none. -/
def checkGroups : Json → Checked (Option (List (List Node)))
  | .null => .ok none
  | value => (Check.list (Check.list Node.check) value).map some

/-- A response, checked. -/
def Response.check (value : Json) : Checked Response :=
  match Check.members "ExplainCommandResponse" value with
  | .error issues => .error issues
  | .ok members =>
      (Checked.pair (Check.required members "query" Check.text)
        (Check.optional members "leaf_nodes" none checkGroups)).map
        fun (query, groups) => ⟨query, groups⟩

/-- Nodes never change once made: the answer to setting a member of one. -/
def Node.setMember (_ : Node) (name : Text) (_ : Json) : Checked Node :=
  .within (.name name) (.issue .frozen)

end ShellGloss
