/-
Module: ShellGloss.Catalog.Format
Purpose: Catalogs as JSON values: writing them, and checking values from
  outside.
Imports: ShellGloss.Catalog.Basic, ShellGloss.Check
Main exports:
  Catalog.toJson, Catalog.check
-/
import ShellGloss.Catalog.Basic
import ShellGloss.Check

namespace ShellGloss

/-! ### Writing -/

/-- An option's members. -/
def OptionEntry.toJson (entry : OptionEntry) : Json :=
  .object [("summary", .text entry.summary), ("short", .texts entry.short),
    ("long", .texts entry.long), ("takes_value", .bool entry.takesValue)]

mutual

/-- A command's members. -/
def CommandEntry.toJson : CommandEntry → Json
  | ⟨name, summary, options, subcommands⟩ =>
      .object [("name", .text name), ("summary", .text summary),
        ("options", .array (options.map OptionEntry.toJson)),
        ("subcommands", .array (CommandEntry.listJson subcommands))]

/-- A list of commands. -/
def CommandEntry.listJson : List CommandEntry → List Json
  | [] => []
  | entry :: rest => entry.toJson :: CommandEntry.listJson rest

end

/-- A catalog's members. -/
def Catalog.toJson (catalog : Catalog) : Json :=
  .object [("commands", .array (CommandEntry.listJson catalog.commands))]

/-! ### Checking -/

/-- An option's members, checked. -/
def OptionEntry.check (value : Json) : Checked OptionEntry :=
  match Check.members "OptionEntry" value with
  | .error issues => .error issues
  | .ok members =>
      (Checked.pair (Check.required members "summary" Check.text)
        (Checked.pair (Check.optional members "short" [] (Check.list Check.text))
          (Checked.pair (Check.optional members "long" [] (Check.list Check.text))
            (Check.optional members "takes_value" false Check.flag)))).map
        fun (summary, short, long, takesValue) => ⟨summary, short, long, takesValue⟩

/-- How deep commands may be nested, a command of the catalog itself being the
first level. -/
def CommandEntry.nestingLimit : Nat := 254

/-- A command's members, checked.  The first argument is the number of levels
that are left: where there are none, the value is refused without a look at
it. -/
def CommandEntry.checkWithin : Nat → Json → Checked CommandEntry
  | 0, _ => .issue .tooDeep
  | levels + 1, value =>
      match Check.members "CommandEntry" value with
      | .error issues => .error issues
      | .ok members =>
          (Checked.pair (Check.required members "name" Check.text)
            (Checked.pair (Check.required members "summary" Check.text)
              (Checked.pair
                (Check.optional members "options" [] (Check.list OptionEntry.check))
                (Check.optional members "subcommands" []
                  (Check.list (CommandEntry.checkWithin levels)))))).map
            fun (name, summary, options, subcommands) =>
              ⟨name, summary, options, subcommands⟩

/-- A command, checked. -/
def CommandEntry.check (value : Json) : Checked CommandEntry :=
  CommandEntry.checkWithin CommandEntry.nestingLimit value

/-- A catalog, checked. -/
def Catalog.check (value : Json) : Checked Catalog :=
  match Check.members "Knowledge" value with
  | .error issues => .error issues
  | .ok members =>
      (Check.optional members "commands" [] (Check.list CommandEntry.check)).map
        fun commands => ⟨commands⟩

end ShellGloss
