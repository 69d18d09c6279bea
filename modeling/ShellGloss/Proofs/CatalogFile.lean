/-
Module: ShellGloss.Proofs.CatalogFile
Purpose: A catalog whose text stands in a file is loaded from there as it is, whatever other
  members its objects have, as long as its commands are not nested too deep.
Imports: ShellGloss.Catalog.Load, ShellGloss.Proofs.JsonRoundTrip,
  ShellGloss.Proofs.Utf8RoundTrip
Main exports:
  Catalog.depth, Catalog.Settled, Catalog.DescribedBy, Catalog.check_reread,
  Catalog.depth_le_of_load, load_write_iff
-/
import ShellGloss.Catalog.Load
import ShellGloss.Proofs.JsonRoundTrip
import ShellGloss.Proofs.Utf8RoundTrip

namespace ShellGloss

/-! ### Nesting -/

mutual

/-- How many commands are nested one inside the other, a command itself counted. -/
def CommandEntry.depth : CommandEntry → Nat
  | ⟨_, _, _, subcommands⟩ => depthOfAll subcommands + 1

/-- The greatest depth of some commands. -/
def CommandEntry.depthOfAll : List CommandEntry → Nat
  | [] => 0
  | entry :: rest => max entry.depth (depthOfAll rest)

end

/-- How deep the commands of a catalog are nested. -/
def Catalog.depth (catalog : Catalog) : Nat := CommandEntry.depthOfAll catalog.commands

/-! ### Texts that can be written

A text in which two neighbouring halves belong together is read back as another one; texts of
characters alone are all settled.
-/

/-- The texts of an option are settled. -/
structure OptionEntry.Settled (entry : OptionEntry) : Prop where
  summary : entry.summary.Settled
  short : ∀ name ∈ entry.short, name.Settled
  long : ∀ name ∈ entry.long, name.Settled

mutual

/-- The texts of a command are settled, down to its last subcommand. -/
def CommandEntry.Settled : CommandEntry → Prop
  | ⟨name, summary, options, subcommands⟩ =>
      name.Settled ∧ summary.Settled ∧ (∀ entry ∈ options, entry.Settled) ∧
        AllSettled subcommands

/-- The texts of some commands are settled. -/
def CommandEntry.AllSettled : List CommandEntry → Prop
  | [] => True
  | entry :: others => entry.Settled ∧ AllSettled others

end

/-- The texts of a catalog are settled. -/
def Catalog.Settled (catalog : Catalog) : Prop := CommandEntry.AllSettled catalog.commands

/-! ### Values that describe a catalog

A member that the model of its object does not name may stand anywhere in an object, with any
value; the members that are named have to be there.
-/

/-- A value with the members of an option. -/
structure OptionEntry.DescribedBy (entry : OptionEntry) (value : Json) : Prop where
  summary : value.field? "summary" = some (.text entry.summary)
  short : value.field? "short" = some (.texts entry.short)
  long : value.field? "long" = some (.texts entry.long)
  takesValue : value.field? "takes_value" = some (.bool entry.takesValue)

mutual

/-- A value with the members of a command, which describe its options and subcommands. -/
def CommandEntry.DescribedBy : CommandEntry → Json → Prop
  | ⟨name, summary, options, subcommands⟩, value =>
      value.field? "name" = some (.text name) ∧
        value.field? "summary" = some (.text summary) ∧
        (∃ items, value.field? "options" = some (.array items) ∧
          List.Forall₂ OptionEntry.DescribedBy options items) ∧
        ∃ items, value.field? "subcommands" = some (.array items) ∧
          AllDescribedBy subcommands items

/-- Values that describe commands, one by one. -/
def CommandEntry.AllDescribedBy : List CommandEntry → List Json → Prop
  | [], items => items = []
  | entry :: others, items =>
      ∃ item rest, items = item :: rest ∧ entry.DescribedBy item ∧ AllDescribedBy others rest

end

/-- A value with the member of a catalog, which describes its commands. -/
def Catalog.DescribedBy (catalog : Catalog) (value : Json) : Prop :=
  ∃ items, value.field? "commands" = some (.array items) ∧
    CommandEntry.AllDescribedBy catalog.commands items

theorem OptionEntry.describedBy_toJson (entry : OptionEntry) : entry.DescribedBy entry.toJson :=
  ⟨rfl, rfl, rfl, rfl⟩

mutual

theorem CommandEntry.describedBy_toJson : ∀ entry : CommandEntry, entry.DescribedBy entry.toJson
  | ⟨name, summary, options, subcommands⟩ => by
      refine ⟨rfl, rfl, ⟨_, rfl, ?_⟩, ⟨_, rfl, allDescribedBy_listJson subcommands⟩⟩
      rw [List.forall₂_map_right_iff, List.forall₂_same]
      exact fun entry _ => entry.describedBy_toJson

theorem CommandEntry.allDescribedBy_listJson :
    ∀ entries : List CommandEntry, AllDescribedBy entries (listJson entries)
  | [] => rfl
  | entry :: others =>
      ⟨_, _, rfl, describedBy_toJson entry, allDescribedBy_listJson others⟩

end

theorem Catalog.describedBy_toJson (catalog : Catalog) : catalog.DescribedBy catalog.toJson :=
  ⟨_, rfl, CommandEntry.allDescribedBy_listJson catalog.commands⟩

/-! ### Checking parts -/

theorem Checked.within_eq_ok_iff {α : Type} {place : Place} {checked : Checked α} {a : α} :
    Checked.within place checked = .ok a ↔ checked = .ok a := by
  cases checked <;> simp [Checked.within]

theorem Checked.map_eq_ok_iff {α β : Type} {checked : Checked α} {f : α → β} {b : β} :
    checked.map f = .ok b ↔ ∃ a, checked = .ok a ∧ f a = b := by
  cases checked <;> simp [Except.map]

/-- The items of a list are accepted exactly when each is. -/
theorem Checked.listFrom_eq_ok_iff {α β : Type} {check : α → Checked β} {index : Nat}
    {items : List α} {values : List β} :
    Checked.listFrom check index items = .ok values ↔
      List.Forall₂ (fun item value => check item = .ok value) items values := by
  induction items generalizing index values with
  | nil =>
      rw [Checked.listFrom, List.forall₂_nil_left_iff, Except.ok.injEq, eq_comm]
  | cons item rest inductionHypothesis =>
      rw [Checked.listFrom, List.forall₂_cons_left_iff]
      constructor
      · intro accepted
        split at accepted
        next both =>
          cases accepted
          obtain ⟨first, others⟩ := Checked.pair_eq_ok_iff.mp both
          exact ⟨_, _, within_eq_ok_iff.mp first, inductionHypothesis.mp others, rfl⟩
        next => cases accepted
      · rintro ⟨value, others, first, behind, rfl⟩
        rw [Checked.pair_eq_ok_iff.mpr
          ⟨within_eq_ok_iff.mpr first, inductionHypothesis.mpr behind⟩]

theorem Check.list_eq_ok_iff {α : Type} {check : Json → Checked α} {value : Json}
    {values : List α} :
    Check.list check value = .ok values ↔
      ∃ items, value = .array items ∧
        List.Forall₂ (fun item value => check item = .ok value) items values := by
  cases value with
  | array items =>
      simp only [Check.list, Checked.list, Checked.listFrom_eq_ok_iff, Json.array.injEq,
        exists_eq_left']
  | _ => simp [Check.list, Checked.issue]

theorem Check.list_texts (items : List Text) :
    Check.list Check.text (.texts items) = .ok items := by
  rw [Check.list_eq_ok_iff]
  refine ⟨_, rfl, ?_⟩
  rw [List.forall₂_map_left_iff, List.forall₂_same]
  exact fun item _ => rfl

/-! ### Members of a value that was read -/

namespace Json

theorem Named.get?_reread {α : Type} [DecidableEq α] (members : Named α) (name : α) :
    Named.get? (members.map fun member => (member.1, member.2.reread)) name =
      (members.get? name).map reread := by
  induction members with
  | nil => rfl
  | cons member others inductionHypothesis =>
      rw [List.map_cons, get?, get?, inductionHypothesis]
      split <;> rfl

theorem members?_reread (value : Json) :
    value.reread.members? =
      value.members?.map (List.map fun member => (member.1, member.2.reread)) := by
  cases value with
  | object members => rw [reread, members?, members?, Option.map_some]
  | _ => rw [reread]; rfl

theorem field?_reread (value : Json) (name : Text) :
    value.reread.field? name = (value.field? name).map reread := by
  rw [field?, field?, members?_reread]
  cases value.members? with
  | none => rfl
  | some members => exact Named.get?_reread members name

@[simp] theorem reread_text (s : Text) : (Json.text s).reread = .text s := by
  rw [reread]

@[simp] theorem reread_bool (flag : Bool) : (Json.bool flag).reread = .bool flag := by
  rw [reread]

@[simp] theorem reread_array (items : List Json) :
    (Json.array items).reread = .array (items.map reread) := by
  rw [reread]

@[simp] theorem reread_texts (items : List Text) : (Json.texts items).reread = .texts items := by
  simp [texts]

end Json

/-- A member of a value as the check of its model finds it. -/
theorem Check.exists_members {value item : Json} {name : Text}
    (isMember : value.field? name = some item) (model : Text) :
    ∃ members, Check.members model value = .ok members ∧
      ∀ other, members.get? other = value.field? other := by
  unfold Json.field? at isMember ⊢
  unfold Check.members
  cases isObject : value.members? with
  | none => rw [isObject] at isMember; cases isMember
  | some members => exact ⟨members, rfl, fun other => rfl⟩

theorem Check.required_of_get? {α : Type} {members : Json.Members} {name : Text} {item : Json}
    {check : Json → Checked α} {a : α} (isMember : members.get? name = some item)
    (accepted : check item = .ok a) : Check.required members name check = .ok a := by
  rw [Check.required, isMember]
  exact Checked.within_eq_ok_iff.mpr accepted

theorem Check.optional_of_get? {α : Type} {members : Json.Members} {name : Text} {item : Json}
    {absent : α} {check : Json → Checked α} {a : α} (isMember : members.get? name = some item)
    (accepted : check item = .ok a) : Check.optional members name absent check = .ok a := by
  rw [Check.optional, isMember]
  exact Checked.within_eq_ok_iff.mpr accepted

theorem Check.text_text (s : Text) : Check.text (.text s) = .ok s := rfl

theorem Check.flag_bool (flag : Bool) : Check.flag (.bool flag) = .ok flag := rfl

/-! ### Checking what was read -/

theorem Json.field?_reread_of_some {value item : Json} {name : Text}
    (isMember : value.field? name = some item) :
    value.reread.field? name = some item.reread := by
  rw [field?_reread, isMember, Option.map_some]

theorem OptionEntry.check_reread {entry : OptionEntry} {value : Json}
    (described : entry.DescribedBy value) : OptionEntry.check value.reread = .ok entry := by
  have summary := Json.field?_reread_of_some described.summary
  have short := Json.field?_reread_of_some described.short
  have long := Json.field?_reread_of_some described.long
  have takesValue := Json.field?_reread_of_some described.takesValue
  obtain ⟨members, areMembers, sameFields⟩ := Check.exists_members summary "OptionEntry"
  rw [← sameFields] at summary short long takesValue
  rw [Json.reread_text] at summary
  rw [Json.reread_texts] at short long
  rw [Json.reread_bool] at takesValue
  rw [OptionEntry.check, areMembers]
  dsimp only
  rw [Check.required_of_get? summary (Check.text_text _),
    Check.optional_of_get? short (Check.list_texts _),
    Check.optional_of_get? long (Check.list_texts _),
    Check.optional_of_get? takesValue (Check.flag_bool _)]
  rfl

mutual

theorem CommandEntry.checkWithin_reread : ∀ (entry : CommandEntry) {value : Json} {levels : Nat},
    entry.DescribedBy value → entry.depth ≤ levels →
      CommandEntry.checkWithin levels value.reread = .ok entry
  | ⟨name, summary, options, subcommands⟩, value, 0, _, shallow => by
      rw [depth] at shallow
      omega
  | ⟨name, summary, options, subcommands⟩, value, levels + 1, described, shallow => by
      rw [depth, Nat.add_le_add_iff_right] at shallow
      -- Reading a text again replaces doubles alone, and no named member holds one.
      obtain ⟨isName, isSummary, ⟨optionItems, areOptions, eachOption⟩,
        ⟨commandItems, areCommands, eachCommand⟩⟩ := described
      have isName := Json.field?_reread_of_some isName
      have isSummary := Json.field?_reread_of_some isSummary
      have areOptions := Json.field?_reread_of_some areOptions
      have areCommands := Json.field?_reread_of_some areCommands
      obtain ⟨members, areMembers, sameFields⟩ := Check.exists_members isName "CommandEntry"
      rw [← sameFields] at isName isSummary areOptions areCommands
      rw [Json.reread_text] at isName isSummary
      rw [Json.reread_array] at areOptions areCommands
      have optionsChecked : Check.list OptionEntry.check (.array (optionItems.map Json.reread)) =
          .ok options := by
        rw [Check.list_eq_ok_iff]
        refine ⟨_, rfl, ?_⟩
        rw [List.forall₂_map_left_iff]
        exact eachOption.flip.imp fun item entry described => OptionEntry.check_reread described
      have commandsChecked := listed_reread subcommands eachCommand shallow
      rw [CommandEntry.checkWithin, areMembers]
      dsimp only
      rw [Check.required_of_get? isName (Check.text_text _),
        Check.required_of_get? isSummary (Check.text_text _),
        Check.optional_of_get? areOptions optionsChecked,
        Check.optional_of_get? areCommands commandsChecked]
      rfl

theorem CommandEntry.listed_reread : ∀ (entries : List CommandEntry) {items : List Json}
    {levels : Nat}, AllDescribedBy entries items → depthOfAll entries ≤ levels →
      Check.list (CommandEntry.checkWithin levels) (.array (items.map Json.reread)) = .ok entries
  | [], items, levels, described, _ => by
      rw [AllDescribedBy] at described
      subst described
      rfl
  | entry :: others, items, levels, described, shallow => by
      rw [depthOfAll, Nat.max_le] at shallow
      obtain ⟨item, rest, rfl, first, behind⟩ := described
      have firstChecked := checkWithin_reread entry first shallow.1
      have restChecked := listed_reread others behind shallow.2
      rw [Check.list_eq_ok_iff] at restChecked ⊢
      obtain ⟨_, ⟨rfl⟩, each⟩ := restChecked
      exact ⟨_, rfl, .cons firstChecked each⟩

end

theorem Catalog.check_reread {catalog : Catalog} {value : Json}
    (described : catalog.DescribedBy value)
    (shallow : catalog.depth ≤ CommandEntry.nestingLimit) :
    Catalog.check value.reread = .ok catalog := by
  obtain ⟨items, areCommands, each⟩ := described
  have areCommands := Json.field?_reread_of_some areCommands
  obtain ⟨members, areMembers, sameFields⟩ := Check.exists_members areCommands "Knowledge"
  rw [← sameFields, Json.reread_array] at areCommands
  have commandsChecked : Check.list CommandEntry.check (.array (items.map Json.reread)) =
      .ok catalog.commands :=
    CommandEntry.listed_reread catalog.commands each shallow
  rw [Catalog.check, areMembers]
  dsimp only
  rw [Check.optional_of_get? areCommands commandsChecked]
  rfl

/-! ### No deeper -/

theorem CommandEntry.depthOfAll_le_of_listed {check : Json → Checked CommandEntry}
    {members : Json.Members} {name : Text} {entries : List CommandEntry} {levels : Nat}
    (each : ∀ value entry, check value = .ok entry → entry.depth ≤ levels)
    (accepted : Check.optional members name [] (Check.list check) = .ok entries) :
    depthOfAll entries ≤ levels := by
  rw [Check.optional] at accepted
  split at accepted
  next =>
    cases accepted
    exact Nat.zero_le levels
  next =>
    rw [Checked.within_eq_ok_iff, Check.list_eq_ok_iff] at accepted
    obtain ⟨items, -, checked⟩ := accepted
    induction checked with
    | nil => exact Nat.zero_le levels
    | cons isEntry _ inductionHypothesis =>
        rw [depthOfAll, Nat.max_le]
        exact ⟨each _ _ isEntry, inductionHypothesis⟩

/-- A command that is accepted within a number of levels is nested no deeper. -/
theorem CommandEntry.depth_le_of_checkWithin (levels : Nat) :
    ∀ value entry, CommandEntry.checkWithin levels value = .ok entry → entry.depth ≤ levels := by
  induction levels with
  | zero =>
      intro value entry accepted
      cases accepted
  | succ levels inductionHypothesis =>
      intro value entry accepted
      rw [CommandEntry.checkWithin] at accepted
      split at accepted
      next => cases accepted
      next members _ =>
        obtain ⟨⟨name, summary, options, subcommands⟩, parts, rfl⟩ :=
          Checked.map_eq_ok_iff.mp accepted
        obtain ⟨-, parts⟩ := Checked.pair_eq_ok_iff.mp parts
        obtain ⟨-, parts⟩ := Checked.pair_eq_ok_iff.mp parts
        obtain ⟨-, areCommands⟩ := Checked.pair_eq_ok_iff.mp parts
        rw [depth, Nat.add_le_add_iff_right]
        exact depthOfAll_le_of_listed inductionHypothesis areCommands

theorem Catalog.depth_le_of_check {value : Json} {catalog : Catalog}
    (accepted : Catalog.check value = .ok catalog) :
    catalog.depth ≤ CommandEntry.nestingLimit := by
  rw [Catalog.check] at accepted
  split at accepted
  next => cases accepted
  next members _ =>
    obtain ⟨commands, areCommands, rfl⟩ := Checked.map_eq_ok_iff.mp accepted
    exact CommandEntry.depthOfAll_le_of_listed
      (CommandEntry.depth_le_of_checkWithin CommandEntry.nestingLimit) areCommands

/-- No file gives a catalog whose commands are nested deeper than the check allows. -/
theorem Catalog.depth_le_of_load {disk : Disk} {route : Route} {catalog : Catalog}
    (loaded : Catalog.load disk route = .ok catalog) :
    catalog.depth ≤ CommandEntry.nestingLimit := by
  rw [Catalog.load] at loaded
  split at loaded
  next => cases loaded
  next => cases loaded
  next bytes _ =>
    rw [Catalog.ofBytes] at loaded
    split at loaded
    next => cases loaded
    next text _ =>
      rw [Catalog.ofText] at loaded
      split at loaded
      next => cases loaded
      next => cases loaded
      next value _ =>
        split at loaded
        next accepted =>
          cases loaded
          exact depth_le_of_check accepted
        next => cases loaded

/-! ### Files -/

theorem Json.fitsWithin_text {s : Text} (settled : s.Settled) (levels : Nat) :
    (Json.text s).FitsWithin levels := by
  rw [FitsWithin]
  exact settled

theorem Json.fitsWithin_bool (flag : Bool) (levels : Nat) :
    (Json.bool flag).FitsWithin levels := by
  rw [FitsWithin]
  trivial

theorem Json.fitsWithin_texts {items : List Text} (settled : ∀ s ∈ items, s.Settled)
    (levels : Nat) : (Json.texts items).FitsWithin (levels + 1) := by
  intro item isThere
  obtain ⟨s, isText, rfl⟩ := List.mem_map.mp isThere
  exact fitsWithin_text (settled s isText) levels

/-- A member that is named in characters fits where its value does. -/
theorem Json.fitsWithin_member {item : Json} {levels : Nat} (fits : item.FitsWithin levels)
    (name : String) : (name : Text).Settled ∧ item.FitsWithin levels :=
  ⟨Text.settled_ofString name, fits⟩

theorem OptionEntry.fitsWithin_toJson {entry : OptionEntry} (settled : entry.Settled)
    (levels : Nat) : entry.toJson.FitsWithin (levels + 2) := by
  refine ⟨by simp, ?_⟩
  simp only [List.forall_mem_cons, List.not_mem_nil, false_imp_iff, implies_true, and_true]
  exact ⟨Json.fitsWithin_member (Json.fitsWithin_text settled.summary _) _,
    Json.fitsWithin_member (Json.fitsWithin_texts settled.short _) _,
    Json.fitsWithin_member (Json.fitsWithin_texts settled.long _) _,
    Json.fitsWithin_member (Json.fitsWithin_bool _ _) _⟩

mutual

/-- A command's text opens two containers for each level of its nesting, and two more for
the aliases of an option. -/
theorem CommandEntry.fitsWithin_toJson : ∀ (entry : CommandEntry) {levels : Nat},
    entry.Settled → entry.depth ≤ levels → entry.toJson.FitsWithin (2 * levels + 2)
  | ⟨name, summary, options, subcommands⟩, 0, _, shallow => by
      rw [depth] at shallow
      omega
  | ⟨name, summary, options, subcommands⟩, levels + 1, settled, shallow => by
      rw [depth, Nat.add_le_add_iff_right] at shallow
      obtain ⟨settledName, settledSummary, settledOptions, settledCommands⟩ := settled
      refine ⟨by simp, ?_⟩
      simp only [List.forall_mem_cons, List.not_mem_nil, false_imp_iff, implies_true, and_true]
      refine ⟨Json.fitsWithin_member (Json.fitsWithin_text settledName _) _,
        Json.fitsWithin_member (Json.fitsWithin_text settledSummary _) _,
        Json.fitsWithin_member ?_ _,
        Json.fitsWithin_member (fitsWithin_listJson subcommands settledCommands shallow) _⟩
      intro item isThere
      obtain ⟨entry, isEntry, rfl⟩ := List.mem_map.mp isThere
      exact OptionEntry.fitsWithin_toJson (settledOptions entry isEntry) (2 * levels)

theorem CommandEntry.fitsWithin_listJson : ∀ (entries : List CommandEntry) {levels : Nat},
    AllSettled entries → depthOfAll entries ≤ levels →
      (Json.array (listJson entries)).FitsWithin (2 * levels + 3)
  | [], levels, _, _ => by
      intro item isThere
      cases isThere
  | entry :: others, levels, settled, shallow => by
      rw [depthOfAll, Nat.max_le] at shallow
      have first := fitsWithin_toJson entry settled.1 shallow.1
      have behind := fitsWithin_listJson others settled.2 shallow.2
      exact List.forall_mem_cons.mpr ⟨first, behind⟩

end

theorem Catalog.fitsWithin_toJson {catalog : Catalog} {levels : Nat} (settled : catalog.Settled)
    (shallow : catalog.depth ≤ levels) : catalog.toJson.FitsWithin (2 * levels + 4) := by
  refine ⟨by simp, List.forall_mem_singleton.mpr ?_⟩
  exact Json.fitsWithin_member
    (CommandEntry.fitsWithin_listJson catalog.commands settled shallow) _

theorem Catalog.load_of_read {disk : Disk} {route : Route} {catalog : Catalog} {value : Json}
    {asciiOnly : Bool} (described : catalog.DescribedBy value)
    (fits : value.FitsWithin Json.nestingLimit)
    (shallow : catalog.depth ≤ CommandEntry.nestingLimit)
    (stored : disk.read route = .ok (Text.Utf8.encode (value.write (.wide asciiOnly)))) :
    Catalog.load disk route = .ok catalog := by
  rw [Catalog.load, stored]
  dsimp only
  rw [Catalog.ofBytes, Text.Utf8.decode_encode]
  dsimp only
  rw [Json.unifyLineEnds_write fits, String.ofList_toList, Catalog.ofText, Json.read_write fits]
  dsimp only
  rw [Catalog.check_reread described shallow]

/-- A file that holds the text of a catalog gives the catalog back exactly if its commands are
nested no deeper than the check allows, and members that the models do not name make no
difference. -/
theorem load_write_iff (catalog : Catalog) (asciiOnly : Bool) (disk : Disk) (route : Route) :
    (catalog.Settled →
      disk.read route = .ok (Text.Utf8.encode (catalog.toJson.write (.wide asciiOnly))) →
        (Catalog.load disk route = .ok catalog ↔
          catalog.depth ≤ CommandEntry.nestingLimit)) ∧
    ∀ value, catalog.DescribedBy value → value.FitsWithin Json.nestingLimit →
      disk.read route = .ok (Text.Utf8.encode (value.write (.wide asciiOnly))) →
        (Catalog.load disk route = .ok catalog ↔
          catalog.depth ≤ CommandEntry.nestingLimit) := by
  refine ⟨?_, ?_⟩
  · intro settled stored
    refine ⟨Catalog.depth_le_of_load, ?_⟩
    intro shallow
    have fits : catalog.toJson.FitsWithin (2 * 493 + 4) :=
      Catalog.fitsWithin_toJson settled (shallow.trans (by decide))
    exact Catalog.load_of_read catalog.describedBy_toJson fits shallow stored
  · intro value described fits stored
    exact ⟨Catalog.depth_le_of_load, fun shallow =>
      Catalog.load_of_read described fits shallow stored⟩

/-- A tree with one file, right below the root. -/
def Disk.holding (name : Text) (bytes : List UInt8) : Disk := ⟨[(⟨[name]⟩, .file bytes)]⟩

theorem Disk.read_holding (bytes : List UInt8) :
    (Disk.holding "k.json" bytes).read ⟨"/", ["k.json"]⟩ = .ok bytes := by
  rfl

/-- A catalog with characters to escape and a pair of surrogates among its texts. -/
def Catalog.annotated : Catalog :=
  ⟨[⟨"gît", "two\nlines", [⟨"all", ["-a"], [], true⟩], [⟨"😀", "", [], []⟩]⟩]⟩

/-- What describes that catalog with a member too many in each object: half of a pair as the
name of a double, a whole number and a null. -/
def Catalog.annotatedValue : Json :=
  .object
    [(.singleton (.half 0), .real (.finite false 1 (-1))),
      ("commands", .array
        [.object
          [("since", .int (-3)), ("name", .text "gît"), ("summary", .text "two\nlines"),
            ("options", .array
              [.object
                [("summary", .text "all"), ("short", .texts ["-a"]), ("hidden", .null),
                  ("long", .texts []), ("takes_value", .bool true)]]),
            ("subcommands", .array [(CommandEntry.mk "😀" "" [] []).toJson])]])]

theorem Catalog.settled_annotated : Catalog.annotated.Settled := by
  have plain (s : String) : (s : Text).Settled := Text.settled_ofString s
  have option : (OptionEntry.mk "all" ["-a"] [] true).Settled :=
    ⟨plain _, List.forall_mem_singleton.mpr (plain _), List.forall_mem_nil _⟩
  have subcommand : (CommandEntry.mk "😀" "" [] []).Settled :=
    ⟨plain _, plain _, List.forall_mem_nil _, trivial⟩
  exact ⟨⟨plain _, plain _, List.forall_mem_singleton.mpr option, subcommand, trivial⟩, trivial⟩

theorem load_write_iff_annotated :
    Catalog.annotated.Settled ∧
      Catalog.load
        (.holding "k.json"
          (Text.Utf8.encode (Catalog.annotated.toJson.write (.wide true))))
        ⟨"/", ["k.json"]⟩ = .ok Catalog.annotated ∧
      Catalog.annotated.DescribedBy Catalog.annotatedValue ∧
      Catalog.annotatedValue.FitsWithin Json.nestingLimit ∧
      Catalog.load
        (.holding "k.json" (Text.Utf8.encode (Catalog.annotatedValue.write (.wide false))))
        ⟨"/", ["k.json"]⟩ = .ok Catalog.annotated := by
  have described : Catalog.annotated.DescribedBy Catalog.annotatedValue := by
    refine ⟨_, rfl, _, _, rfl, ⟨rfl, rfl, ⟨_, rfl, ?_⟩, ⟨_, rfl, ?_⟩⟩, rfl⟩
    · exact .cons ⟨rfl, rfl, rfl, rfl⟩ .nil
    · exact ⟨_, _, rfl, CommandEntry.describedBy_toJson _, rfl⟩
  have plain (s : String) : (s : Text).Settled := Text.settled_ofString s
  have settled := Catalog.settled_annotated
  have fits : Catalog.annotatedValue.FitsWithin Json.nestingLimit := by
    refine ⟨by decide, ?_⟩
    simp only [List.forall_mem_cons, List.not_mem_nil, false_imp_iff, implies_true, and_true]
    refine ⟨⟨.singleton _, trivial⟩, Json.fitsWithin_member ?_ _⟩
    refine List.forall_mem_singleton.mpr ⟨by simp, ?_⟩
    simp only [List.forall_mem_cons, List.not_mem_nil, false_imp_iff, implies_true, and_true]
    refine ⟨Json.fitsWithin_member (by rw [Json.FitsWithin]; decide) _,
      Json.fitsWithin_member (Json.fitsWithin_text (plain _) _) _,
      Json.fitsWithin_member (Json.fitsWithin_text (plain _) _) _,
      Json.fitsWithin_member ?_ _, Json.fitsWithin_member ?_ _⟩
    · refine List.forall_mem_singleton.mpr ⟨by simp, ?_⟩
      simp only [List.forall_mem_cons, List.not_mem_nil, false_imp_iff, implies_true, and_true]
      exact ⟨Json.fitsWithin_member (Json.fitsWithin_text (plain _) _) _,
        Json.fitsWithin_member
          (Json.fitsWithin_texts (List.forall_mem_singleton.mpr (plain _)) _) _,
        Json.fitsWithin_member (by rw [Json.FitsWithin]; trivial) _,
        Json.fitsWithin_member (Json.fitsWithin_texts (List.forall_mem_nil _) _) _,
        Json.fitsWithin_member (Json.fitsWithin_bool _ _) _⟩
    · have shallow : (CommandEntry.mk "😀" "" [] []).depth ≤ 492 := by decide
      exact List.forall_mem_singleton.mpr
        (CommandEntry.fitsWithin_toJson _ settled.1.2.2.2.1 shallow)
  have shallow : Catalog.annotated.depth ≤ CommandEntry.nestingLimit := by decide
  have writtenBack := (load_write_iff Catalog.annotated true _ _).1 settled
    (Disk.read_holding (Text.Utf8.encode (Catalog.annotated.toJson.write (.wide true))))
  have loaded := (load_write_iff Catalog.annotated false _ _).2 _ described fits
    (Disk.read_holding (Text.Utf8.encode (Catalog.annotatedValue.write (.wide false))))
  exact ⟨settled, writtenBack.mpr shallow, described, fits, loaded.mpr shallow⟩

/-- Commands nested one inside the other, so many of them below the first. -/
def CommandEntry.tower : Nat → CommandEntry
  | 0 => ⟨"x", "", [], []⟩
  | below + 1 => ⟨"x", "", [], [tower below]⟩

theorem CommandEntry.depth_tower (below : Nat) : (tower below).depth = below + 1 := by
  induction below with
  | zero => rfl
  | succ below inductionHypothesis =>
      rw [tower, depth, depthOfAll, depthOfAll, inductionHypothesis, Nat.max_zero]

theorem Catalog.depth_tower (below : Nat) : (Catalog.mk [.tower below]).depth = below + 1 := by
  rw [Catalog.depth, CommandEntry.depthOfAll, CommandEntry.depthOfAll,
    CommandEntry.depth_tower, Nat.max_zero]

theorem CommandEntry.settled_tower (below : Nat) : (tower below).Settled := by
  have plain (s : String) : (s : Text).Settled := Text.settled_ofString s
  induction below with
  | zero => exact ⟨plain _, plain _, List.forall_mem_nil _, trivial⟩
  | succ below inductionHypothesis =>
      exact ⟨plain _, plain _, List.forall_mem_nil _, inductionHypothesis, trivial⟩

/-- The catalog of 255 commands, each inside the one before it. -/
def Catalog.deep : Catalog := ⟨[.tower 254]⟩

/-- The text of 255 nested commands is one that can be read, but the catalog is not loaded
from it. -/
theorem load_deep_ne :
    Catalog.deep.Settled ∧
      Catalog.deep.toJson.FitsWithin Json.nestingLimit ∧
      (Disk.holding "k.json" (Text.Utf8.encode (Catalog.deep.toJson.write (.wide true)))).read
        ⟨"/", ["k.json"]⟩ = .ok (Text.Utf8.encode (Catalog.deep.toJson.write (.wide true))) ∧
      Catalog.load
        (.holding "k.json" (Text.Utf8.encode (Catalog.deep.toJson.write (.wide true))))
        ⟨"/", ["k.json"]⟩ ≠ .ok Catalog.deep := by
  have deep : Catalog.deep.depth = 255 := Catalog.depth_tower 254
  have settled : Catalog.deep.Settled := ⟨CommandEntry.settled_tower 254, trivial⟩
  refine ⟨settled, ?_, Disk.read_holding _, ?_⟩
  · have fits : Catalog.deep.toJson.FitsWithin (2 * 493 + 4) :=
      Catalog.fitsWithin_toJson settled (by omega)
    exact fits
  · intro loaded
    have shallow := Catalog.depth_le_of_load loaded
    rw [deep] at shallow
    exact absurd shallow (by decide)

end ShellGloss
