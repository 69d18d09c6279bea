/-
Module: ShellGloss.Proofs.CheckedNodes
Purpose: Which values are accepted as nodes, and that what a command line is read as is accepted
  and comes back as it is.
Imports: ShellGloss.Node.Format, ShellGloss.Proofs.CatalogFile, ShellGloss.Proofs.DocumentOrder
Main exports:
  Json.Gives, Node.GivenBy, Node.check_eq_ok_iff, Node.check_toJson, Response.check_toJson,
  check_respond
-/
import ShellGloss.Node.Format
import ShellGloss.Proofs.CatalogFile
import ShellGloss.Proofs.DocumentOrder

namespace ShellGloss

/-! ### Members of accepted values -/

/-- A value has a member that a check takes for something. -/
def Json.Gives {α : Type} (value : Json) (name : Text) (check : Json → Checked α) (a : α) :
    Prop :=
  ∃ item, value.field? name = some item ∧ check item = .ok a

/-- A value has such a member, or none of the name, and then it is the default. -/
def Json.GivesOr {α : Type} (value : Json) (name : Text) (absent : α)
    (check : Json → Checked α) (a : α) : Prop :=
  value.Gives name check a ∨ value.field? name = none ∧ a = absent

theorem Json.field?_eq_get? {value : Json} {members : Json.Members}
    (isObject : value.members? = some members) (name : Text) :
    value.field? name = members.get? name := by
  simp [Json.field?, isObject]

theorem Json.Gives.exists_members {α : Type} {value : Json} {name : Text}
    {check : Json → Checked α} {a : α} (gives : value.Gives name check a) :
    ∃ members, value.members? = some members := by
  obtain ⟨item, isMember, -⟩ := gives
  obtain ⟨members, isObject, -⟩ := Option.bind_eq_some_iff.mp isMember
  exact ⟨members, isObject⟩

theorem Json.Gives.unique {α : Type} {value : Json} {name : Text} {check : Json → Checked α}
    {a b : α} (one : value.Gives name check a) (other : value.Gives name check b) : a = b := by
  obtain ⟨item, isMember, accepted⟩ := one
  obtain ⟨_, sameMember, sameAccepted⟩ := other
  cases isMember.symm.trans sameMember
  exact Except.ok.inj (accepted.symm.trans sameAccepted)

namespace Check

variable {α : Type} {value : Json} {members : Json.Members} {name : Text}
  {check : Json → Checked α} {a : α}

theorem members_eq_ok_iff {model : Text} :
    Check.members model value = .ok members ↔ value.members? = some members := by
  cases isObject : value.members? <;> simp [Check.members, isObject, Checked.issue]

theorem required_eq_ok_iff (isObject : value.members? = some members) :
    Check.required members name check = .ok a ↔ value.Gives name check a := by
  rw [Check.required, Checked.within_eq_ok_iff, Json.Gives, Json.field?_eq_get? isObject]
  cases members.get? name <;> simp [Checked.issue]

theorem optional_eq_ok_iff (isObject : value.members? = some members) {absent : α} :
    Check.optional members name absent check = .ok a ↔ value.GivesOr name absent check a := by
  rw [Check.optional, Json.GivesOr, Json.Gives, Json.field?_eq_get? isObject]
  cases members.get? name with
  | none => simp [eq_comm]
  | some item => simp [Checked.within_eq_ok_iff]

/-- An offset is accepted exactly if it is a whole number that is not negative. -/
theorem count_eq_ok_iff {n : Nat} :
    Check.count value = .ok n ↔ Check.integer value = .ok (n : Int) := by
  rw [Check.count]
  cases Check.integer value with
  | error issues => simp
  | ok m =>
      by_cases negative : m < 0
      · simp only [negative, if_true, Checked.issue, reduceCtorEq, Except.ok.injEq, false_iff]
        omega
      · simp only [negative, if_false, Except.ok.injEq]
        omega

end Check

/-! ### Accepted nodes -/

/-- A command is accepted exactly if its two texts are given. -/
theorem CommandInfo.check_eq_ok_iff {value : Json} {info : CommandInfo} :
    CommandInfo.check value = .ok info ↔
      value.Gives "name" Check.text info.name ∧ value.Gives "summary" Check.text info.summary := by
  constructor
  · intro accepted
    unfold CommandInfo.check at accepted
    split at accepted
    next => cases accepted
    next members areMembers =>
      have isObject := Check.members_eq_ok_iff.mp areMembers
      obtain ⟨⟨name, summary⟩, parts, rfl⟩ := Checked.map_eq_ok_iff.mp accepted
      obtain ⟨isName, isSummary⟩ := Checked.pair_eq_ok_iff.mp parts
      exact ⟨(Check.required_eq_ok_iff isObject).mp isName,
        (Check.required_eq_ok_iff isObject).mp isSummary⟩
  · rintro ⟨isName, isSummary⟩
    obtain ⟨members, isObject⟩ := isName.exists_members
    unfold CommandInfo.check
    rw [Check.members_eq_ok_iff.mpr isObject]
    apply Checked.map_eq_ok_iff.mpr
    exact ⟨(info.name, info.summary), Checked.pair_eq_ok_iff.mpr
      ⟨(Check.required_eq_ok_iff isObject).mpr isName,
        (Check.required_eq_ok_iff isObject).mpr isSummary⟩, rfl⟩

/-- An option is accepted exactly if its summary is given, and each group of aliases is one or
left out. -/
theorem OptionInfo.check_eq_ok_iff {value : Json} {info : OptionInfo} :
    OptionInfo.check value = .ok info ↔
      value.Gives "summary" Check.text info.summary ∧
        value.GivesOr "short" none Check.aliases info.short ∧
        value.GivesOr "long" none Check.aliases info.long := by
  constructor
  · intro accepted
    unfold OptionInfo.check at accepted
    split at accepted
    next => cases accepted
    next members areMembers =>
      have isObject := Check.members_eq_ok_iff.mp areMembers
      obtain ⟨⟨summary, short, long⟩, parts, rfl⟩ := Checked.map_eq_ok_iff.mp accepted
      obtain ⟨isSummary, groups⟩ := Checked.pair_eq_ok_iff.mp parts
      obtain ⟨isShort, isLong⟩ := Checked.pair_eq_ok_iff.mp groups
      exact ⟨(Check.required_eq_ok_iff isObject).mp isSummary,
        (Check.optional_eq_ok_iff isObject).mp isShort,
        (Check.optional_eq_ok_iff isObject).mp isLong⟩
  · rintro ⟨isSummary, isShort, isLong⟩
    obtain ⟨members, isObject⟩ := isSummary.exists_members
    unfold OptionInfo.check
    rw [Check.members_eq_ok_iff.mpr isObject]
    apply Checked.map_eq_ok_iff.mpr
    refine ⟨(info.summary, info.short, info.long), ?_, rfl⟩
    apply Checked.pair_eq_ok_iff.mpr
    refine ⟨(Check.required_eq_ok_iff isObject).mpr isSummary, ?_⟩
    exact Checked.pair_eq_ok_iff.mpr ⟨(Check.optional_eq_ok_iff isObject).mpr isShort,
      (Check.optional_eq_ok_iff isObject).mpr isLong⟩

/-- The member in which a value gives a content.  Which one it is depends on the kind. -/
def Content.GivenBy (value : Json) : Content → Prop
  | .program info | .subcommand info | .sudo info => value.Gives "command" CommandInfo.check info
  | .option info | .stickyOption info => value.Gives "option" OptionInfo.check info
  | .assignment word | .argument word => value.Gives "word" Check.text word
  | .operator text => value.Gives "op" Check.text text
  | .pipe text => value.Gives "pipe" Check.text text

/-- A value that gives a node: its kind by name, its two offsets as whole numbers, and its
content. -/
structure Node.GivenBy (value : Json) (node : Node) : Prop where
  kind : value.field? "kind" = some (.text node.kind.name)
  start : value.Gives "start" Check.integer (node.span.start : Int)
  stop : value.Gives "end" Check.integer (node.span.stop : Int)
  content : node.content.GivenBy value

theorem Kind.ofTag?_eq_some_iff {tag : Json} {kind : Kind} :
    Kind.ofTag? tag = some kind ↔ tag = .text kind.name := by
  constructor
  · intro found
    cases tag with
    | text name =>
        have named := List.find?_some found
        exact congrArg Json.text (eq_of_beq named).symm
    | _ => cases found
  · rintro rfl
    exact Kind.ofName?_name kind

/-- One member decides on the content of each kind. -/
theorem Content.check_eq_ok_iff {value : Json} {members : Json.Members}
    (isObject : value.members? = some members) {kind : Kind} {content : Content} :
    Content.check members kind = .ok content ↔ content.kind = kind ∧ content.GivenBy value := by
  constructor
  · intro accepted
    cases kind <;>
      (obtain ⟨part, isPart, rfl⟩ := Checked.map_eq_ok_iff.mp accepted
       exact ⟨rfl, (Check.required_eq_ok_iff isObject).mp isPart⟩)
  · rintro ⟨rfl, given⟩
    cases content <;>
      exact Checked.map_eq_ok_iff.mpr ⟨_, (Check.required_eq_ok_iff isObject).mpr given, rfl⟩

theorem Node.checkMembers_eq_ok_iff {value : Json} {members : Json.Members}
    (isObject : value.members? = some members) {kind : Kind} {node : Node} :
    Node.checkMembers members kind = .ok node ↔
      node.kind = kind ∧ value.Gives "start" Check.integer (node.span.start : Int) ∧
        value.Gives "end" Check.integer (node.span.stop : Int) ∧ node.content.GivenBy value := by
  have offset {name : Text} {n : Nat} :
      Check.required members name Check.count = .ok n ↔
        value.Gives name Check.integer (n : Int) := by
    rw [Check.required_eq_ok_iff isObject]
    simp only [Json.Gives, Check.count_eq_ok_iff]
  constructor
  · intro accepted
    simp only [Node.checkMembers] at accepted
    split at accepted
    next => cases accepted
    next start stop content parts =>
      obtain ⟨isStart, parts⟩ := Checked.pair_eq_ok_iff.mp parts
      obtain ⟨isStop, isContent⟩ := Checked.pair_eq_ok_iff.mp parts
      obtain ⟨isKind, given⟩ := (Content.check_eq_ok_iff isObject).mp isContent
      split at accepted
      next => cases accepted
      next inOrder =>
        cases accepted
        have ends : start + (stop - start) = stop := by omega
        refine ⟨isKind, offset.mp isStart, ?_, given⟩
        rw [Span.stop, ends]
        exact offset.mp isStop
  · rintro ⟨isKind, isStart, isStop, given⟩
    have parts := Checked.pair_eq_ok_iff.mpr ⟨offset.mpr isStart, Checked.pair_eq_ok_iff.mpr
      ⟨offset.mpr isStop, (Content.check_eq_ok_iff isObject).mpr ⟨isKind, given⟩⟩⟩
    have inOrder : ¬ node.span.stop < node.span.start := Nat.not_lt.mpr node.span.start_le_stop
    have length : node.span.stop - node.span.start = node.span.length := Nat.add_sub_cancel_left _ _
    simp only [Node.checkMembers, parts, if_neg inOrder, length]

/-- A value is accepted as a node exactly if it gives the node. -/
theorem Node.check_eq_ok_iff {value : Json} {node : Node} :
    Node.check value = .ok node ↔ node.GivenBy value := by
  constructor
  · intro accepted
    unfold Node.check at accepted
    split at accepted
    next => cases accepted
    next members isObject =>
      split at accepted
      next => cases accepted
      next tag isTag =>
        split at accepted
        next => cases accepted
        next kind isKind =>
          obtain ⟨rfl, isStart, isStop, given⟩ :=
            (Node.checkMembers_eq_ok_iff isObject).mp (Checked.within_eq_ok_iff.mp accepted)
          rw [Kind.ofTag?_eq_some_iff] at isKind
          refine ⟨?_, isStart, isStop, given⟩
          rw [Json.field?_eq_get? isObject, isTag, isKind]
  · intro given
    obtain ⟨members, isObject⟩ := given.start.exists_members
    have isTag := given.kind
    rw [Json.field?_eq_get? isObject] at isTag
    unfold Node.check
    rw [isObject]
    dsimp only
    rw [isTag]
    dsimp only
    rw [Kind.ofTag?_eq_some_iff.mpr rfl]
    apply Checked.within_eq_ok_iff.mpr
    exact (Node.checkMembers_eq_ok_iff isObject).mpr ⟨rfl, given.start, given.stop, given.content⟩

/-! ### Written nodes -/

theorem CommandInfo.check_toJson (info : CommandInfo) :
    CommandInfo.check info.toJson = .ok info :=
  CommandInfo.check_eq_ok_iff.mpr ⟨⟨_, rfl, rfl⟩, ⟨_, rfl, rfl⟩⟩

theorem Check.aliases_aliasesJson (group : Option (List Text)) :
    Check.aliases (aliasesJson group) = .ok group := by
  cases group with
  | none => rfl
  | some listed =>
      have texts : Checked.list Check.text (listed.map .text) = .ok listed :=
        Check.list_texts listed
      simp [aliasesJson, Json.texts, Check.aliases, texts, Except.map]

theorem OptionInfo.check_toJson (info : OptionInfo) : OptionInfo.check info.toJson = .ok info := by
  apply OptionInfo.check_eq_ok_iff.mpr
  exact ⟨⟨_, rfl, rfl⟩, .inl ⟨_, rfl, Check.aliases_aliasesJson info.short⟩,
    .inl ⟨_, rfl, Check.aliases_aliasesJson info.long⟩⟩

theorem Content.givenBy_toJson (node : Node) : node.content.GivenBy node.toJson := by
  obtain ⟨span, content⟩ := node
  cases content with
  | program info => exact ⟨_, rfl, info.check_toJson⟩
  | subcommand info => exact ⟨_, rfl, info.check_toJson⟩
  | «sudo» info => exact ⟨_, rfl, info.check_toJson⟩
  | option info => exact ⟨_, rfl, info.check_toJson⟩
  | stickyOption info => exact ⟨_, rfl, info.check_toJson⟩
  | assignment word => exact ⟨_, rfl, rfl⟩
  | argument word => exact ⟨_, rfl, rfl⟩
  | operator text => exact ⟨_, rfl, rfl⟩
  | pipe text => exact ⟨_, rfl, rfl⟩

/-- A node that was written is accepted as it is. -/
theorem Node.check_toJson (node : Node) : Node.check node.toJson = .ok node :=
  Node.check_eq_ok_iff.mpr
    ⟨rfl, ⟨_, rfl, rfl⟩, ⟨_, rfl, rfl⟩, Content.givenBy_toJson node⟩

theorem checkGroups_groupsJson (groups : Option (List (List Node))) :
    checkGroups (groupsJson groups) = .ok groups := by
  cases groups with
  | none => rfl
  | some listed =>
      refine Checked.map_eq_ok_iff.mpr ⟨listed, ?_, rfl⟩
      refine Check.list_eq_ok_iff.mpr ⟨_, rfl, ?_⟩
      rw [List.forall₂_map_left_iff, List.forall₂_same]
      intro group _
      refine Check.list_eq_ok_iff.mpr ⟨_, rfl, ?_⟩
      rw [List.forall₂_map_left_iff, List.forall₂_same]
      exact fun node _ => node.check_toJson

/-- A response that was written is accepted as it is. -/
theorem Response.check_toJson (response : Response) :
    Response.check response.toJson = .ok response := by
  have isObject : response.toJson.members? = some _ := rfl
  unfold Response.check
  rw [Check.members_eq_ok_iff.mpr isObject]
  apply Checked.map_eq_ok_iff.mpr
  refine ⟨(response.query, response.groups), Checked.pair_eq_ok_iff.mpr ⟨?_, ?_⟩, rfl⟩
  · exact (Check.required_eq_ok_iff isObject).mpr ⟨_, rfl, rfl⟩
  · exact (Check.optional_eq_ok_iff isObject).mpr
      (.inl ⟨_, rfl, checkGroups_groupsJson response.groups⟩)

/-! ### Readings -/

/-- The nodes of a reading are neither empty nor reversed, and lie inside the line. -/
theorem parse_bounds {catalog : Catalog} {query : Text} {groups : List (List Node)}
    (parsed : parse catalog query = some groups) :
    ∀ node ∈ groups.flatten, node.span.start < node.span.stop ∧ node.span.stop ≤ query.length := by
  obtain ⟨list, lexed, -, rfl⟩ := parse_eq_some_iff.mp parsed
  have ordered := Line.inOrder_flatten (Line.groups_fill_lexemes catalog lexed)
    (lexemes_inOrder lexed)
  intro node among
  exact (ordered.bounds node.span (List.mem_map_of_mem among)).2

/-- What a line is read as is accepted as it is, since its nodes all lie the right way round.
And whatever value is accepted as a node has offsets that are in order and not negative, names
the kind of the node and gives its content, and the node that it gives is accepted again. -/
theorem check_respond (catalog : Catalog) (query : Text) :
    Response.check (respond catalog query).toJson = .ok (respond catalog query) ∧
    (∀ groups, parse catalog query = some groups → ∀ node ∈ groups.flatten,
      node.span.start < node.span.stop ∧ node.span.stop ≤ query.length) ∧
    ∀ value node, Node.check value = .ok node →
      (∀ start stop : Int, value.Gives "start" Check.integer start →
        value.Gives "end" Check.integer stop → 0 ≤ start ∧ start ≤ stop) ∧
      node.GivenBy value ∧ Node.check node.toJson = .ok node := by
  refine ⟨(respond catalog query).check_toJson, fun groups => parse_bounds, ?_⟩
  intro value node accepted
  have given := Node.check_eq_ok_iff.mp accepted
  refine ⟨?_, given, node.check_toJson⟩
  intro start stop isStart isStop
  have sameStart := isStart.unique given.start
  have sameStop := isStop.unique given.stop
  have inOrder := node.span.start_le_stop
  omega

/-- A value for a node with a truth value and a text in place of its offsets, an empty group of
aliases, a missing one, and a member that no node has. -/
def Node.roundabout : Json :=
  .object
    [("end", .text " +1_0.0"), ("note", .null), ("kind", .text "option"), ("start", .bool true),
      ("option", .object [("summary", .text "all"), ("short", .texts [])])]

theorem check_respond_roundabout :
    Node.check Node.roundabout = .ok ⟨⟨1, 9⟩, .option ⟨"all", some [], none⟩⟩ ∧
      Node.check (Node.toJson ⟨⟨1, 9⟩, .option ⟨"all", some [], none⟩⟩) =
        .ok ⟨⟨1, 9⟩, .option ⟨"all", some [], none⟩⟩ ∧
      (parse Catalog.bundled "tar -xfa b|wc").isSome = true ∧
      Response.check (respond Catalog.bundled "tar -xfa b|wc").toJson =
        .ok (respond Catalog.bundled "tar -xfa b|wc") := by
  have accepted : Node.check Node.roundabout =
      .ok ⟨⟨1, 9⟩, .option ⟨"all", some [], none⟩⟩ := by rfl
  obtain ⟨again, -, nodes⟩ := check_respond Catalog.bundled "tar -xfa b|wc"
  exact ⟨accepted, (nodes _ _ accepted).2.2, by decide +kernel, again⟩

end ShellGloss
