/-
Module: ShellGloss.Proofs.EventMessage
Purpose: An event on its way to the log.  It is handed on as a message, an object on one line,
  and read from there; what is read makes the entry of the event.
Imports: ShellGloss.Journal.Entry, ShellGloss.Proofs.JsonRoundTrip
Main exports:
  Json.Style.terse, messageMembers_write, Event.payload, Event.record, Event.Clear,
  Event.Countable, Event.Clear.entry_record, Event.Clear.entry_eq
-/
import ShellGloss.Journal.Entry
import ShellGloss.Proofs.JsonRoundTrip

namespace ShellGloss

/-! ### Messages -/

/-- No blanks at all, and characters as they are. -/
def Json.Style.terse : Style := ⟨",", ":", false⟩

theorem Json.Style.legible_terse : Style.terse.Legible :=
  ⟨⟨[], rfl, fun _ isThere => nomatch isThere⟩, ⟨[], rfl, fun _ isThere => nomatch isThere⟩⟩

theorem Json.Writing.exists_membersText_eq (style : Style) (members : Members) :
    ∃ front, membersText style members = front ++ ['\x7d'] := by
  induction members with
  | nil => exact ⟨[], by rw [membersText, List.nil_append]⟩
  | cons member others inductionHypothesis =>
      obtain ⟨name, item⟩ := member
      cases others with
      | nil => exact ⟨_, by rw [membersText]⟩
      | cons next rest =>
          obtain ⟨front, spelled⟩ := inductionHypothesis
          rw [membersText, spelled, ← List.append_assoc]
          exact ⟨_, rfl⟩

/-- Every object that is written passes for one. -/
theorem looksLikeObject_write (style : Json.Style) (members : Json.Members) :
    looksLikeObject ((Json.object members).write style) = true := by
  obtain ⟨front, spelled⟩ := Json.Writing.exists_membersText_eq style members
  rw [looksLikeObject, Json.write, String.toList_ofList, Json.Writing.valueText, spelled]
  simp [List.getLast?_cons]

/-- The members of a message are those that were written, their doubles apart. -/
theorem messageMembers_write {style : Json.Style} (legible : style.Legible)
    {members : Json.Members} (fits : (Json.object members).FitsWithin Json.nestingLimit) :
    messageMembers ((Json.object members).write style) =
      .ok (some (members.map fun member => (member.1, member.2.reread))) := by
  rw [messageMembers, if_pos (looksLikeObject_write style members),
    Json.read_write_legible legible fits, Json.reread]
  rfl

/-! ### Events as messages -/

/-- The fields of an event as they are told. -/
def Event.told (event : Event) : Json.Members :=
  event.fields.map fun field => (field.1, field.2.toJson)

/-- All that is told of an event. -/
def Event.payload (stamp : String) (event : Event) : Json.Members :=
  ("ts", .text stamp) :: ("event", .text event.name) :: event.told

/-- The record that an event is handed on as. -/
def Event.record (stamp : String) (event : Event) : LogRecord :=
  { message := (Json.object (Json.Named.ofPairs (event.payload stamp))).write .terse
    level := event.level }

/-- A value that is told as a text, a truth value or a whole number. -/
def Datum.Simple : Datum → Prop
  | .bool _ | .int _ | .text _ | .path _ => True
  | _ => False

/-- The names that every entry starts from, and those that every event is told with. -/
def reservedNames : List Text := ["level", "logger", "ts", "event"]

/-- An event that is told in simple values, each under a name of its own. -/
structure Event.Clear (event : Event) : Prop where
  names : (reservedNames ++ event.fields.map (·.1)).Nodup
  simple : ∀ field ∈ event.fields, field.2.Simple

/-- An event of which no half of a surrogate pair is told. -/
def Event.Plain (event : Event) : Prop :=
  event.name.isPlain = true ∧
    ∀ field ∈ event.told, field.1.isPlain = true ∧ field.2.display.isPlain = true

/-- An event whose whole numbers are not too long to be read. -/
def Event.Countable (event : Event) : Prop :=
  ∀ name n, (name, Datum.int n) ∈ event.fields →
    (Nat.toDigits 10 n.natAbs).length ≤ Json.Reading.digitLimit

namespace Datum.Simple

variable {datum : Datum}

theorem toJson_cases (simple : datum.Simple) :
    (∃ flag, datum.toJson = .bool flag) ∨ (∃ n, datum = .int n ∧ datum.toJson = .int n) ∨
      ∃ s, datum.toJson = .text s := by
  cases datum with
  | bool flag => exact .inl ⟨flag, by rw [toJson]⟩
  | int n => exact .inr (.inl ⟨n, rfl, by rw [toJson]⟩)
  | text s => exact .inr (.inr ⟨s, by rw [toJson]⟩)
  | path s => exact .inr (.inr ⟨plainPath s, by rw [toJson]⟩)
  | _ => cases simple

theorem reread_toJson (simple : datum.Simple) : datum.toJson.reread = datum.toJson := by
  rcases simple.toJson_cases with ⟨flag, told⟩ | ⟨n, -, told⟩ | ⟨s, told⟩
  all_goals rw [told, Json.reread]

theorem isShown_toJson (simple : datum.Simple) : isShown datum.toJson = true := by
  rcases simple.toJson_cases with ⟨flag, told⟩ | ⟨n, -, told⟩ | ⟨s, told⟩
  all_goals
    rw [told]
    rfl

theorem fitsWithin_toJson (simple : datum.Simple) (levels : Nat)
    (plain : datum.toJson.display.isPlain = true)
    (short : ∀ n, datum = .int n → (Nat.toDigits 10 n.natAbs).length ≤ Json.Reading.digitLimit) :
    datum.toJson.FitsWithin levels := by
  rcases simple.toJson_cases with ⟨flag, told⟩ | ⟨n, isInt, told⟩ | ⟨s, told⟩
  · rw [told, Json.FitsWithin]
    trivial
  · rw [told, Json.FitsWithin]
    exact short n isInt
  · rw [told, Json.display_text] at plain
    rw [told, Json.FitsWithin]
    exact Text.settled_of_isPlain plain

end Datum.Simple

namespace Event

theorem map_fst_told (event : Event) : event.told.map (·.1) = event.fields.map (·.1) := by
  rw [told, List.map_map]
  rfl

theorem forall_mem_told {property : Text × Json → Prop} {event : Event}
    (each : ∀ field ∈ event.fields, property (field.1, field.2.toJson)) :
    ∀ member ∈ event.told, property member := by
  intro member isMember
  obtain ⟨field, isField, rfl⟩ := List.mem_map.mp isMember
  exact each field isField

/-- What holds of the two texts in front and of every value of an event holds of all that is
told of it. -/
theorem forall_mem_payload {property : Text × Json → Prop} {event : Event} {stamp : String}
    (ofStamp : property ("ts", .text stamp)) (ofName : property ("event", .text event.name))
    (each : ∀ field ∈ event.fields, property (field.1, field.2.toJson)) :
    ∀ member ∈ event.payload stamp, property member := by
  rw [payload, List.forall_mem_cons, List.forall_mem_cons]
  exact ⟨ofStamp, ofName, forall_mem_told each⟩

namespace Clear

variable {event : Event}

theorem names_payload (clear : event.Clear) (stamp : String) :
    ((event.payload stamp).map (·.1)).Nodup := by
  have behind := List.sublist_append_right (reservedNames.take 2)
    (reservedNames.drop 2 ++ event.fields.map (·.1))
  rw [← List.append_assoc, List.take_append_drop] at behind
  rw [payload, List.map_cons, List.map_cons, map_fst_told]
  exact clear.names.sublist behind

theorem reread_payload (clear : event.Clear) (stamp : String) :
    ((event.payload stamp).map fun member => (member.1, member.2.reread)) =
      event.payload stamp := by
  have same : ∀ member ∈ event.payload stamp, (member.1, member.2.reread) = id member := by
    apply forall_mem_payload
    · rw [Json.reread, id]
    · rw [Json.reread, id]
    · intro field isField
      rw [(clear.simple field isField).reread_toJson, id]
  rw [List.map_congr_left same, List.map_id]

theorem fitsWithin_payload (clear : event.Clear) (plain : event.Plain)
    (countable : event.Countable) (stamp : String) :
    (Json.object (event.payload stamp)).FitsWithin Json.nestingLimit := by
  rw [Json.nestingLimit, Json.FitsWithin]
  refine ⟨clear.names_payload stamp, forall_mem_payload ?_ ?_ ?_⟩
  · rw [Json.FitsWithin]
    exact ⟨Text.settled_ofString "ts", Text.settled_ofString stamp⟩
  · rw [Json.FitsWithin]
    exact ⟨Text.settled_ofString "event", Text.settled_of_isPlain plain.1⟩
  · intro field isField
    have told := plain.2 _ (List.mem_map_of_mem isField)
    refine ⟨Text.settled_of_isPlain told.1, ?_⟩
    apply (clear.simple field isField).fitsWithin_toJson _ told.2
    intro n isInt
    exact countable field.1 n (isInt ▸ isField)

/-- A message is read as it was meant: the record of a clear event makes the event's entry. -/
theorem entry_record (clear : event.Clear) (plain : event.Plain) (countable : event.Countable)
    (stamp : String) : (event.record stamp).entry = .ok (event.entry stamp) := by
  have distinct := Json.Named.ofPairs_eq_self (clear.names_payload stamp)
  have read := messageMembers_write Json.Style.legible_terse
    (clear.fitsWithin_payload plain countable stamp)
  rw [clear.reread_payload stamp] at read
  rw [LogRecord.entry, Event.record, distinct, read]
  rfl

end Clear

end Event

/-! ### Entries in order -/

/-- Whether one field may stand in front of another. -/
def precedes (one two : Text × Json) : Bool := !decide (two.1 < one.1)

theorem precedes_iff {one two : Text × Json} : precedes one two = true ↔ one.1 ≤ two.1 := by
  rw [precedes, Bool.not_eq_true', decide_eq_false_iff_not, Text.not_lt]

theorem pairwise_sortBy_precedes (fields : List (Text × Json)) :
    (sortBy precedes fields).Pairwise fun one two => one.1 ≤ two.1 := by
  have ordered : (sortBy precedes fields).Pairwise fun one two => precedes one two = true := by
    apply pairwise_sortBy
    · intro one two follows
      rw [← Bool.not_eq_true, precedes_iff] at follows
      rw [precedes_iff]
      exact (Text.le_total one.1 two.1).resolve_left follows
    · intro one two three first second
      rw [precedes_iff] at first second ⊢
      exact Text.le_trans first second
  exact ordered.imp precedes_iff.mp

/-- Fields have one arrangement in which the names go up. -/
theorem sortBy_precedes_eq {fields ordered : List (Text × Json)}
    (same : ordered.Perm fields) (goUp : (ordered.map (·.1)).Pairwise (· < ·)) :
    sortBy precedes fields = ordered := by
  have permuted := (perm_sortBy precedes fields).trans same.symm
  have distinct : (ordered.map (·.1)).Nodup := by
    apply goUp.imp
    rintro one two less rfl
    exact Text.lt_irrefl one less
  have inOrder : ordered.Pairwise fun one two => one.1 ≤ two.1 := by
    apply (List.pairwise_map.mp goUp).imp
    intro one two less
    exact Text.not_lt.mp (Text.lt_asymm less)
  -- Two fields that may stand either way round have one name, and so they are one.
  apply permuted.eq_of_pairwise _ (pairwise_sortBy_precedes fields) inOrder
  intro one two isOne isTwo below above
  have sameName := Text.le_antisymm below above
  exact List.inj_on_of_nodup_map distinct (permuted.mem_iff.mp isOne) isTwo sameName

/-- The fields that come first, in this order. -/
def leadingFields (stamp logger : Text) (level : Int) : Json.Members :=
  [("ts", .text stamp), ("level", .text (levelName level)), ("logger", .text logger)]

/-- Fields other than the leading ones, all of them shown, are put in order behind those. -/
theorem arrange_append {stamp logger : Text} {level : Int} {own : Json.Members}
    (shown : ∀ field ∈ own, isShown field.2 = true)
    (apart : ∀ field ∈ own, field.1 ∉ leadingNames) :
    arrange (baseFields logger level ++ (("ts" : Text), Json.text stamp) :: own) =
      leadingFields stamp logger level ++ sortBy precedes own := by
  have allShown : own.filter (fun field => isShown field.2) = own :=
    List.filter_eq_self.mpr shown
  have noneLeads : own.filter (fun field => !leadingNames.contains field.1) = own := by
    apply List.filter_eq_self.mpr
    intro field isField
    simpa using apart field isField
  have inFront : (baseFields logger level ++ [(("ts" : Text), Json.text stamp)]).filter
      (fun field => isShown field.2) =
        baseFields logger level ++ [(("ts" : Text), Json.text stamp)] := rfl
  rw [arrange, List.append_cons, List.filter_append, inFront, allShown, List.filter_append,
    noneLeads]
  rfl

/-- The entry of a clear event: its name, the time, the level and the logger, and then its own
fields by name. -/
theorem Event.Clear.entry_eq {event : Event} (clear : event.Clear) (stamp : String) :
    event.entry stamp =
      ⟨event.name,
        leadingFields stamp "root" event.level ++ sortBy precedes event.told, []⟩ := by
  -- No name is put twice, so nothing that is told replaces the level or the logger.
  have merged : (event.payload stamp).foldl (fun fields field => fields.put field.1 field.2)
      (baseFields "root" event.level) = baseFields "root" event.level ++ event.payload stamp := by
    apply Json.Named.foldl_put_eq_append
    rw [List.map_append, payload, List.map_cons, List.map_cons, map_fst_told]
    exact clear.names
  have apart : ∀ field ∈ event.told, field.1 ∉ reservedNames := by
    apply forall_mem_told
    intro field isField isOwn
    have different := (List.nodup_append.mp clear.names).2.2
    exact different field.1 isOwn field.1 (List.mem_map_of_mem isField) rfl
  have noneTitled : event.told.filter (fun field => field.1 != ("event" : Text)) = event.told := by
    apply List.filter_eq_self.mpr
    intro field isField
    have others := apart field isField
    simp only [reservedNames, List.mem_cons, not_or] at others
    simpa using others.2.2.2.1
  have shown : ∀ field ∈ event.told, isShown field.2 = true :=
    forall_mem_told fun field isField => (clear.simple field isField).isShown_toJson
  have noneLeads : ∀ field ∈ event.told, field.1 ∉ leadingNames := by
    intro field isField isLeading
    have leading : leadingNames ⊆ reservedNames := by decide
    exact apart field isField (leading isLeading)
  change Entry.ofFields "root" ((event.payload stamp).foldl _ _) [] = _
  rw [merged, Entry.ofFields, payload, ← arrange_append shown noneLeads]
  rw [List.filter_append, List.filter_cons, List.filter_cons, noneTitled]
  rfl

/-- The names of an event's own fields stand in order, and none stands twice. -/
theorem Event.Clear.pairwise_told {event : Event} (clear : event.Clear) :
    ((sortBy precedes event.told).map (·.1)).Pairwise (· < ·) := by
  have names := (perm_sortBy precedes event.told).map (·.1)
  rw [event.map_fst_told] at names
  have distinct := names.nodup_iff.mpr (List.nodup_append.mp clear.names).2.1
  have ordered := List.pairwise_map.mpr (pairwise_sortBy_precedes event.told)
  refine (ordered.and distinct).imp ?_
  rintro one two ⟨notAfter, different⟩
  apply Decidable.byContradiction
  intro notBefore
  exact different (Text.le_antisymm notAfter (Text.not_lt.mp notBefore))

end ShellGloss
