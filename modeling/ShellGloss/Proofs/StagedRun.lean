/-
Module: ShellGloss.Proofs.StagedRun
Purpose: The program as it is executed, put on a stage on which the prompts bring what a script
  says: it shows, keeps and returns what the scripted run does.
Imports: ShellGloss.App, ShellGloss.Proofs.SessionRun
Main exports:
  App.Stage, App.Stage.world, App.Launch.turn_staged, App.Launch.converseBy_staged,
  App.Stage.converse, App.Stage.loops_iff_eq_converse, enact_plays_run
-/
import ShellGloss.App
import ShellGloss.Proofs.SessionRun

namespace ShellGloss

namespace App

/-! ### The stage

The executable asks a `World` for everything, and its session is a loop without a bound whose
body is `Launch.converseBy`.  On the stage the world is a script.  Of the loop nothing is taken
but that equation, and what the program does there is compared with `App.run`.
-/

/-- A world that is a script: the outcomes that are left, how often the clock was read, what
was shown before each prompt and since the last one, and the files that were kept. -/
structure Stage where
  script : List PromptOutcome
  disk : Disk
  readings : Nat := 0
  turns : List Session.Turn := []
  shown : Output := .none

namespace Stage

/-- What the script brings next. -/
def next (stage : Stage) : PromptOutcome := stage.script.headD Session.exhausted

/-- The stage behind a prompt. -/
def prompted (stage : Stage) (message : Text) : Stage :=
  { stage with
    script := stage.script.tail
    turns := stage.turns ++ [⟨stage.shown, message⟩]
    shown := .none }

/-- The world of a stage. -/
def world (clock : Clock) : World (StateM Stage) where
  now := fun stage => (clock stage.readings, { stage with readings := stage.readings + 1 })
  prompt message := fun stage => (stage.next, stage.prompted message)
  emit output := fun stage => ((), { stage with shown := stage.shown ++ output })
  persist _ after := fun stage => ((), { stage with disk := after })

/-- The stage behind what was told: an output, and events whose log was kept. -/
def told (stage : Stage) (output : Output) (events : List Event) (disk : Disk) : Stage :=
  { stage with
    disk := disk
    readings := stage.readings + events.length
    shown := stage.shown ++ output }

end Stage

variable (clock : Clock)

/-! ### One step -/

theorem bind_staged {α β : Type} (action : StateM Stage α) (onward : α → StateM Stage β)
    (stage : Stage) :
    (action >>= onward) stage = onward (action stage).1 (action stage).2 := rfl

theorem Launch.record_staged (launch : Launch) (events : List Event) (stage : Stage) :
    launch.record (Stage.world clock) events stage =
      (launch.noteAll clock stage.readings events,
        { stage with readings := stage.readings + events.length }) := by
  induction events generalizing launch stage with
  | nil => rfl
  | cons event rest inductionHypothesis =>
      have behind := inductionHypothesis (launch.note (clock stage.readings) event)
        { stage with readings := stage.readings + 1 }
      rw [Nat.add_right_comm] at behind
      exact behind

theorem Launch.tell_staged (launch : Launch) (output : Output) (events : List Event)
    (stage : Stage) :
    launch.tell (Stage.world clock) output events stage =
      (launch.noteAll clock stage.readings events,
        stage.told output events (launch.noteAll clock stage.readings events).disk) := by
  have recorded := Launch.record_staged clock launch events stage
  exact congrArg (fun both =>
    (both.1, { both.2 with disk := both.1.disk, shown := both.2.shown ++ output })) recorded

/-- One turn is one reply of the session: what it shows is shown, what it tells is noted at the
times that the clock shows, and the log is kept. -/
theorem Launch.turn_staged (launch : Launch) (stage : Stage) :
    let reply := Session.answer launch.screen launch.catalog stage.next
    let noted := launch.noteAll clock stage.readings reply.events
    launch.turn (Stage.world clock) stage =
      ((reply.next, noted),
        (stage.prompted launch.screen.promptText).told reply.output reply.events noted.disk) := by
  intro reply noted
  have told := Launch.tell_staged clock launch reply.output reply.events
    (stage.prompted launch.screen.promptText)
  exact congrArg (fun both => ((reply.next, both.1), both.2)) told

/-- Behind a turn, what its reply shows is what stands on the screen. -/
theorem Stage.told_prompted (stage : Stage) (message : Text) (output : Output)
    (events : List Event) (disk : Disk) :
    (stage.prompted message).told output events disk =
      { script := stage.script.tail
        disk := disk
        readings := stage.readings + events.length
        turns := stage.turns ++ [⟨stage.shown, message⟩]
        shown := output } := by
  simp [Stage.told, Stage.prompted]

/-- A session goes on behind its next turn, or it is over. -/
theorem Launch.converseBy_staged (onward : Launch → StateM Stage (Launch × Option Failure))
    (launch : Launch) (stage : Stage) :
    let reply := Session.answer launch.screen launch.catalog stage.next
    let noted := launch.noteAll clock stage.readings reply.events
    let told := (stage.prompted launch.screen.promptText).told reply.output reply.events noted.disk
    launch.converseBy (Stage.world clock) onward stage =
      match reply.next with
      | .again => onward noted told
      | .stop => ((noted, none), told)
      | .fail failure => ((noted, some failure), told) := by
  intro reply noted told
  rw [Launch.converseBy, bind_staged, Launch.turn_staged]
  change (match reply.next with
    | .again => onward noted
    | .stop => return (noted, none)
    | .fail failure => return (noted, some failure) :
    StateM Stage (Launch × Option Failure)) told = _
  cases reply.next <;> rfl

/-! ### The whole session -/

/-- The stage behind a session: each turn took one outcome of the script. -/
def Stage.behind (stage : Stage) (session : Session.Transcript) (disk : Disk) : Stage :=
  { script := stage.script.drop session.turns.length
    disk := disk
    readings := stage.readings + session.events.length
    turns := stage.turns ++ session.turns
    shown := session.last }

/-- A session on a stage, by its transcript. -/
def Stage.converse (launch : Launch) : StateM Stage (Launch × Option Failure) := fun stage =>
  let session := Session.runFrom launch.screen launch.catalog stage.shown stage.script
  let noted := launch.noteAll clock stage.readings session.events
  ((noted, session.failure), stage.behind session noted.disk)

/-- The transcript of a session is that of its first turn and of the session behind it. -/
theorem Stage.converse_eq_converseBy (launch : Launch) :
    converse clock launch = launch.converseBy (world clock) (converse clock) := by
  funext stage
  rw [Launch.converseBy_staged, told_prompted, converse]
  obtain ⟨script, disk, readings, turns, shown⟩ := stage
  cases script with
  | nil => rfl
  | cons outcome rest =>
      simp only [next, List.headD_cons, List.tail_cons, Session.runFrom]
      generalize Session.answer launch.screen launch.catalog outcome = reply
      cases reply.next with
      | again =>
          simp [converse, behind, Session.resume, Launch.noteAll_append, Nat.add_assoc]
      | stop => rfl
      | fail failure => rfl

/-- On a stage there is just one session that goes on behind its next turn as behind any: the
end of the script ends it, so no other loop differs from the transcript. -/
theorem Stage.loops_iff_eq_converse
    {onward : Launch → StateM Stage (Launch × Option Failure)} :
    (∀ launch, onward launch = launch.converseBy (world clock) onward) ↔
      onward = converse clock := by
  refine ⟨fun loops => ?_, fun eq => eq ▸ converse_eq_converseBy clock⟩
  funext launch stage
  generalize isScript : stage.script = script
  induction script generalizing launch stage with
  | nil =>
      have atEnd : stage.next = Session.exhausted := by rw [next, isScript]; rfl
      rw [loops, converse_eq_converseBy, Launch.converseBy_staged, Launch.converseBy_staged, atEnd]
      rfl
  | cons outcome rest inductionHypothesis =>
      rw [loops, converse_eq_converseBy, Launch.converseBy_staged, Launch.converseBy_staged]
      generalize Session.answer launch.screen launch.catalog stage.next = reply
      cases reply.next with
      | again =>
          refine inductionHypothesis _ _ ?_
          rw [told_prompted, isScript]
          rfl
      | stop => rfl
      | fail failure => rfl

/-! ### The whole run -/

theorem Launch.serve_staged (launch : Launch) (stage : Stage)
    {onward : Launch → StateM Stage (Launch × Option Failure)}
    (loops : ∀ launch, onward launch = launch.converseBy (Stage.world clock) onward) :
    launch.serve (Stage.world clock) onward stage =
      match launch.arguments.query with
      | some query =>
          let explained := ShellGloss.explain launch.screen launch.catalog (Text.trim query)
          let noted := launch.noteAll clock stage.readings explained.events
          ((noted, none), stage.told explained.output explained.events noted.disk)
      | none =>
          Stage.converse clock launch
            { stage with shown := stage.shown ++ launch.screen.bannerText } := by
  rw [(Stage.loops_iff_eq_converse clock).mp loops, Launch.serve]
  cases launch.arguments.query with
  | some query =>
      let explained := ShellGloss.explain launch.screen launch.catalog (Text.trim query)
      have told := Launch.tell_staged clock launch explained.output explained.events stage
      exact congrArg (fun both => ((both.1, none), both.2)) told
  | none => rfl

theorem enact_staged (around : Surroundings) (disk : Disk) (argv : List Text) (stage : Stage)
    (converse : Launch → StateM Stage (Launch × Option Failure)) :
    enact (Stage.world clock) converse around disk argv stage =
      let awake := { stage with readings := stage.readings + 1 }
      match start around (clock stage.readings) disk argv with
      | .over closing => (closing, { awake with disk := closing.disk })
      | .ready launch =>
          let ((served, failure), behind) :=
            launch.serve (Stage.world clock) converse { awake with disk := launch.disk }
          let closing := finish served (clock behind.readings) failure
          (closing, { behind with readings := behind.readings + 1, disk := closing.disk }) := by
  rw [enact, bind_staged]
  change (match start around (clock stage.readings) disk argv with
    | .over closing => _
    | .ready launch => _ : StateM Stage Closing) _ = _
  cases start around (clock stage.readings) disk argv <;> rfl

end App

/-- The program shows before each prompt, leaves in the files and ends in what the run by the
script says.  Its loop is known by nothing but its equation. -/
theorem enact_plays_run (clock : Clock) (around : Surroundings) (disk : Disk) (argv : List Text)
    (script : List PromptOutcome)
    {converse : App.Launch → StateM App.Stage (App.Launch × Option Failure)}
    (loops : ∀ launch, converse launch = launch.converseBy (App.Stage.world clock) converse) :
    let run := App.run around clock disk argv script
    let played := App.enact (App.Stage.world clock) converse around disk argv { script, disk }
    played.2.turns = run.turns ∧
      { played.1 with output := played.2.shown ++ played.1.output } = run.closing ∧
      played.2.disk = run.closing.disk := by
  intro run played
  simp only [run, played, App.run, App.enact_staged]
  cases App.start around (clock 0) disk argv with
  | «over» closing => simp
  | ready launch =>
      simp only [App.Launch.serve_staged clock launch _ loops]
      cases launch.arguments.query with
      | some query => simp [App.Launch.complete, App.Stage.told]
      | none => simp [App.Launch.complete, App.Stage.converse, App.Stage.behind, Session.run]

end ShellGloss
