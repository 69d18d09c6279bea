/-
Module: ShellGloss.Proofs.SessionScript
Purpose: A session as its script tells it: the explanations of the lines that are typed up to
  the outcome that ends it, one after another, and nothing of what comes behind.
Imports: ShellGloss.Proofs.SessionRun
Main exports:
  Session.goesOn, Session.query?, Session.heeded, Session.stop, Session.queries_eq,
  Session.runFrom_append_stop, run_explains_in_turn
-/
import ShellGloss.Proofs.SessionRun

namespace ShellGloss

/-! ### The outcome that ends a session -/

/-- The failures by which a session is left in good order. -/
def PromptOutcome.leaves : PromptOutcome → Bool
  | .failed failure => failure.leaves
  | .line _ | .spoiled _ => false

/-- The failure that an outcome leaves a session with. -/
def PromptOutcome.failure? : PromptOutcome → Option Failure
  | .line _ => none
  | .failed failure => if failure.leaves then none else some failure
  | .spoiled failure => some failure

namespace Session

/-- Whether a session goes on behind an outcome: behind every line that is not one of the exit
words, in small letters and without the blanks around it. -/
def goesOn : PromptOutcome → Bool
  | .line raw => !isExit (Text.trim raw)
  | .failed _ | .spoiled _ => false

/-- The query of a line, which a blank one does not have. -/
def query? : PromptOutcome → Option Text
  | .line raw => if Text.trim raw = "" then none else some (Text.trim raw)
  | .failed _ | .spoiled _ => none

/-- The outcomes in front of the one that ends the session. -/
def heeded (script : List PromptOutcome) : List PromptOutcome := script.takeWhile goesOn

/-- The outcome that ends the session; where the script has none, the input ends behind it. -/
def stop (script : List PromptOutcome) : PromptOutcome :=
  (script.dropWhile goesOn).headD exhausted

/-- What an outcome can ask for, and what it means for the session. -/
theorem request_cases (outcome : PromptOutcome) :
    (request outcome = .nothing ∧ goesOn outcome = true ∧ query? outcome = none) ∨
    (∃ query, request outcome = .explanation query ∧ goesOn outcome = true ∧
      query? outcome = some query) ∨
    (request outcome = .exit ∧ goesOn outcome = false ∧ outcome.leaves = false ∧
      outcome.failure? = none) ∨
    (request outcome = .leave ∧ goesOn outcome = false ∧ outcome.leaves = true ∧
      outcome.failure? = none) ∨
    ∃ failure, request outcome = .fails failure ∧ goesOn outcome = false ∧
      outcome.leaves = false ∧ outcome.failure? = some failure := by
  cases outcome with
  | line raw =>
      by_cases blank : Text.trim raw = ""
      · have notExit : isExit "" = false := by decide
        refine .inl ?_
        simp [request, goesOn, query?, blank, notExit]
      · cases exits : isExit (Text.trim raw) with
        | false =>
            refine .inr (.inl ⟨Text.trim raw, ?_⟩)
            simp [request, goesOn, query?, blank, exits]
        | true =>
            refine .inr (.inr (.inl ?_))
            simp [request, goesOn, PromptOutcome.leaves, PromptOutcome.failure?, blank, exits]
  | failed failure =>
      cases leaves : failure.leaves with
      | true =>
          refine .inr (.inr (.inr (.inl ?_)))
          simp [request, goesOn, PromptOutcome.leaves, PromptOutcome.failure?, leaves]
      | false =>
          refine .inr (.inr (.inr (.inr ⟨failure, ?_⟩)))
          simp [request, goesOn, PromptOutcome.leaves, PromptOutcome.failure?, leaves]
  | spoiled failure => exact .inr (.inr (.inr (.inr ⟨failure, rfl, rfl, rfl, rfl⟩)))

theorem queries_eq (script : List PromptOutcome) :
    queries script = (heeded script).filterMap query? := by
  induction script with
  | nil => rfl
  | cons outcome rest inductionHypothesis =>
      rw [queries, heeded, List.takeWhile_cons]
      rcases request_cases outcome with ⟨asks, goes, noQuery⟩ | ⟨query, asks, goes, isQuery⟩ |
        ⟨asks, ends, -⟩ | ⟨asks, ends, -⟩ | ⟨failure, asks, ends, -⟩
      · simp [asks, goes, noQuery, inductionHypothesis, heeded]
      · simp [asks, goes, isQuery, inductionHypothesis, heeded]
      · simp [asks, ends]
      · simp [asks, ends]
      · simp [asks, ends]

/-- A blank line is shown last exactly if the session was left. -/
theorem parting_eq (script : List PromptOutcome) :
    parting script = if (stop script).leaves then .blankLine else .none := by
  induction script with
  | nil => rfl
  | cons outcome rest inductionHypothesis =>
      rw [parting, stop, List.dropWhile_cons]
      rcases request_cases outcome with ⟨asks, goes, -⟩ | ⟨query, asks, goes, -⟩ |
        ⟨asks, ends, leaves, -⟩ | ⟨asks, ends, leaves, -⟩ | ⟨failure, asks, ends, leaves, -⟩
      · simp [asks, goes, inductionHypothesis, stop]
      · simp [asks, goes, inductionHypothesis, stop]
      · simp [asks, ends, leaves]
      · simp [asks, ends, leaves]
      · simp [asks, ends, leaves]

theorem ending_eq (script : List PromptOutcome) :
    ending script = ((stop script).failure?, script.length - ((heeded script).length + 1)) := by
  induction script with
  | nil => rfl
  | cons outcome rest inductionHypothesis =>
      rw [ending, stop, heeded, List.dropWhile_cons, List.takeWhile_cons]
      rcases request_cases outcome with ⟨asks, goes, -⟩ | ⟨query, asks, goes, -⟩ |
        ⟨asks, ends, -, failure⟩ | ⟨asks, ends, -, failure⟩ | ⟨failure, asks, ends, -, isFailure⟩
      · simp [asks, goes, inductionHypothesis, stop, heeded]
      · simp [asks, goes, inductionHypothesis, stop, heeded]
      · simp [asks, ends, failure]
      · simp [asks, ends, failure]
      · simp [asks, ends, isFailure]

/-! ### Step by step -/

variable (screen : Screen) (catalog : Catalog)

theorem runFrom_cons_of_goesOn {outcome : PromptOutcome} (goes : goesOn outcome = true)
    (shown : Output) (rest : List PromptOutcome) :
    runFrom screen catalog shown (outcome :: rest) =
      resume ⟨shown, screen.promptText⟩ (answer screen catalog outcome)
        (runFrom screen catalog (answer screen catalog outcome).output rest) := by
  rw [runFrom, answer_eq_reply]
  rcases request_cases outcome with ⟨asks, -⟩ | ⟨query, asks, -⟩ | ⟨-, ends, -⟩ | ⟨-, ends, -⟩ |
    ⟨failure, -, ends, -⟩
  · rw [asks]
    rfl
  · rw [asks]
    rfl
  all_goals exact absurd (ends.symm.trans goes) Bool.false_ne_true

theorem runFrom_cons_of_ends {outcome : PromptOutcome} (ends : goesOn outcome = false)
    (shown : Output) (rest : List PromptOutcome) :
    runFrom screen catalog shown (outcome :: rest) =
      close ⟨shown, screen.promptText⟩ (answer screen catalog outcome) outcome.failure?
        rest.length := by
  rw [runFrom, answer_eq_reply]
  rcases request_cases outcome with ⟨-, goes, -⟩ | ⟨query, -, goes, -⟩ | ⟨asks, -, -, failure⟩ |
    ⟨asks, -, -, failure⟩ | ⟨failure, asks, -, -, isFailure⟩
  · exact absurd (ends.symm.trans goes) Bool.false_ne_true
  · exact absurd (ends.symm.trans goes) Bool.false_ne_true
  · rw [asks, failure]
    rfl
  · rw [asks, failure]
    rfl
  · rw [asks, isFailure]
    rfl

/-- A session prompts for every outcome up to the one that ends it, always in the same
words. -/
theorem prompts_runFrom (shown : Output) (script : List PromptOutcome) :
    (runFrom screen catalog shown script).turns.map Turn.prompt =
      List.replicate ((heeded script).length + 1) screen.promptText := by
  induction script generalizing shown with
  | nil => rfl
  | cons outcome rest inductionHypothesis =>
      cases goes : goesOn outcome with
      | true =>
          rw [runFrom_cons_of_goesOn screen catalog goes, heeded, List.takeWhile_cons_of_pos goes,
            List.length_cons, List.replicate_succ, ← heeded, ← inductionHypothesis]
          rfl
      | false =>
          rw [runFrom_cons_of_ends screen catalog goes, heeded,
            List.takeWhile_cons_of_neg (Bool.not_eq_true _ ▸ goes)]
          rfl

/-- What stands behind the outcome that ends a session is counted and has no other effect. -/
theorem runFrom_append_stop (shown : Output) {before : List PromptOutcome}
    {last : PromptOutcome} (goes : ∀ outcome ∈ before, goesOn outcome = true)
    (ends : goesOn last = false) (rest : List PromptOutcome) :
    runFrom screen catalog shown (before ++ last :: rest) =
      { runFrom screen catalog shown (before ++ [last]) with unread := rest.length } := by
  induction before generalizing shown with
  | nil =>
      rw [List.nil_append, List.nil_append, runFrom_cons_of_ends screen catalog ends,
        runFrom_cons_of_ends screen catalog ends]
      rfl
  | cons outcome others inductionHypothesis =>
      obtain ⟨here, goes⟩ := List.forall_mem_cons.mp goes
      rw [List.cons_append, List.cons_append, runFrom_cons_of_goesOn screen catalog here,
        runFrom_cons_of_goesOn screen catalog here, inductionHypothesis _ goes]
      rfl

/-- A script that runs out is one behind which the input ends. -/
theorem runFrom_append_exhausted (shown : Output) {script : List PromptOutcome}
    (goes : ∀ outcome ∈ script, goesOn outcome = true) :
    runFrom screen catalog shown (script ++ [exhausted]) = runFrom screen catalog shown script := by
  induction script generalizing shown with
  | nil => rfl
  | cons outcome others inductionHypothesis =>
      obtain ⟨here, goes⟩ := List.forall_mem_cons.mp goes
      rw [List.cons_append, runFrom_cons_of_goesOn screen catalog here,
        runFrom_cons_of_goesOn screen catalog here, inductionHypothesis _ goes]

/-- A session is the same whatever stands behind the outcome that ends it. -/
theorem run_heeded_append_stop (script rest : List PromptOutcome) :
    run screen catalog (heeded script ++ stop script :: rest) =
      { run screen catalog script with unread := rest.length } := by
  have goes : ∀ outcome ∈ heeded script, goesOn outcome = true :=
    List.all_eq_true.mp List.all_takeWhile
  have whole : heeded script ++ script.dropWhile goesOn = script :=
    List.takeWhile_append_dropWhile
  unfold run
  cases left : script.dropWhile goesOn with
  | nil =>
      have isStop : stop script = exhausted := by
        rw [stop, left]
        rfl
      rw [left, List.append_nil] at whole
      rw [isStop, runFrom_append_stop screen catalog _ goes rfl,
        runFrom_append_exhausted screen catalog _ goes, whole]
  | cons last after =>
      have isStop : stop script = last := by
        rw [stop, left]
        rfl
      have ends : goesOn last = false := by
        have first := List.head?_dropWhile_not goesOn script
        rw [left] at first
        exact first
      have behind := runFrom_append_stop screen catalog screen.bannerText goes ends after
      rw [← left, whole] at behind
      rw [isStop, runFrom_append_stop screen catalog _ goes ends rest, behind]

end Session

theorem Output.out_concat (list : List Output) :
    (Output.concat list).out = Text.concat (list.map Output.out) := by
  induction list with
  | nil => rfl
  | cons output rest inductionHypothesis =>
      rw [Output.concat, Output.out_append, inductionHypothesis]
      rfl

theorem Output.err_concat (list : List Output) :
    (Output.concat list).err = Text.concat (list.map Output.err) := by
  induction list with
  | nil => rfl
  | cons output rest inductionHypothesis =>
      rw [Output.concat, Output.err_append, inductionHypothesis]
      rfl

/-- A session is told by its script.  It prompts for each outcome up to the first that is no
line or an exit word, and shows its banner, the explanation of one query after another as
each would be explained by itself, and a blank line exactly if it was left by the end of
input or an interrupt.  The errors and the events are those of the queries, and whatever
stands behind the outcome that ends the session has no effect. -/
theorem run_explains_in_turn (screen : Screen) (catalog : Catalog)
    (script : List PromptOutcome) :
    let before := Session.heeded script
    let stop := Session.stop script
    let explained := (before.filterMap Session.query?).map (explain screen catalog)
    let transcript := Session.run screen catalog script
    transcript.turns.map Session.Turn.prompt =
        List.replicate (before.length + 1) screen.promptText ∧
      transcript.unread = script.length - (before.length + 1) ∧
      transcript.output.out =
        screen.bannerText.out ++ Text.concat (explained.map (·.output.out)) ++
          (if stop.leaves then "\n" else "") ∧
      transcript.output.err = Text.concat (explained.map (·.output.err)) ∧
      transcript.events = explained.flatMap (·.events) ∧
      transcript.failure = stop.failure? ∧
      ∀ rest, Session.run screen catalog (before ++ stop :: rest) =
        { transcript with unread := rest.length } := by
  intro before stop explained transcript
  have shown := Session.output_runFrom screen catalog screen.bannerText script
  have logged := Session.events_runFrom screen catalog screen.bannerText script
  have ended := Session.ending_runFrom screen catalog screen.bannerText script
  rw [Session.queries_eq, Session.parting_eq] at shown
  rw [Session.queries_eq] at logged
  rw [Session.ending_eq] at ended
  refine ⟨Session.prompts_runFrom screen catalog screen.bannerText script,
    congrArg Prod.snd ended, ?_, ?_, ?_, congrArg Prod.fst ended,
    Session.run_heeded_append_stop screen catalog script⟩
  · have parting : (if stop.leaves then Output.blankLine else Output.none).out =
        if stop.leaves then "\n" else "" := by
      split <;> rfl
    have out := congrArg Output.out shown
    rw [Output.out_append, Output.out_append, parting, Output.out_concat, List.map_map,
      ← Text.append_assoc] at out
    rw [List.map_map]
    exact out
  · have parting : (if stop.leaves then Output.blankLine else Output.none).err = "" := by
      split <;> rfl
    have err := congrArg Output.err shown
    rw [Output.err_append, Output.err_append, parting, Output.err_concat, List.map_map,
      Text.append_empty] at err
    rw [List.map_map]
    exact err.trans (Text.empty_append ..)
  · rw [List.flatMap_map]
    exact logged

/-- The words are compared without the blanks around them and in small letters. -/
example :
    Session.heeded [.line " ls ", .line "\t", .line " QuIt", .line "ls"] =
      [.line " ls ", .line "\t"] := by decide +kernel

end ShellGloss
