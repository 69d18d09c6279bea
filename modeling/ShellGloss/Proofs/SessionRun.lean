/-
Module: ShellGloss.Proofs.SessionRun
Purpose: A session from its queries: which outcomes are explained, where the session ends,
  and what is shown and logged of it.
Imports: ShellGloss.Session
Main exports:
  Session.Request, Session.request, Session.answer_eq_reply, Session.queries,
  Session.parting, Session.output_runFrom, Session.events_runFrom
-/
import ShellGloss.Session

namespace ShellGloss

namespace Output

/-- Outputs one after another. -/
def concat : List Output → Output
  | [] => .none
  | first :: rest => first ++ concat rest

@[simp] theorem out_append (first second : Output) :
    (first ++ second).out = first.out ++ second.out := rfl

@[simp] theorem err_append (first second : Output) :
    (first ++ second).err = first.err ++ second.err := rfl

theorem ext_streams {one two : Output} (out : one.out = two.out) (err : one.err = two.err) :
    one = two := by
  cases one
  cases two
  cases out
  cases err
  rfl

theorem append_assoc (one two three : Output) : one ++ two ++ three = one ++ (two ++ three) :=
  ext_streams (Text.append_assoc ..) (Text.append_assoc ..)

@[simp] theorem none_append (output : Output) : Output.none ++ output = output :=
  ext_streams (Text.empty_append ..) (Text.empty_append ..)

@[simp] theorem append_none (output : Output) : output ++ Output.none = output :=
  ext_streams (Text.append_empty ..) (Text.append_empty ..)

end Output

namespace Session

/-! ### One outcome

What an outcome asks for does not depend on how the session looks or what the catalog
holds; the reply to it does.
-/

/-- What an outcome asks for. -/
inductive Request where
  /-- Nothing: a blank line. -/
  | nothing
  /-- An explanation of a query. -/
  | explanation (query : Text)
  /-- The end of the session, by a word. -/
  | exit
  /-- The end of the session, by the end of input or an interrupt. -/
  | leave
  /-- Nothing that a session can go on from. -/
  | fails (failure : Failure)

/-- What an outcome asks for. -/
def request : PromptOutcome → Request
  | .line raw =>
      if (Text.trim raw).isEmpty then .nothing
      else if isExit (Text.trim raw) then .exit
      else .explanation (Text.trim raw)
  | .failed failure => if failure.leaves then .leave else .fails failure
  | .spoiled failure => .fails failure

/-- The reply to a request. -/
def Request.reply (screen : Screen) (catalog : Catalog) : Request → Reply
  | .nothing => { next := .again }
  | .explanation query =>
      { output := (explain screen catalog query).output
        events := (explain screen catalog query).events
        next := .again }
  | .exit => { next := .stop }
  | .leave => { output := .blankLine, next := .stop }
  | .fails failure => { next := .fail failure }

theorem answer_eq_reply (screen : Screen) (catalog : Catalog) (outcome : PromptOutcome) :
    answer screen catalog outcome = (request outcome).reply screen catalog := by
  cases outcome with
  | line raw =>
      simp only [answer, request]
      split
      · rfl
      split <;> rfl
  | failed failure =>
      simp only [answer, request]
      split <;> rfl
  | spoiled failure => rfl

/-! ### All outcomes -/

/-- The queries that a session explains, up to the outcome that ends it. -/
def queries : List PromptOutcome → List Text
  | [] => []
  | outcome :: rest =>
      match request outcome with
      | .nothing => queries rest
      | .explanation query => query :: queries rest
      | .exit | .leave | .fails _ => []

/-- What a session shows last: a blank line where the input ended or was interrupted, and
nothing where it ended by a word or a failure. -/
def parting : List PromptOutcome → Output
  | [] => .blankLine
  | outcome :: rest =>
      match request outcome with
      | .nothing | .explanation _ => parting rest
      | .leave => .blankLine
      | .exit | .fails _ => .none

/-- The failure that a session ends in, and how many outcomes it does not ask for. -/
def ending : List PromptOutcome → Option Failure × Nat
  | [] => (none, 0)
  | outcome :: rest =>
      match request outcome with
      | .nothing | .explanation _ => ending rest
      | .exit | .leave => (none, rest.length)
      | .fails failure => (some failure, rest.length)

/-- Every query is a typed line without the blanks around it. -/
theorem exists_line_of_mem_queries {script : List PromptOutcome} {query : Text}
    (among : query ∈ queries script) : ∃ raw, .line raw ∈ script ∧ Text.trim raw = query := by
  induction script with
  | nil => cases among
  | cons outcome rest inductionHypothesis =>
      have later (among : query ∈ queries rest) :
          ∃ raw, .line raw ∈ outcome :: rest ∧ Text.trim raw = query := by
        obtain ⟨raw, typed, trimmed⟩ := inductionHypothesis among
        exact ⟨raw, .tail _ typed, trimmed⟩
      rw [queries] at among
      split at among
      · exact later among
      next first asked =>
        rcases List.mem_cons.mp among with rfl | among
        · cases outcome with
          | line raw =>
              refine ⟨raw, .head _, ?_⟩
              simp only [request] at asked
              split at asked
              · cases asked
              split at asked
              · cases asked
              · cases asked
                rfl
          | failed failure =>
              simp only [request] at asked
              split at asked <;> cases asked
          | spoiled failure => cases asked
        · exact later among
      all_goals cases among

theorem foldl_shown (shown : Output) (turns : List Turn) :
    turns.foldl (fun all turn => all ++ turn.shown) shown =
      shown ++ turns.foldl (fun all turn => all ++ turn.shown) .none := by
  induction turns generalizing shown with
  | nil => simp
  | cons turn rest inductionHypothesis =>
      rw [List.foldl_cons, List.foldl_cons, inductionHypothesis,
        inductionHypothesis (.none ++ turn.shown), Output.none_append, Output.append_assoc]

@[simp] theorem output_close (turn : Turn) (reply : Reply) (failure : Option Failure)
    (unread : Nat) : (close turn reply failure unread).output = turn.shown ++ reply.output := by
  simp [close, Transcript.output]

@[simp] theorem output_resume (turn : Turn) (reply : Reply) (rest : Transcript) :
    (resume turn reply rest).output = turn.shown ++ rest.output := by
  simp only [resume, Transcript.output, List.foldl_cons, Output.none_append]
  rw [foldl_shown, Output.append_assoc]

/-- A session shows what is on the screen before it, the explanation of one query after
another, and its parting. -/
theorem output_runFrom (screen : Screen) (catalog : Catalog) (shown : Output)
    (script : List PromptOutcome) :
    (runFrom screen catalog shown script).output =
      shown ++ (Output.concat ((queries script).map fun query =>
        (explain screen catalog query).output) ++ parting script) := by
  induction script generalizing shown with
  | nil => simp [runFrom, exhausted, answer, Failure.leaves, queries, parting, Output.concat]
  | cons outcome rest inductionHypothesis =>
      simp only [runFrom, answer_eq_reply, queries, parting]
      cases request outcome with
      | nothing => simp [Request.reply, inductionHypothesis]
      | explanation query =>
          simp [Request.reply, inductionHypothesis, Output.concat, Output.append_assoc]
      | exit => simp [Request.reply, Output.concat]
      | leave => simp [Request.reply, Output.concat]
      | fails failure => simp [Request.reply, Output.concat]

/-- The events of a session are those of its queries, one after another. -/
theorem events_runFrom (screen : Screen) (catalog : Catalog) (shown : Output)
    (script : List PromptOutcome) :
    (runFrom screen catalog shown script).events =
      (queries script).flatMap fun query => (explain screen catalog query).events := by
  induction script generalizing shown with
  | nil => rfl
  | cons outcome rest inductionHypothesis =>
      simp only [runFrom, answer_eq_reply, queries]
      cases request outcome with
      | nothing => simp [Request.reply, resume, inductionHypothesis]
      | explanation query => simp [Request.reply, resume, inductionHypothesis]
      | exit => rfl
      | leave => rfl
      | fails failure => rfl

/-- How a session ends does not depend on what it shows. -/
theorem ending_runFrom (screen : Screen) (catalog : Catalog) (shown : Output)
    (script : List PromptOutcome) :
    ((runFrom screen catalog shown script).failure,
      (runFrom screen catalog shown script).unread) = ending script := by
  induction script generalizing shown with
  | nil => rfl
  | cons outcome rest inductionHypothesis =>
      simp only [runFrom, answer_eq_reply, ending]
      cases request outcome with
      | nothing => exact inductionHypothesis _
      | explanation query => exact inductionHypothesis _
      | exit => rfl
      | leave => rfl
      | fails failure => rfl

end Session

end ShellGloss
