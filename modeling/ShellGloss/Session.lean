/-
Module: ShellGloss.Session
Purpose: Explaining queries one at a time, and a session of prompts.
Imports: ShellGloss.Journal.Entry, ShellGloss.Terminal
Main exports:
  Explained, explain, Failure, PromptOutcome, Session.answer, Session.run
-/
import ShellGloss.Journal.Entry
import ShellGloss.Terminal

namespace ShellGloss

/-! ### One query -/

/-- A query explained: how it was read, what is shown and what is logged. -/
structure Explained where
  response : Response
  output : Output
  events : List Event
deriving Repr, Inhabited

/-- The events of a query: that it was asked for, and how it went. -/
def queryEvents (query : Text) (groups : Option (List (List Node))) : List Event :=
  let outcome : Event :=
    match groups with
    | none => { name := "parse_failed", fields := [("query", .text query)] }
    | some groups =>
        { name := "explain_rendered"
          fields :=
            [("query", .text query), ("units", .int groups.length),
              ("nodes", .int groups.flatten.length)] }
  [{ name := "explain_request", fields := [("query", .text query)] }, outcome]

/-- Explain a query. -/
def explain (screen : Screen) (catalog : Catalog) (query : Text) : Explained :=
  let response := respond catalog query
  ⟨response, screen.renderResponse response, queryEvents query response.groups⟩

/-! ### A session -/

/-- What interrupts a prompt. -/
inductive FailureKind where
  | endOfInput
  | interrupt
  | badValue
  | runtime
  | system
  | application
  | startup
  | path
deriving Repr, Inhabited, DecidableEq

/-- An interruption and what it says. -/
structure Failure where
  kind : FailureKind
  message : Text := ""
deriving Repr, Inhabited, DecidableEq

/-- Whether a failure is one of the program's own. -/
def Failure.isOwn (failure : Failure) : Bool :=
  match failure.kind with
  | .application | .startup | .path => true
  | _ => false

/-- Whether a failure at the prompt ends the session in good order. -/
def Failure.leaves (failure : Failure) : Bool :=
  match failure.kind with
  | .endOfInput | .interrupt => true
  | _ => false

/-- What a prompt brings: a line, a failure in place of one, or a line that fails
as soon as it is looked at. -/
inductive PromptOutcome where
  | line (text : Text)
  | failed (failure : Failure)
  | spoiled (failure : Failure)
deriving Repr, Inhabited, DecidableEq

namespace Session

/-- What a session does next. -/
inductive Next where
  | again
  | stop
  | fail (failure : Failure)
deriving Repr, Inhabited, DecidableEq

/-- What an outcome leads to. -/
structure Reply where
  output : Output := .none
  events : List Event := []
  next : Next
deriving Repr, Inhabited

/-- The words that end a session. -/
def exitWords : List Text := ["exit", "quit"]

/-- Whether a trimmed line ends the session. -/
def isExit (query : Text) : Bool := exitWords.contains (Text.foldCase query)

/-- The reply to an outcome. -/
def answer (screen : Screen) (catalog : Catalog) : PromptOutcome → Reply
  | .failed failure =>
      if failure.leaves then { output := .blankLine, next := .stop }
      else { next := .fail failure }
  | .spoiled failure => { next := .fail failure }
  | .line raw =>
      let query := Text.trim raw
      if query.isEmpty then { next := .again }
      else if isExit query then { next := .stop }
      else
        let explained := explain screen catalog query
        { output := explained.output, events := explained.events, next := .again }

/-- What is shown before a prompt, and the prompt. -/
structure Turn where
  shown : Output
  prompt : Text
deriving Repr, Inhabited, DecidableEq

/-- A session from its first prompt to its end: the turns, what is shown after
the last of them, the events, the failure it ended in, and how many outcomes
were never asked for. -/
structure Transcript where
  turns : List Turn
  last : Output
  events : List Event
  failure : Option Failure
  unread : Nat
deriving Repr, Inhabited

/-- The outcome of a prompt that has nothing to bring. -/
def exhausted : PromptOutcome := .failed { kind := .endOfInput }

/-- The transcript of a session that ends with a reply. -/
def close (turn : Turn) (reply : Reply) (failure : Option Failure) (unread : Nat) :
    Transcript :=
  ⟨[turn], reply.output, reply.events, failure, unread⟩

/-- The transcript of a session that goes on behind a reply. -/
def resume (turn : Turn) (reply : Reply) (rest : Transcript) : Transcript :=
  { rest with turns := turn :: rest.turns, events := reply.events ++ rest.events }

/-- Prompt for one outcome after another; `shown` is on the screen before the
first prompt. -/
def runFrom (screen : Screen) (catalog : Catalog) (shown : Output) :
    List PromptOutcome → Transcript
  | [] => close ⟨shown, screen.promptText⟩ (answer screen catalog exhausted) none 0
  | outcome :: rest =>
      let turn : Turn := ⟨shown, screen.promptText⟩
      let reply := answer screen catalog outcome
      match reply.next with
      | .again => resume turn reply (runFrom screen catalog reply.output rest)
      | .stop => close turn reply none rest.length
      | .fail failure => close turn reply (some failure) rest.length

/-- A session with its banner. -/
def run (screen : Screen) (catalog : Catalog) (script : List PromptOutcome) : Transcript :=
  runFrom screen catalog screen.bannerText script

/-- Everything a session shows. -/
def Transcript.output (transcript : Transcript) : Output :=
  (transcript.turns.foldl (fun all turn => all ++ turn.shown) .none) ++ transcript.last

end Session

end ShellGloss
