import Reckon.Session
import Reckon.Text.Blank

/-!
# The console

The console reads lines and runs them. A line that leaves its input incomplete is kept, and the
lines after it are added to it, until the whole runs or fails for good. An empty line always ends
such a group: it makes the text so far end with a line feed, and incomplete text that does is
reported.

`Console.push` takes one line and `Console.converse` a whole conversation.
-/

namespace Reckon

/-- The scope of the session and the lines kept so far. -/
structure Console where
  scope : Scope
  pending : List String

namespace Console

/-- A console that has read nothing. -/
def fresh : Console := ⟨.empty, []⟩

/-- What came of one line. -/
structure Step where
  /-- The console afterwards. -/
  console : Console
  /-- More lines are needed. -/
  more : Bool
  /-- The results printed. -/
  out : List String
  /-- The error reports printed. -/
  err : List String
  /-- The stages completed. -/
  events : List Session.Event
  /-- An error that is not reported but ends the session. -/
  fault : Option Error

/-- The text ends with a line feed. -/
def endsLine (source : String) : Bool := source.toList.getLast? == some '\n'

/-- Takes one line. An error that is none of the language's own leaves the lines kept. -/
def push (limits : Session.Limits) (console : Console) (line : String) : Step :=
  let lines := console.pending ++ [line]
  let source := String.intercalate "\n" lines
  if source.toList.all Text.isBlank then
    ⟨⟨console.scope, []⟩, false, [], [], [], none⟩
  else
    let run := Session.run limits source console.scope
    match run.result with
    | .ok v => ⟨⟨run.scope, []⟩, false, (v.map Value.display).toList, [], run.events, none⟩
    | .error e =>
      if e.isIncomplete && !endsLine source then
        ⟨⟨run.scope, lines⟩, true, [], [], run.events, none⟩
      else if e.isInternal then
        ⟨⟨run.scope, lines⟩, false, [], [], run.events, some e⟩
      else
        ⟨⟨run.scope, []⟩, false, [], [e.report], run.events, none⟩

/-- Takes lines one after the other. -/
def pushAll (limits : Session.Limits) (console : Console) : List String → List Step
  | [] => []
  | line :: rest =>
    let step := console.push limits line
    step :: pushAll limits step.console rest

/-! ### Conversations -/

/-- What a prompt is answered with. Silence at the end of the input needs no answer. -/
inductive Answer where
  | line (text : String)
  /-- The user interrupts. -/
  | interrupt

/-- The prompt, by whether the line before it needs more. -/
def prompt (more : Bool) : String := if more then "... " else ">>> "

/-- A prompt and what came of the line it was answered with. A prompt that was answered by an
interruption or the end of the input has nothing to show. -/
structure Exchange where
  prompt : String
  step : Option Step

/-- Prompts until the answers are used up, one of them is an interruption or a line has ended the
session. -/
def converse (limits : Session.Limits) (console : Console) (more : Bool) :
    List Answer → List Exchange
  | .line text :: rest =>
    let step := console.push limits text
    ⟨prompt more, some step⟩ ::
      if step.fault.isSome then [] else converse limits step.console step.more rest
  | .interrupt :: _ => [⟨prompt more, none⟩]
  | [] => [⟨prompt more, none⟩]

/-- A prompt and what was printed between the one before it and itself. -/
structure Prompted where
  prompt : String
  out : List String
  err : List String

/-- The prompts of a conversation, each with what was printed since the one before it. -/
def promptLog (out err : List String) : List Exchange → List Prompted
  | [] => []
  | exchange :: rest =>
    let step := exchange.step
    ⟨exchange.prompt, out, err⟩ ::
      promptLog ((step.map Step.out).getD []) ((step.map Step.err).getD []) rest

/-- A message on a line of its own, unless it is empty. -/
def notice (message : String) : String := if message = "" then "" else message ++ "\n"

/-- What a conversation shows besides prompts, results and reports: a banner before it, a line end
when the input ends and a message after it. -/
def frameText (banner exitMessage : String) : String := notice banner ++ "\n" ++ notice exitMessage

end Console

end Reckon
