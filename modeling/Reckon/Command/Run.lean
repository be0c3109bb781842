import Reckon.Command.Request
import Reckon.Console.Basic
import Reckon.Console.History
import Reckon.Host.Files
import Reckon.Log
import Reckon.Settings
import Reckon.SourceFile
import Reckon.Text.Terminal

/-!
# Running commands

What a command prints and how it ends, as functions of what it is given: its arguments, its
surroundings, its input and the files it reads.
-/

namespace Reckon

namespace Command

/-- The name and version of the program. -/
def versionText : String := "Ember 0.1.0"

/-- How the command is used. -/
def usage : String :=
  "Usage: ember [-v|-vv] [PATH]\n\n"
    ++ "Runs PATH, or starts the console when no PATH is given.\n\n"
    ++ "  -v, --verbose  show more of the log\n"
    ++ "  --version      show the version and exit\n"
    ++ "  --help         show this text and exit\n"

/-- What a command printed and how it ended. -/
structure Output where
  exit : Nat
  stdout : String
  stderr : String

/-- The level of the log: by the number of times it was asked for more, and else by the settings. -/
def logLevel (verbosity : Nat) (around : Surroundings) : LogLevel :=
  match verbosity with
  | 0 => Settings.logLevel around
  | 1 => .info
  | _ => .debug

/-! ### Running a file -/

/-- The log entry for a file about to be run. -/
def runningEntry (path source : String) : LogEntry where
  level := .info
  origin := "ember.interpreter"
  message := "running " ++ path ++ " (" ++ source.length.repr ++ " chars)"

/-- A command that ends with a complaint. -/
def complaint (log message : String) : Output := ⟨1, "", log ++ Text.plainLine message⟩

/-- Runs a file, given what reading it came to, and prints the value of its last statement. An error
that is none of the language's own ends the command with nothing said. -/
def runFile (shown : LogLevel) (path : String) (content : Except FileFault ByteArray) : Output :=
  match content with
  | .error fault => complaint "" ("Error: cannot read " ++ path ++ ": " ++ fault.message)
  | .ok bytes =>
    match SourceFile.decode? bytes with
    | none => complaint "" ("Error: " ++ path ++ " is not valid UTF-8 text")
    | some source =>
      let run := Session.run shown.limits source .empty
      let log := LogEntry.render shown
        (runningEntry path source :: LogEntry.ofEvents shown.limits run.events)
      match run.result with
      | .error e => if e.isInternal then ⟨1, "", log⟩ else complaint log e.report
      | .ok none => ⟨0, "", log⟩
      | .ok (some v) => ⟨0, Text.plainLine v.display, log⟩

/-! ### The console -/

/-- The banner of the console. `stamp` says when and where it was started. -/
def banner (stamp : String) : String := versionText ++ " [" ++ stamp ++ "]\nCtrl-C to exit"

/-- The lines of an input, however they end. -/
def inputLines (input : String) : List String :=
  let text := String.ofList (Text.unifyLineEnds input.toList)
  let lines := text.splitOn "\n"
  if lines.getLast? = some "" then lines.dropLast else lines

/-- What a step of the console adds to the standard output. -/
def stepOut (step : Console.Step) : String := String.join (step.out.map Text.consoleLine)

/-- What a step of the console adds to the standard error. -/
def stepErr (shown : LogLevel) (step : Console.Step) : String :=
  LogEntry.render shown (LogEntry.ofEvents shown.limits step.events)
    ++ String.join (step.err.map Text.consoleLine)

/-- What a conversation prints to the standard output: prompts and results. -/
def conversationOut (exchanges : List Console.Exchange) : String :=
  String.join (exchanges.map fun e => e.prompt ++ (e.step.map stepOut).getD "")

/-- What a conversation prints to the standard error: the log and error reports. -/
def conversationErr (shown : LogLevel) (exchanges : List Console.Exchange) : String :=
  String.join (exchanges.map fun e => (e.step.map (stepErr shown)).getD "")

/-- A line has ended the conversation. -/
def isCutOff (exchanges : List Console.Exchange) : Bool :=
  exchanges.any fun e => (e.step.bind Console.Step.fault).isSome

/-- The log entry for a history file that cannot be read or written. -/
def historyEntry (verb path : String) (fault : FileFault) : LogEntry where
  level := .warning
  origin := "ember.repl"
  message := "could not " ++ verb ++ " history file " ++ path ++ ": " ++ fault.numbered

/-- The rows of the history, and what goes to the log about a file that is there and cannot be
read. A directory is reported as an invalid argument. There is no answer for a name too long to
be looked up. -/
def loadHistory? (path : String) (content : Except FileFault ByteArray) :
    Option (List History.Row × List LogEntry) :=
  match content with
  | .ok bytes => some (History.read bytes.toList, [])
  | .error .nameTooLong => none
  | .error .notFound => some ([], [])
  | .error .notDirectory => some ([], [])
  | .error .isDirectory => some ([], [historyEntry "read" path .invalidArgument])
  | .error fault => some ([], [historyEntry "read" path fault])

/-- Where a history file that is there already is written before it takes the place of the old
one. -/
def scratchPath (path : PosixPath) : PosixPath :=
  ⟨path.root, path.names.dropLast ++ [path.names.getLast?.getD "" ++ "-00000.tmp"]⟩

/-- Writes the history file, by way of the scratch file when there is one to replace. -/
def saveHistory (files : Files) (path : PosixPath) (bytes : ByteArray) : Except FileFault Files :=
  match files.read path with
  | .error _ => files.write path bytes
  | .ok _ =>
    match files.write (scratchPath path) bytes with
    | .error fault => .error fault
    | .ok _ => files.write path bytes

/-- What the console shows before the first prompt. -/
def consoleOpening (shown : LogLevel) (loadLog : List LogEntry) (stamp : String) : String :=
  LogEntry.render shown loadLog ++ Console.notice (banner stamp)

/-- The end of a command and the files after it. -/
structure Ended where
  output : Output
  files : Files

/-- Starts the console and talks until the input ends. The history file is read before and written
after. A name that is too long ends the command in failure before, and a length that cannot be
handed on after. It ends in failure as well if a line has ended the conversation. -/
def runConsole (shown : LogLevel) (path : PosixPath) (limit : Int) (stamp input : String)
    (files : Files) : Ended :=
  match loadHistory? path.toText (files.read path) with
  | none => ⟨⟨1, "", ""⟩, files⟩
  | some (rows, loadLog) =>
    let exchanges := Console.fresh.converse shown.limits false ((inputLines input).map .line)
    let stdout := conversationOut exchanges
    let stderr := consoleOpening shown loadLog stamp ++ conversationErr shown exchanges
      ++ if isCutOff exchanges then "" else "\n"
    let exit := if isCutOff exchanges then 1 else 0
    if History.isWritable limit then
      match saveHistory files path ⟨(History.write limit rows).toArray⟩ with
      | .ok after => ⟨⟨exit, stdout, stderr⟩, after⟩
      | .error fault =>
        let saveLog := LogEntry.render shown [historyEntry "write" path.toText fault]
        ⟨⟨exit, stdout, stderr ++ saveLog⟩, files⟩
    else
      ⟨⟨1, stdout, stderr⟩, files⟩

/-! ### Commands -/

/-- The path can be handed to the system. -/
def isUsable (path : String) : Bool := !path.toList.contains '\x00'

/-- Runs a command in its surroundings. -/
def run (args : List String) (around : Surroundings) (files : Files) (stamp input : String) :
    Ended :=
  match Request.ofArgs args with
  | .version => ⟨⟨0, versionText ++ "\n", ""⟩, files⟩
  | .help => ⟨⟨0, usage, ""⟩, files⟩
  | .misuse => ⟨⟨2, "", usage⟩, files⟩
  | .runFile text verbosity =>
    let path := PosixPath.ofText text
    if isUsable text then
      ⟨runFile (logLevel verbosity around) path.toText (files.read path), files⟩
    else
      ⟨⟨1, "", ""⟩, files⟩
  | .console verbosity =>
    match Settings.historyPath? around with
    | none => ⟨⟨1, "", ""⟩, files⟩
    | some path =>
      runConsole (logLevel verbosity around) path (Settings.historyLength around) stamp input files

end Command

end Reckon
