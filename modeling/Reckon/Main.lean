import Std.Time.DateTime.Timestamp
import Reckon.Command.Run
import Reckon.Host.Clock

/-!
# The command

The outer layer: it reads variables, files and lines, hands them to `Reckon.Command`, and prints
what comes back.
-/

namespace Reckon

namespace Main

/-- The number of a fault. Some file operations report it with the opposite sign. -/
def faultNumber (code : UInt32) : Nat := (min code (0 - code)).toNat

/-- The fault behind a failed file operation. -/
def faultOf : IO.Error → FileFault
  | .noFileOrDirectory .. => .notFound
  | .inappropriateType _ code _ => if faultNumber code = 21 then .isDirectory else .notDirectory
  | .permissionDenied _ code _ => .other (faultNumber code) "Permission denied"
  | .invalidArgument _ code _ => if faultNumber code = 36 then .nameTooLong else .invalidArgument
  | e => .other 5 (toString e)

/-- Runs a file operation and keeps its fault. -/
def attempt {α : Type} (act : IO α) : IO (Except FileFault α) := do
  match ← act.toBaseIO with
  | .ok v => return .ok v
  | .error e => return .error (faultOf e)

/-- The text of a file of the system, or nothing. -/
def systemText (path : String) : IO String := do
  match ← attempt (IO.FS.readFile path) with
  | .ok text => return text
  | .error _ => return ""

/-- The variables and accounts that settings depend on. -/
def surroundings : IO Surroundings := do
  let names := ["HOME", "EMBER_HISTORY_PATH", "EMBER_HISTORY_LENGTH", "EMBER_LOG_LEVEL"]
  let found ← names.filterMapM fun name => do
    return (← IO.getEnv name).map (name, ·)
  return ⟨found, Surroundings.accountsOfTable (← systemText "/etc/passwd")⟩

/-- When and where the console is started. -/
def startStamp : IO String := do
  let now ← Std.Time.Timestamp.now
  let kernel := (Text.trimBlanks (← systemText "/proc/sys/kernel/ostype")).toLower
  let machine := Text.trimBlanks (← systemText "/proc/sys/kernel/arch")
  return Clock.stamp now.toSecondsSinceUnixEpoch.val.toNat ++ " on " ++ kernel ++ " " ++ machine

/-- Prints what a command came to. -/
def finish (output : Command.Output) : IO UInt32 := do
  (← IO.getStdout).putStr output.stdout
  (← IO.getStderr).putStr output.stderr
  return output.exit.toUInt32

/-- Prompts for lines until the input ends or a line has ended the session. `queue` holds lines that
were read and not yet used. Returns the exit code. -/
partial def converse (shown : LogLevel) (console : Console) (more : Bool) (queue : List String) :
    IO UInt32 := do
  let stdout ← IO.getStdout
  let stderr ← IO.getStderr
  stdout.putStr (Console.prompt more)
  stdout.flush
  let lines ← if queue.isEmpty then
      let read ← (← IO.getStdin).getLine
      pure (Command.inputLines read)
    else
      pure queue
  match lines with
  | [] =>
    stderr.putStr "\n"
    return 0
  | line :: rest =>
    let step := console.push shown.limits line
    stdout.putStr (Command.stepOut step)
    stderr.putStr (Command.stepErr shown step)
    if step.fault.isSome then return 1 else converse shown step.console step.more rest

/-- Writes the history file, by way of a scratch file when there is one to replace. -/
def saveHistory (path : PosixPath) (isThere : Bool) (bytes : ByteArray) : IO Unit :=
  if isThere then do
    let scratch := (Command.scratchPath path).toText
    IO.FS.writeBinFile scratch bytes
    IO.FS.rename scratch path.toText
  else
    IO.FS.writeBinFile path.toText bytes

/-- Starts the console and keeps its history. -/
def runConsole (shown : LogLevel) (around : Surroundings) : IO UInt32 := do
  match Settings.historyPath? around with
  | none => return 1
  | some path =>
    let stderr ← IO.getStderr
    let text := path.toText
    let content ← attempt (IO.FS.readBinFile text)
    match Command.loadHistory? text content with
    | none => return 1
    | some (rows, loadLog) =>
      stderr.putStr (Command.consoleOpening shown loadLog (← startStamp))
      let exit ← converse shown .fresh false []
      let limit := Settings.historyLength around
      if History.isWritable limit then
        let bytes : ByteArray := ⟨(History.write limit rows).toArray⟩
        match ← attempt (saveHistory path content.toOption.isSome bytes) with
        | .ok () => pure ()
        | .error fault =>
          stderr.putStr (LogEntry.render shown [Command.historyEntry "write" text fault])
        return exit
      else
        return 1

/-- Does what the arguments ask for. -/
def run (args : List String) : IO UInt32 := do
  let around ← surroundings
  match Command.Request.ofArgs args with
  | .version => finish ⟨0, Command.versionText ++ "\n", ""⟩
  | .help => finish ⟨0, Command.usage, ""⟩
  | .misuse => finish ⟨2, "", Command.usage⟩
  | .runFile text verbosity =>
    let path := (PosixPath.ofText text).toText
    let content ← attempt (IO.FS.readBinFile path)
    finish (Command.runFile (Command.logLevel verbosity around) path content)
  | .console verbosity => runConsole (Command.logLevel verbosity around) around

end Main

end Reckon

/-- The command line. -/
def main (args : List String) : IO UInt32 := Reckon.Main.run args
