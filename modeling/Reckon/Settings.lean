import Reckon.Host.PosixPath
import Reckon.Log
import Reckon.Text.Integer

/-!
# Settings

The settings come from variables of the surroundings: where the history of the console is kept, how
many of its lines, and how much of the log is shown.
-/

namespace Reckon

/-- What a program can ask its surroundings: variables, and the home directories of accounts. -/
structure Surroundings where
  values : List (String × String)
  accounts : List (String × String)

namespace Surroundings

/-- The accounts of a table with a row for each, whose columns are divided by colons: the first is
the name and the sixth the home directory. -/
def accountsOfTable (table : String) : List (String × String) :=
  (table.splitOn "\n").filterMap fun row =>
    match row.splitOn ":" with
    | name :: _ :: _ :: _ :: _ :: home :: _ => some (name, home)
    | _ => none

/-- The value of a variable. -/
def get? (around : Surroundings) (name : String) : Option String :=
  around.values.lookup name

/-- A home directory as it stands in front of further names: without slashes at its end, unless
nothing else is left. -/
def homeText (home : String) : String :=
  let trimmed := String.ofList (home.toList.reverse.dropWhile (· == '/')).reverse
  if trimmed = "" then "/" else trimmed

/-- The home directory that a name starting with a tilde stands for. The tilde alone is one's own.
-/
def home? (around : Surroundings) (tilde : String) : Option String :=
  let found :=
    if tilde = "~" then
      around.get? "HOME"
    else
      around.accounts.lookup (String.ofList (tilde.toList.drop 1))
  match found.map homeText with
  | some home => if home.toList.head? = some '~' then none else some home
  | none => none

/-- The path with a home directory in place of a tilde at its start, if the home directory is
known. -/
def expandHome? (around : Surroundings) (path : PosixPath) : Option PosixPath :=
  match path.isAbsolute, path.names with
  | false, name :: rest =>
    if name.toList.head? = some '~' then
      (around.home? name).map fun home =>
        let start := PosixPath.ofText home
        ⟨start.root, start.names ++ rest⟩
    else
      some path
  | _, _ => some path

end Surroundings

namespace Settings

/-- The path of the history file when no other is set. -/
def defaultHistoryPath? (around : Surroundings) : Option PosixPath :=
  (around.expandHome? (PosixPath.ofText "~")).map (·.child ".ember_history")

/-- The path of the history file. There is none when a home directory that it needs is not known,
and one's own is needed in any case. -/
def historyPath? (around : Surroundings) : Option PosixPath :=
  match defaultHistoryPath? around with
  | none => none
  | some standard =>
    let text := Text.trimBlanks ((around.get? "EMBER_HISTORY_PATH").getD "")
    if text = "" then some standard else around.expandHome? (PosixPath.ofText text)

/-- The number of history lines kept when no other is set. -/
def defaultHistoryLength : Int := 1000

/-- The number of history lines kept. A negative number keeps all. -/
def historyLength (around : Surroundings) : Int :=
  match Text.integer? ((around.get? "EMBER_HISTORY_LENGTH").getD "") with
  | some n => if n = 0 then defaultHistoryLength else n
  | none => defaultHistoryLength

/-- A character in upper case, where that is ASCII. -/
def upperAscii (c : Char) : List Char :=
  if c = 'ß' then ['S', 'S']
  else if c = 'ı' then ['I']
  else if c = 'ſ' then ['S']
  else if c = 'ﬀ' then ['F', 'F']
  else if c = 'ﬁ' then ['F', 'I']
  else if c = 'ﬂ' then ['F', 'L']
  else if c = 'ﬃ' then ['F', 'F', 'I']
  else if c = 'ﬄ' then ['F', 'F', 'L']
  else if c = 'ﬅ' || c = 'ﬆ' then ['S', 'T']
  else [c.toUpper]

/-- The level of the log when nothing else is asked for. -/
def logLevel (around : Surroundings) : LogLevel :=
  match around.get? "EMBER_LOG_LEVEL" with
  | none => .warning
  | some text =>
    let name := String.ofList ((Text.trim Text.isBlank text.toList).flatMap upperAscii)
    (LogLevel.ofName? name).getD .warning

end Settings

end Reckon
