/-!
# Command lines

A command line holds options and at most one path. Options may stand anywhere before `--`; short
ones can be written together. All options are read before anything is done, so a bad option is an
error even next to one that would only show something.
-/

namespace Reckon

namespace Command

/-- What a command line asks for. -/
inductive Request where
  /-- Show the version. -/
  | version
  /-- Show how the command is used. -/
  | help
  /-- Nothing that can be done. -/
  | misuse
  /-- Run a file. -/
  | runFile (path : String) (verbosity : Nat)
  /-- Start the console. -/
  | console (verbosity : Nat)
deriving DecidableEq, Repr

/-- One option. -/
inductive Switch where
  | verbose
  | version
  | help
deriving DecidableEq, Repr

/-- The options and the paths of a command line. -/
structure Arguments where
  switches : List Switch
  paths : List String

/-- The option with a long name. -/
def longSwitch? (arg : String) : Option Switch :=
  if arg = "--verbose" then some .verbose
  else if arg = "--version" then some .version
  else if arg = "--help" then some .help
  else none

/-- The options that an argument starting with a dash stands for: a long one, or short ones written
together. -/
def switches? (arg : String) : Option (List Switch) :=
  match longSwitch? arg with
  | some s => some [s]
  | none =>
    match arg.toList with
    | '-' :: letters =>
      if !letters.isEmpty && letters.all (· == 'v') then some (letters.map fun _ => .verbose)
      else none
    | _ => none

/-- The argument is an option rather than a path. A dash alone is a path. -/
def isSwitch (arg : String) : Bool := arg.toList.head? == some '-' && arg != "-"

/-- Reads options and paths, if all options are known. -/
def arguments? : List String → Option Arguments
  | [] => some ⟨[], []⟩
  | arg :: rest =>
    if arg = "--" then
      some ⟨[], rest⟩
    else if isSwitch arg then
      match switches? arg, arguments? rest with
      | some ss, some more => some ⟨ss ++ more.switches, more.paths⟩
      | _, _ => none
    else
      (arguments? rest).map fun more => ⟨more.switches, arg :: more.paths⟩

/-- What the arguments of a command line ask for. -/
def Request.ofArgs (args : List String) : Request :=
  match arguments? args with
  | none => .misuse
  | some found =>
    match found.switches.find? (· != .verbose) with
    | some .version => .version
    | some _ => .help
    | none =>
      match found.paths with
      | [] => .console found.switches.length
      | [path] => .runFile path found.switches.length
      | _ => .misuse

end Command

end Reckon
