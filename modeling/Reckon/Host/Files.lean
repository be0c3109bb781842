import Reckon.Host.PosixPath

/-!
# Files in a working directory

The files that a command can see are those below its working directory. Outside of it only the
directories on the way up are known to exist.
-/

namespace Reckon

/-- Why a file cannot be read or written. -/
inductive FileFault where
  | notFound
  | notDirectory
  | isDirectory
  | invalidArgument
  | nameTooLong
  /-- Any other fault, by its number and wording. -/
  | other (number : Nat) (message : String)
deriving DecidableEq, Repr

namespace FileFault

/-- The wording of a fault. -/
def message : FileFault → String
  | notFound => "No such file or directory"
  | notDirectory => "Not a directory"
  | isDirectory => "Is a directory"
  | invalidArgument => "Invalid argument"
  | nameTooLong => "File name too long"
  | other _ text => text

/-- The number of a fault. -/
def number : FileFault → Nat
  | notFound => 2
  | notDirectory => 20
  | isDirectory => 21
  | invalidArgument => 22
  | nameTooLong => 36
  | other n _ => n

/-- The wording of a fault with its number. -/
def numbered (fault : FileFault) : String :=
  "[Errno " ++ fault.number.repr ++ "] " ++ fault.message

end FileFault

/-- What a name stands for. -/
inductive FileNode where
  | file (bytes : ByteArray)
  | directory

/-- The files below a working directory, by the names on the way to them. -/
structure Files where
  nodes : List (List String × FileNode)

/-- A place that names lead to: a list of names below the working directory, or somewhere above
it. -/
inductive FilePlace where
  | inside (names : List String)
  | above

namespace Files

/-- What stands at the end of some names. What has something below it is a directory. -/
def node? (files : Files) (names : List String) : Option FileNode :=
  match files.nodes.find? (·.1 == names) with
  | some (_, node) => some node
  | none =>
    if names.isEmpty || files.nodes.any (fun entry => names.isPrefixOf entry.1) then some .directory
    else none

/-- The greatest number of bytes in a name. -/
def nameLimit : Nat := 255

/-- The greatest number of bytes in a path. -/
def pathLimit : Nat := 4095

/-- Follows one name from a directory. Only in a directory is the length of the name looked at. -/
def step (files : Files) (place : FilePlace) (name : String) : Except FileFault FilePlace :=
  match place with
  | .above =>
    if name = ".." then .ok .above
    else if nameLimit < name.utf8ByteSize then .error .nameTooLong
    else .error .notFound
  | .inside names =>
    match files.node? names with
    | none => .error .notFound
    | some (.file _) => .error .notDirectory
    | some .directory =>
      if name = ".." then .ok (if names.isEmpty then .above else .inside names.dropLast)
      else if nameLimit < name.utf8ByteSize then .error .nameTooLong
      else .ok (.inside (names ++ [name]))

/-- Follows all names from a directory. -/
def walk (files : Files) (place : FilePlace) : List String → Except FileFault FilePlace
  | [] => .ok place
  | name :: rest =>
    match files.step place name with
    | .error fault => .error fault
    | .ok next => files.walk next rest

/-- Where a path starts. -/
def start (path : PosixPath) : FilePlace := if path.isAbsolute then .above else .inside []

/-- The path is longer than any path may be. -/
def isOverlong (path : PosixPath) : Bool := pathLimit < path.toText.utf8ByteSize

/-- What a path leads to. -/
def find (files : Files) (path : PosixPath) : Except FileFault FileNode :=
  if isOverlong path then
    .error .nameTooLong
  else
    match files.walk (start path) path.names with
    | .error fault => .error fault
    | .ok .above => .ok .directory
    | .ok (.inside names) =>
      match files.node? names with
      | some node => .ok node
      | none => .error .notFound

/-- The bytes of the file that a path leads to. -/
def read (files : Files) (path : PosixPath) : Except FileFault ByteArray :=
  match files.find path with
  | .error fault => .error fault
  | .ok .directory => .error .isDirectory
  | .ok (.file bytes) => .ok bytes

/-- Puts a file in place of another, or adds it. -/
def put (files : Files) (names : List String) (bytes : ByteArray) : Files :=
  ⟨files.nodes.filter (·.1 != names) ++ [(names, .file bytes)]⟩

/-- Writes a file. A file above the working directory is not kept. -/
def write (files : Files) (path : PosixPath) (bytes : ByteArray) : Except FileFault Files :=
  match path.names.getLast? with
  | none => .error .isDirectory
  | some name =>
    if isOverlong path then
      .error .nameTooLong
    else
      match files.walk (start path) path.names.dropLast with
      | .error fault => .error fault
      | .ok place =>
        match files.step place name with
        | .ok .above => .error .isDirectory
        | .ok (.inside target) =>
          match files.node? target with
          | some .directory => .error .isDirectory
          | _ => .ok (files.put target bytes)
        | .error .notFound =>
          match place with
          | .above => .ok files
          | .inside _ => .error .notFound
        | .error fault => .error fault

end Files

end Reckon
