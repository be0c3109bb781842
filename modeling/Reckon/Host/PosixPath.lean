/-!
# Paths

A path is a root and the names on the way from it. Empty names and single dots say nothing and are
left out; two dots stay, since what they lead to depends on the files.
-/

namespace Reckon

/-- A path: the slashes it starts with, if any, and its names. -/
structure PosixPath where
  root : String
  names : List String
deriving DecidableEq, Repr

namespace PosixPath

/-- The root of a path by its leading slashes. Exactly two of them are kept apart from one. -/
def rootOf (s : String) : String :=
  match (s.toList.takeWhile (· == '/')).length with
  | 0 => ""
  | 2 => "//"
  | _ => "/"

/-- The path that a text denotes. -/
def ofText (s : String) : PosixPath where
  root := rootOf s
  names := (s.splitOn "/").filter fun name => name != "" && name != "."

/-- The text of a path. A path of no names from nowhere is a dot. -/
def toText (path : PosixPath) : String :=
  if path.root = "" && path.names.isEmpty then "."
  else path.root ++ String.intercalate "/" path.names

/-- The path further down by one name. -/
def child (path : PosixPath) (name : String) : PosixPath := ⟨path.root, path.names ++ [name]⟩

/-- The path starts at a root. -/
def isAbsolute (path : PosixPath) : Bool := path.root != ""

end PosixPath

end Reckon
