import Reckon.Session

/-!
# Source files

A source file holds UTF-8 text. Its line ends may be written in any of the three usual ways and all
become line feeds; a byte order mark is a character like any other.
-/

namespace Reckon

namespace Text

/-- The characters with every line end turned into one line feed. -/
def unifyLineEnds : List Char → List Char
  | [] => []
  | '\r' :: '\n' :: rest => '\n' :: unifyLineEnds rest
  | '\r' :: rest => '\n' :: unifyLineEnds rest
  | c :: rest => c :: unifyLineEnds rest

end Text

namespace SourceFile

/-- The source text that the bytes of a file hold, if they are valid UTF-8. -/
def decode? (bytes : ByteArray) : Option String :=
  (String.fromUTF8? bytes).map fun text => String.ofList (Text.unifyLineEnds text.toList)

/-- Why a file has no value. -/
inductive FileError where
  | notUtf8
  | failed (e : Error)

/-- Runs the bytes of a source file in a scope of its own. -/
def eval (limits : Session.Limits) (bytes : ByteArray) : Except FileError (Option Value) :=
  match decode? bytes with
  | none => .error .notUtf8
  | some source =>
    match (Session.eval limits source .empty).1 with
    | .error e => .error (.failed e)
    | .ok v => .ok v

end SourceFile

end Reckon
