import Reckon.Binary64.Text
import Reckon.Text.Escape
import Reckon.Text.Quoted

/-!
# Values

A value is a number, a truth value, a string or a character. It has three texts: `display` is what
a result looks like, `literal` is source text that evaluates to the value, and `debug` is the form
used in diagnostics.
-/

namespace Reckon

/-- The kind of a value. -/
inductive Kind where
  | number
  | bool
  | string
  | char
deriving DecidableEq, Repr

/-- The name of a kind in messages. -/
def Kind.name : Kind → String
  | number => "Number"
  | bool => "Bool"
  | string => "String"
  | char => "Char"

/-- What an expression evaluates to. -/
inductive Value where
  | number (x : Binary64)
  | bool (b : Bool)
  | string (s : String)
  | char (c : Char)
deriving DecidableEq

namespace Value

/-- The kind of a value. -/
def kind : Value → Kind
  | number _ => .number
  | bool _ => .bool
  | string _ => .string
  | char _ => .char

/-- The value is a string or a character. -/
def isText : Value → Bool
  | string _ | char _ => true
  | number _ | bool _ => false

/-- The text shown for a result: texts as they are, numbers and truth values bare. -/
def display : Value → String
  | number x => x.display
  | bool b => if b then "true" else "false"
  | string s => s
  | char c => c.toString

/-- A literal delimited by the given quote. -/
def delimited (quote : Char) (cs : List Char) : String :=
  String.ofList (quote :: (Text.escape (· == quote) cs ++ [quote]))

/-- Source text for the value: strings and characters quoted and escaped, all else as shown. -/
def literal : Value → String
  | string s => delimited '"' s.toList
  | char c => delimited '\'' [c]
  | v => v.display

/-- The diagnostic form of a character. -/
def debugChar (c : Char) : String := "Char(" ++ Text.quoted c.toString ++ ")"

/-- The diagnostic form. -/
def debug : Value → String
  | number x => x.debug
  | bool b => if b then "True" else "False"
  | string s => Text.quoted s
  | char c => debugChar c

/-! ### Characters from text -/

/-- The complaint about a text that is no character. -/
structure NotOneCharacter where
  text : String
deriving DecidableEq, Repr

/-- The wording of the complaint. -/
def NotOneCharacter.message (e : NotOneCharacter) : String :=
  "Char holds exactly one character, got " ++ Text.quoted e.text

/-- The character that a text of length one holds. -/
def charOfText (s : String) : Except NotOneCharacter Char :=
  match s.toList with
  | [c] => .ok c
  | _ => .error ⟨s⟩

/-- A character is a text of length one. -/
theorem charOfText_toString (c : Char) : charOfText c.toString = .ok c := by
  simp [charOfText]

end Value

end Reckon
