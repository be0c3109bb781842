/-!
# Escapes in literals

Inside a string or character literal a backslash and a letter stand for one character. `escape`
writes a text that way and `unescape?` reads one escape; the writer uses no escape that the reader
does not know.
-/

namespace Reckon

namespace Text

/-- The letter that stands for a character which is always escaped. -/
def escapeLetter? (c : Char) : Option Char :=
  if c = '\n' then some 'n'
  else if c = '\r' then some 'r'
  else if c = '\t' then some 't'
  else if c = '\x00' then some '0'
  else if c = '\\' then some '\\'
  else none

/-- The character that a letter after a backslash stands for. -/
def unescape? (letter : Char) : Option Char :=
  if letter = 'n' then some '\n'
  else if letter = 'r' then some '\r'
  else if letter = 't' then some '\t'
  else if letter = '0' then some '\x00'
  else if letter = '"' then some '"'
  else if letter = '\\' then some '\\'
  else if letter = '\'' then some '\''
  else none

/-- What the writer escapes by a letter the reader turns back. -/
theorem unescape?_of_escapeLetter? {c letter : Char} (h : escapeLetter? c = some letter) :
    unescape? letter = some c := by
  unfold escapeLetter? at h
  repeat' split at h
  all_goals cases h
  all_goals subst_vars; rfl

/-- One character of a literal. `closes` holds of the quotes that would end the literal. -/
def escapeChar (closes : Char → Bool) (c : Char) : List Char :=
  match escapeLetter? c with
  | some letter => ['\\', letter]
  | none => if closes c then ['\\', c] else [c]

/-- The body of a literal that stands for the given characters. -/
def escape (closes : Char → Bool) (cs : List Char) : List Char := cs.flatMap (escapeChar closes)

/-- The body of a literal that stands for the given text. -/
def escaped (closes : Char → Bool) (s : String) : String := String.ofList (escape closes s.toList)

end Text

end Reckon
