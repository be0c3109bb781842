import Reckon.Text.Printable

/-!
# Quoted text in diagnostics

A text is shown between single quotes, or between double quotes when it holds a single quote and no
double one. Inside, the backslash, the quote in use and the three common control characters are
escaped by a letter or themselves, and every other character that is not printable by its code
point in hexadecimal.
-/

namespace Reckon

namespace Text

/-- The last `width` hexadecimal digits of a number, in lower case. -/
def hex (width n : Nat) : List Char :=
  let body := Nat.toDigits 16 n
  List.replicate (width - body.length) '0' ++ body

/-- A code point in the shortest of the three escapes that can hold it. -/
def codePointEscape (code : Nat) : List Char :=
  if code < 0x100 then '\\' :: 'x' :: hex 2 code
  else if code < 0x10000 then '\\' :: 'u' :: hex 4 code
  else '\\' :: 'U' :: hex 8 code

/-- One character of a quoted text. -/
def quotedChar (quote c : Char) : List Char :=
  if c = quote || c = '\\' then ['\\', c]
  else if c = '\n' then ['\\', 'n']
  else if c = '\r' then ['\\', 'r']
  else if c = '\t' then ['\\', 't']
  else if isPrintable c then [c]
  else codePointEscape c.toNat

/-- The quote that delimits a text. -/
def quoteFor (cs : List Char) : Char :=
  if cs.contains '\'' && !cs.contains '"' then '"' else '\''

/-- The text between quotes. -/
def quoted (s : String) : String :=
  let cs := s.toList
  let quote := quoteFor cs
  String.ofList (quote :: (cs.flatMap (quotedChar quote) ++ [quote]))

end Text

end Reckon
