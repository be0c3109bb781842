import Reckon.Text.CellWidth

/-!
# Text on its way to a terminal

What a terminal would act on rather than show is taken out of a text before it is printed: some
controls are dropped, tabs become spaces, and colour sequences are removed.
-/

namespace Reckon

namespace Text

/-- Bell, backspace, vertical tab, form feed and carriage return. -/
def isTerminalControl (c : Char) : Bool :=
  c.val == 0x07 || c.val == 0x08 || (0x0b ≤ c.val && c.val ≤ 0x0d)

/-- The characters without the controls that move the cursor or ring the bell. -/
def dropControls (cs : List Char) : List Char := cs.filter (!isTerminalControl ·)

/-- The distance between tab stops. -/
def tabSize : Nat := 8

/-- The number of spaces that a tab turns into. `before` is what stands between it and the tab stop
on its left. The first space is counted with `before`, as a joiner may fuse the two; the others
lead up to the next tab stop. -/
def tabSpaces (before : List Char) : Nat :=
  let cells := cellCount (before ++ [' '])
  1 + (tabSize - cells % tabSize) % tabSize

/-- The characters with each tab turned into spaces. `before` holds what stands since the last tab
stop, the last character first. -/
def expandTabs (before : List Char) : List Char → List Char
  | [] => []
  | c :: rest =>
    if c = '\t' then
      List.replicate (tabSpaces before.reverse) ' ' ++ expandTabs [] rest
    else if c = '\n' then
      c :: expandTabs [] rest
    else
      c :: expandTabs (c :: before) rest

/-- The characters after a colour sequence whose escape and bracket have been read: parameters, then
one letter. -/
def afterColour? (cs : List Char) : Option (List Char) :=
  match cs.dropWhile fun c => c.isDigit || c == ';' || c == '?' with
  | c :: rest => if c.isAlpha then some rest else none
  | [] => none

/-- The characters without colour sequences. `fuel` bounds the number of steps; the number of
characters is always enough. -/
def dropColours : Nat → List Char → List Char
  | 0, _ => []
  | _ + 1, [] => []
  | fuel + 1, '\x1b' :: '[' :: rest =>
    match afterColour? rest with
    | some after => dropColours fuel after
    | none => '\x1b' :: dropColours fuel ('[' :: rest)
  | fuel + 1, c :: rest => c :: dropColours fuel rest

/-- A line as the console prints it. -/
def consoleLine (s : String) : String :=
  String.ofList (expandTabs [] (dropControls s.toList) ++ ['\n'])

/-- A line as a command prints it. -/
def plainLine (s : String) : String :=
  let cs := s.toList ++ ['\n']
  String.ofList (dropColours cs.length cs)

end Text

end Reckon
