import Reckon.Text.DecimalDigit
import Reckon.Text.Terminal
import Reckon.Text.WordChar

/-!
# Marking numbers and truth values in a result

Numbers and truth values in a printed result are marked by spans. Digits may be of any script. A
span ends where no word character follows; a number may start inside a word, the words `NaN`,
`true` and `false` may not.

Each kind is looked for from left to right, and the search goes on after a match.
-/

namespace Reckon

namespace Highlight

/-- How a span is marked. -/
inductive Style where
  | number
  | bool
deriving DecidableEq, Repr

/-- The name of a style. -/
def Style.name : Style → String
  | number => "ember.number"
  | bool => "ember.bool"

/-- A part of a text, from `start` up to `stop`, and its style. -/
structure Span where
  start : Nat
  stop : Nat
  style : Style
deriving DecidableEq, Repr

/-! ### Matches at one place -/

/-- No word character comes first. -/
def wordEnds (cs : List Char) : Bool := !(cs.head?.any Text.isWordChar)

/-- The length of the given word at the front, when it ends there. -/
def wordLength? (word cs : List Char) : Option Nat :=
  if word.isPrefixOf cs && wordEnds (cs.drop word.length) then some word.length else none

/-- The length of the unsigned number at the front. A fraction is taken when the number ends after
it, and left out when only the digits before the point form a number. -/
def unsignedLength? (cs : List Char) : Option Nat :=
  let whole := cs.takeWhile Text.isDecimalDigit
  if whole.isEmpty then
    wordLength? "inf".toList cs
  else
    match cs.dropWhile Text.isDecimalDigit with
    | '.' :: rest =>
      let fraction := rest.takeWhile Text.isDecimalDigit
      if !fraction.isEmpty && wordEnds (rest.dropWhile Text.isDecimalDigit) then
        some (whole.length + 1 + fraction.length)
      else
        some whole.length
    | rest => if wordEnds rest then some whole.length else none

/-- The length of the number at the front, when `before` is the character in front of it. -/
def numberLength? (before : Option Char) (cs : List Char) : Option Nat :=
  match cs with
  | '-' :: rest => (unsignedLength? rest).map (· + 1)
  | _ =>
    match unsignedLength? cs with
    | some length => some length
    | none => if before.any Text.isWordChar then none else wordLength? "NaN".toList cs

/-- The length of the truth value at the front, when `before` is the character in front of it. -/
def boolLength? (before : Option Char) (cs : List Char) : Option Nat :=
  if before.any Text.isWordChar then none
  else (wordLength? "true".toList cs).or (wordLength? "false".toList cs)

/-! ### Matches in a text -/

/-- The spans of one style among the characters that start at `pos`, when `before` is the character
in front of them. -/
def spansFrom (length? : Option Char → List Char → Option Nat) (style : Style) (pos : Nat)
    (before : Option Char) : List Char → List Span
  | [] => []
  | c :: rest =>
    match length? before (c :: rest) with
    | some length =>
      ⟨pos, pos + length, style⟩ ::
        spansFrom length? style (pos + length) ((c :: rest.take (length - 1)).getLast?)
          (rest.drop (length - 1))
    | none => spansFrom length? style (pos + 1) (some c) rest
termination_by cs => cs.length
decreasing_by
  · rw [List.length_drop, List.length_cons]; omega
  · rw [List.length_cons]; omega

/-- One span comes before another. -/
def Span.before (a b : Span) : Bool := a.start < b.start || (a.start == b.start && a.stop ≤ b.stop)

/-- The spans of a text, from left to right. Offsets count the characters that are left after the
controls that a terminal acts on are dropped. -/
def spans (text : String) : List Span :=
  let cs := Text.dropControls text.toList
  (spansFrom numberLength? .number 0 none cs ++ spansFrom boolLength? .bool 0 none cs).mergeSort
    Span.before

end Highlight

end Reckon
