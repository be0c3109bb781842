import Reckon.Token.Basic

/-!
# Reading tokens

`lex` splits a source text into tokens, the last of which marks its end. Blanks separate tokens and
are skipped; every other character starts a token, and its first character decides which kind:

* a digit or a point starts a number, a run of digits and points with at most one point and at
  least one digit;
* a letter, an underscore or a dollar sign starts an identifier;
* a quote starts a literal, whose body is read in *units*: one character, or a backslash and the
  character after it;
* any other character has to be a symbol, and two characters are taken where they form one.

Each scanner looks only at the characters from the start of its token on and reports offsets from
there, so that lexing a text after a token is lexing it alone and shifting the positions.
-/

namespace Reckon

/-! ### Errors -/

/-- Why characters do not form a token. -/
inductive LexFault where
  | unexpectedCharacter (c : Char)
  | malformedNumber (text : String)
  | unterminatedString
  | unterminatedChar
  | unknownEscape (letter : Char)
  | charLiteralTooLong
  | emptyCharLiteral
  /-- A literal that was taken for a character and is none. -/
  | notOneCharacter (e : Value.NotOneCharacter)
deriving DecidableEq, Repr

/-- A fault and the offset it is reported at. -/
structure LexError where
  fault : LexFault
  pos : Nat
deriving DecidableEq, Repr

/-- The wording of a fault. -/
def LexFault.message : LexFault → String
  | unexpectedCharacter c => "unexpected character " ++ Text.quoted c.toString
  | malformedNumber text => "malformed number " ++ Text.quoted text
  | unterminatedString => "unterminated string literal"
  | unterminatedChar => "unterminated char literal"
  | unknownEscape letter => "unknown escape sequence '\\" ++ letter.toString ++ "'"
  | charLiteralTooLong => "char literal must contain exactly one character"
  | emptyCharLiteral => "empty char literal"
  | notOneCharacter e => e.message

/-- The wording of an error. -/
def LexError.message (e : LexError) : String := e.fault.message ++ " at " ++ e.pos.repr

/-- The same error, further right. -/
def LexError.shift (offset : Nat) (e : LexError) : LexError := ⟨e.fault, offset + e.pos⟩

/-- The error is none of the language's own. -/
def LexError.isInternal (e : LexError) : Bool :=
  match e.fault with
  | .notOneCharacter _ => true
  | _ => false

namespace Token

/-! ### Numbers and identifiers -/

/-- The character can stand in a number. -/
def isNumeralChar (c : Char) : Bool := c.isDigit || c == '.'

/-- The character can start an identifier. -/
def isIdentifierStart (c : Char) : Bool := c.isAlpha || c == '_' || c == '$'

/-- The character can continue an identifier. -/
def isIdentifierChar (c : Char) : Bool := isIdentifierStart c || c.isDigit

/-- The number that a run of digits and points spells. -/
def numeral (run : List Char) : Except LexError Binary64 :=
  if 1 < run.count '.' || run == ['.'] then
    .error ⟨.malformedNumber (String.ofList run), 0⟩
  else
    .ok (Binary64.ofNumeral false (run.takeWhile Char.isDigit)
      ((run.dropWhile Char.isDigit).drop 1))

/-! ### Literals -/

/-- Reads the body of a string literal and its closing quote. `offset` is the distance from the
opening quote. Returns the characters that the body stands for and the offset past the closing
quote. -/
def stringBody (offset : Nat) : List Char → Except LexError (List Char × Nat)
  | [] => .error ⟨.unterminatedString, 0⟩
  | '\\' :: [] => .error ⟨.unterminatedString, 0⟩
  | '\\' :: letter :: rest =>
    match Text.unescape? letter with
    | none => .error ⟨.unknownEscape letter, offset⟩
    | some c =>
      match stringBody (offset + 2) rest with
      | .error e => .error e
      | .ok (cs, past) => .ok (c :: cs, past)
  | c :: rest =>
    if c = '"' then
      .ok ([], offset + 1)
    else
      match stringBody (offset + 1) rest with
      | .error e => .error e
      | .ok (cs, past) => .ok (c :: cs, past)

/-- A quote stands among the characters, outside escape units. -/
def closesLater : List Char → Bool
  | [] => false
  | '\\' :: [] => false
  | '\\' :: _ :: rest => closesLater rest
  | c :: rest => c == '\'' || closesLater rest

/-- Ends a character literal after its first unit, which stands for `c` and reaches to `offset`
from the opening quote. -/
def closeChar (c : Char) (offset : Nat) (rest : List Char) : Except LexError (Char × Nat) :=
  if rest.head? = some '\'' then
    match Value.charOfText c.toString with
    | .ok d => .ok (d, offset + 1)
    | .error e => .error ⟨.notOneCharacter e, 0⟩
  else if closesLater rest then .error ⟨.charLiteralTooLong, 0⟩
  else .error ⟨.unterminatedChar, 0⟩

/-- A unit stands for one character, so there is nothing to complain about. -/
theorem closeChar_eq (c : Char) (offset : Nat) (rest : List Char) :
    closeChar c offset rest =
      if rest.head? = some '\'' then .ok (c, offset + 1)
      else if closesLater rest then .error ⟨.charLiteralTooLong, 0⟩
      else .error ⟨.unterminatedChar, 0⟩ := by
  rw [closeChar, Value.charOfText_toString]

/-- Reads the body of a character literal and its closing quote. Returns the character and the
offset past the closing quote. -/
def charBody : List Char → Except LexError (Char × Nat)
  | [] => .error ⟨.unterminatedChar, 0⟩
  | '\\' :: [] => .error ⟨.unterminatedChar, 0⟩
  | '\\' :: letter :: rest =>
    match Text.unescape? letter with
    | none => .error ⟨.unknownEscape letter, 1⟩
    | some c => closeChar c 3 rest
  | c :: rest => if c = '\'' then .error ⟨.emptyCharLiteral, 0⟩ else closeChar c 2 rest

/-! ### Tokens -/

/-- Reads a symbol, of two characters where they form one. -/
def scanSymbol (c : Char) (rest : List Char) : Except LexError (Lexeme × Nat) :=
  match rest.head?.bind (Symbol.ofPair? c) with
  | some s => .ok (.symbol s, 2)
  | none =>
    match Symbol.ofChar? c with
    | some s => .ok (.symbol s, 1)
    | none => .error ⟨.unexpectedCharacter c, 0⟩

/-- Reads the token that starts with the character `c`, which is no blank. Returns the lexeme and
the number of characters it takes, or an error at an offset from `c`. -/
def scan (c : Char) (rest : List Char) : Except LexError (Lexeme × Nat) :=
  if isNumeralChar c then
    let run := c :: rest.takeWhile isNumeralChar
    match numeral run with
    | .error e => .error e
    | .ok x => .ok (.number x, run.length)
  else if isIdentifierStart c then
    let run := c :: rest.takeWhile isIdentifierChar
    .ok (.identifier (String.ofList run), run.length)
  else if c = '"' then
    match stringBody 1 rest with
    | .error e => .error e
    | .ok (cs, past) => .ok (.string (String.ofList cs), past)
  else if c = '\'' then
    match charBody rest with
    | .error e => .error e
    | .ok (d, past) => .ok (.char d, past)
  else
    scanSymbol c rest

/-- The tokens of the characters that start at offset `pos` of a source. -/
def lexFrom (pos : Nat) : List Char → Except LexError (List Token)
  | [] => .ok [⟨.endOfInput, pos⟩]
  | c :: rest =>
    if Text.isBlank c then
      lexFrom (pos + 1) rest
    else
      match scan c rest with
      | .error e => .error (e.shift pos)
      | .ok (lexeme, width) =>
        match lexFrom (pos + width) (rest.drop (width - 1)) with
        | .error e => .error e
        | .ok tokens => .ok (⟨lexeme, pos⟩ :: tokens)
termination_by cs => cs.length
decreasing_by
  · rw [List.length_cons]; omega
  · rw [List.length_drop, List.length_cons]; omega

/-- The tokens of a source text, ended by the token that marks its end. -/
def lex (source : String) : Except LexError (List Token) := lexFrom 0 source.toList

end Token

end Reckon
