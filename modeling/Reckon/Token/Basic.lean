import Reckon.Symbol
import Reckon.Value

/-!
# Tokens

A token is a lexeme and the offset, in characters, at which it starts in the source.
-/

namespace Reckon

/-- What a token says. Keywords are identifiers. -/
inductive Lexeme where
  | number (x : Binary64)
  | identifier (name : String)
  | string (text : String)
  | char (c : Char)
  | symbol (s : Symbol)
  | endOfInput
deriving DecidableEq

namespace Lexeme

/-- The short form used in complaints about a token. -/
def describe : Lexeme → String
  | number _ => "number literal"
  | identifier name => "identifier '" ++ name ++ "'"
  | string _ => "string literal"
  | char _ => "char literal"
  | symbol s => "'" ++ s.spelling ++ "'"
  | endOfInput => "end of input"

/-- The diagnostic form. -/
def debug : Lexeme → String
  | number x => "Token(NUMBER, " ++ x.debug ++ ")"
  | identifier name => "Token(IDENTIFIER, " ++ Text.quoted name ++ ")"
  | string text => "Token(STRING, " ++ Text.quoted text ++ ")"
  | char c => "Token(CHAR, " ++ Value.debugChar c ++ ")"
  | symbol s => "Token(OPERATOR, " ++ s.debug ++ ")"
  | endOfInput => "Token(EOF)"

end Lexeme

/-- A lexeme and where it starts. -/
structure Token where
  lexeme : Lexeme
  pos : Nat
deriving DecidableEq

namespace Token

/-- The same token, further right. -/
def shift (offset : Nat) (t : Token) : Token := ⟨t.lexeme, offset + t.pos⟩

/-- The token marks the end of the input. -/
def isEnd (t : Token) : Bool := t.lexeme == .endOfInput

end Token

end Reckon
