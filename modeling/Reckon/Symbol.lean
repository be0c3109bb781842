/-!
# Symbols

The operators and punctuation marks of the language. Not all of them have a meaning: brackets,
braces and the colon are symbols that no expression uses.
-/

namespace Reckon

/-- An operator or punctuation mark. -/
inductive Symbol where
  | plus | minus | star | power | slash | percent
  | equal | notEqual | greater | less | atLeast | atMost
  | pipe | ampersand | caret | shiftRight | shiftLeft
  | bang | assign
  | openParen | closeParen | openBracket | closeBracket | openBrace | closeBrace
  | colon | semicolon
deriving DecidableEq, Repr

namespace Symbol

/-- How the symbol is written. -/
def spelling : Symbol → String
  | plus => "+"
  | minus => "-"
  | star => "*"
  | power => "**"
  | slash => "/"
  | percent => "%"
  | equal => "=="
  | notEqual => "!="
  | greater => ">"
  | less => "<"
  | atLeast => ">="
  | atMost => "<="
  | pipe => "|"
  | ampersand => "&"
  | caret => "^"
  | shiftRight => ">>"
  | shiftLeft => "<<"
  | bang => "!"
  | assign => "="
  | openParen => "("
  | closeParen => ")"
  | openBracket => "["
  | closeBracket => "]"
  | openBrace => "\x7b"
  | closeBrace => "\x7d"
  | colon => ":"
  | semicolon => ";"

/-- The name of the symbol in diagnostics. -/
def name : Symbol → String
  | plus => "PLUS"
  | minus => "MINUS"
  | star => "STAR"
  | power => "STAR_STAR"
  | slash => "SLASH"
  | percent => "PERCENT"
  | equal => "EQUALS_EQUALS"
  | notEqual => "BANG_EQUALS"
  | greater => "GREATER"
  | less => "LESS"
  | atLeast => "GREATER_EQUALS"
  | atMost => "LESS_EQUALS"
  | pipe => "PIPE"
  | ampersand => "AMPERSAND"
  | caret => "CARET"
  | shiftRight => "GREATER_GREATER"
  | shiftLeft => "LESS_LESS"
  | bang => "BANG"
  | assign => "EQUALS"
  | openParen => "LPAREN"
  | closeParen => "RPAREN"
  | openBracket => "LBRACKET"
  | closeBracket => "RBRACKET"
  | openBrace => "LBRACE"
  | closeBrace => "RBRACE"
  | colon => "COLON"
  | semicolon => "SEMICOLON"

/-- All symbols. -/
def all : List Symbol := [
  plus, minus, star, power, slash, percent,
  equal, notEqual, greater, less, atLeast, atMost,
  pipe, ampersand, caret, shiftRight, shiftLeft,
  bang, assign,
  openParen, closeParen, openBracket, closeBracket, openBrace, closeBrace,
  colon, semicolon]

/-- The symbol with the given spelling. -/
def ofSpelling? (text : String) : Option Symbol := all.find? (·.spelling == text)

/-- No two symbols are spelled alike. -/
theorem ofSpelling?_spelling (s : Symbol) : ofSpelling? s.spelling = some s := by
  cases s <;> rfl

/-- The symbol written with one character. -/
def ofChar? (c : Char) : Option Symbol :=
  match c with
  | '+' => some plus
  | '-' => some minus
  | '*' => some star
  | '/' => some slash
  | '%' => some percent
  | '>' => some greater
  | '<' => some less
  | '|' => some pipe
  | '&' => some ampersand
  | '^' => some caret
  | '!' => some bang
  | '=' => some assign
  | '(' => some openParen
  | ')' => some closeParen
  | '[' => some openBracket
  | ']' => some closeBracket
  | '\x7b' => some openBrace
  | '\x7d' => some closeBrace
  | ':' => some colon
  | ';' => some semicolon
  | _ => none

/-- The symbol written with two characters. -/
def ofPair? (c d : Char) : Option Symbol :=
  match c, d with
  | '*', '*' => some power
  | '=', '=' => some equal
  | '!', '=' => some notEqual
  | '>', '=' => some atLeast
  | '>', '>' => some shiftRight
  | '<', '=' => some atMost
  | '<', '<' => some shiftLeft
  | _, _ => none

/-- The diagnostic form: name and spelling. -/
def debug (s : Symbol) : String := "<Op." ++ s.name ++ ": '" ++ s.spelling ++ "'>"

end Symbol

end Reckon
