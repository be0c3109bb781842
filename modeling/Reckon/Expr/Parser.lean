import Reckon.Expr.Basic
import Reckon.Token.Basic

/-!
# Reading expressions

The grammar, loosest level first:

* a statement is `let name = comparison` or a comparison;
* a comparison is `!` and a comparison, or operands of the next level joined by
  `== != > < >= <=`;
* the six levels below are joined by `|`, by `^`, by `&`, by `>> <<`, by `+ -` and by `* / %`, each
  grouping to the left;
* a signed operand is `+` or `-` and a signed operand, or a power;
* a power is an atom, or an atom, `**` and a signed operand;
* an atom is a literal, a constant, a name, a name with `=` and a comparison, or a comparison in
  parentheses.

`parseAt` reads any of these levels. One of its arguments bounds how many levels may be open at
once; every step from one level into another uses up one, and running out is an error of its own.
The recursion is on that bound, which makes the bound part of the meaning and the definition total.
Loops over operands and statements are bounded by the number of tokens, which they cannot exhaust.
-/

namespace Reckon

/-! ### Errors -/

/-- What the grammar asks for at some point. -/
inductive Wanted where
  | name
  | assignSign
  | expression
  | closeParen
  | statementEnd
  | inputEnd
deriving DecidableEq, Repr

/-- The wording of what is asked for. -/
def Wanted.describe : Wanted → String
  | name => "identifier"
  | assignSign => "'='"
  | expression => "expression"
  | closeParen => "')'"
  | statementEnd => "';' or end of input"
  | inputEnd => "end of input"

/-- What was still missing when the input ended, a closing parenthesis apart. -/
inductive Missing where
  | operand
  | declaredName
  | declaredSign
deriving DecidableEq, Repr

/-- The wording of an input that ended early. -/
def Missing.message : Missing → String
  | operand => "unexpected end of input"
  | declaredName => "expected identifier after 'let', found end of input"
  | declaredSign => "expected '=', found end of input"

/-- Why tokens do not form a statement, and where. -/
inductive ParseError where
  /-- A token that cannot stand where it does. -/
  | unexpected (wanted : Wanted) (found : Lexeme) (pos : Nat)
  /-- The word `let` in place of an operand. -/
  | misplacedLet (pos : Nat)
  /-- The input ended where more was required. -/
  | inputEnded (missing : Missing) (pos : Nat)
  /-- The input ended inside a parenthesis. -/
  | unclosedGroup (pos : Nat)
  /-- A reserved word in place of a variable name. -/
  | reserved (name : String) (pos : Nat)
  /-- More levels open at once than allowed. -/
  | nestingTooDeep
deriving DecidableEq

namespace ParseError

/-- Where the error is, if it has a place. -/
def pos? : ParseError → Option Nat
  | unexpected _ _ pos => some pos
  | misplacedLet pos => some pos
  | inputEnded _ pos => some pos
  | unclosedGroup pos => some pos
  | reserved _ pos => some pos
  | nestingTooDeep => none

/-- The wording of the error without its place. -/
def description : ParseError → String
  | unexpected wanted found _ => "expected " ++ wanted.describe ++ ", found " ++ found.describe
  | misplacedLet _ => "expected expression, found keyword 'let'"
  | inputEnded missing _ => missing.message
  | unclosedGroup _ => "expected ')', found end of input"
  | reserved name _ => "'" ++ name ++ "' is reserved and cannot be used as a variable name"
  | nestingTooDeep => "expression is nested too deeply"

/-- The wording of the error. -/
def message (e : ParseError) : String :=
  match e.pos? with
  | some pos => e.description ++ " at " ++ pos.repr
  | none => e.description

/-- More input could still make a statement of what is there. -/
def isIncomplete : ParseError → Bool
  | inputEnded .. | unclosedGroup _ => true
  | _ => false

end ParseError

/-! ### Input -/

/-- The tokens in front of the end of the input, and where that end is. -/
structure ParseInput where
  tokens : List Token
  stop : Nat
deriving DecidableEq

/-- The input that a list of tokens holds. It ends at the first end marker; without one it ends
where the last token starts, or at `0` if there is none. -/
def ParseInput.ofTokens (ts : List Token) : ParseInput where
  tokens := ts.takeWhile (!·.isEnd)
  stop :=
    match ts.find? Token.isEnd with
    | some t => t.pos
    | none => (ts.getLast?.map Token.pos).getD 0

namespace Expr

/-- A reader either fails or returns what it read and the tokens after it. -/
abbrev Reader := List Token → Except ParseError (Expr × List Token)

/-! ### Levels -/

/-- The levels of the grammar below a statement, loosest first. -/
inductive Level where
  | comparison | union | exclusive | intersection | shift | sum | product | signed | power | atom
deriving DecidableEq, Repr

/-- The next tighter level. -/
def Level.tighter : Level → Level
  | comparison => union
  | union => exclusive
  | exclusive => intersection
  | intersection => shift
  | shift => sum
  | sum => product
  | product => signed
  | signed => power
  | power => atom
  | atom => atom

/-- The symbols that join operands on a level, grouping to the left. -/
def Level.symbols : Level → List Symbol
  | comparison => [.equal, .notEqual, .greater, .less, .atLeast, .atMost]
  | union => [.pipe]
  | exclusive => [.caret]
  | intersection => [.ampersand]
  | shift => [.shiftRight, .shiftLeft]
  | sum => [.plus, .minus]
  | product => [.star, .slash, .percent]
  | signed | power | atom => []

/-- The symbol joins operands on the level. -/
def Level.joins (level : Level) (s : Symbol) : Bool := level.symbols.contains s

/-! ### Readers -/

/-- Reads an operand and puts an operator in front of it. -/
def readUnary (op : Symbol) (operand : Reader) : Reader := fun tokens =>
  match operand tokens with
  | .error e => .error e
  | .ok (e, rest) => .ok (.unary op e, rest)

/-- Continues a chain of operands after `left`, as long as a joining symbol follows. The number
bounds how many more operands there may be; the number of tokens is always enough. -/
def readChain (joins : Symbol → Bool) (operand : Reader) : Nat → Expr → Reader
  | 0, left, tokens => .ok (left, tokens)
  | fuel + 1, left, tokens =>
    match tokens with
    | ⟨.symbol s, _⟩ :: rest =>
      if joins s then
        match operand rest with
        | .error e => .error e
        | .ok (right, rest') => readChain joins operand fuel (.binary s left right) rest'
      else
        .ok (left, tokens)
    | _ => .ok (left, tokens)

/-- Reads operands joined by symbols, grouping to the left. `size` bounds how many there may be. -/
def readJoined (size : Nat) (joins : Symbol → Bool) (operand : Reader) : Reader := fun tokens =>
  match operand tokens with
  | .error e => .error e
  | .ok (left, rest) => readChain joins operand size left rest

/-- Reads the closing parenthesis after `e`. -/
def readClose (stop : Nat) (e : Expr) : Reader
  | [] => .error (.unclosedGroup stop)
  | ⟨.endOfInput, pos⟩ :: _ => .error (.unclosedGroup pos)
  | ⟨found, pos⟩ :: rest =>
    if found = .symbol .closeParen then .ok (e, rest)
    else .error (.unexpected .closeParen found pos)

/-- Reads what an identifier at `pos` starts: an assignment when `=` follows, else a constant or a
name. -/
def readIdentifier (value : Reader) (name : String) (pos : Nat) : Reader
  | ⟨.symbol .assign, _⟩ :: rest =>
    if isReserved name then
      .error (.reserved name pos)
    else
      match value rest with
      | .error e => .error e
      | .ok (e, rest') => .ok (.assign name e, rest')
  | tokens =>
    match constant? name with
    | some v => .ok (.literal v, tokens)
    | none =>
      if name = declareWord then .error (.misplacedLet pos) else .ok (.access name, tokens)

/-- Reads an atom. `inner` reads the comparison inside parentheses or after `=`. -/
def readAtom (stop : Nat) (inner : Reader) : Reader
  | [] => .error (.inputEnded .operand stop)
  | ⟨.endOfInput, pos⟩ :: _ => .error (.inputEnded .operand pos)
  | ⟨.number x, _⟩ :: rest => .ok (.literal (.number x), rest)
  | ⟨.string s, _⟩ :: rest => .ok (.literal (.string s), rest)
  | ⟨.char c, _⟩ :: rest => .ok (.literal (.char c), rest)
  | ⟨.identifier name, pos⟩ :: rest => readIdentifier inner name pos rest
  | ⟨.symbol s, pos⟩ :: rest =>
    if s = .openParen then
      match inner rest with
      | .error e => .error e
      | .ok (e, rest') => readClose stop e rest'
    else
      .error (.unexpected .expression (.symbol s) pos)

/-- Reads `**` and its right operand after `base`, if they follow. -/
def readPower (exponent : Reader) (base : Expr) : Reader
  | ⟨.symbol .power, _⟩ :: rest =>
    match exponent rest with
    | .error e => .error e
    | .ok (e, rest') => .ok (.binary .power base e, rest')
  | tokens => .ok (base, tokens)

/-- Reads an expression of the given level in an input of `size` tokens that ends at `stop`. The
third number says how many levels may still be opened. -/
def parseAt (stop size : Nat) : Nat → Level → Reader
  | 0, _, _ => .error .nestingTooDeep
  | depth + 1, level, tokens =>
    match level with
    | .comparison =>
      match tokens with
      | ⟨.symbol .bang, _⟩ :: rest => readUnary .bang (parseAt stop size depth .comparison) rest
      | _ => readJoined size Level.comparison.joins (parseAt stop size depth .union) tokens
    | .signed =>
      match tokens with
      | ⟨.symbol .plus, _⟩ :: rest => readUnary .plus (parseAt stop size depth .signed) rest
      | ⟨.symbol .minus, _⟩ :: rest => readUnary .minus (parseAt stop size depth .signed) rest
      | _ => parseAt stop size depth .power tokens
    | .power =>
      match parseAt stop size depth .atom tokens with
      | .error e => .error e
      | .ok (base, rest) => readPower (parseAt stop size depth .signed) base rest
    | .atom => readAtom stop (parseAt stop size depth .comparison) tokens
    | level => readJoined size level.joins (parseAt stop size depth level.tighter) tokens

/-! ### Statements -/

/-- Reads the `=` of a declaration and its value, which `value` reads. -/
def readInit (stop : Nat) (value : Reader) (name : String) : Reader
  | [] => .error (.inputEnded .declaredSign stop)
  | ⟨.endOfInput, pos⟩ :: _ => .error (.inputEnded .declaredSign pos)
  | ⟨found, pos⟩ :: rest =>
    if found = .symbol .assign then
      match value rest with
      | .error e => .error e
      | .ok (e, rest') => .ok (.declare name e, rest')
    else
      .error (.unexpected .assignSign found pos)

/-- Reads a declaration after its first word. -/
def readDeclaration (stop : Nat) (value : Reader) : Reader
  | [] => .error (.inputEnded .declaredName stop)
  | ⟨.endOfInput, pos⟩ :: _ => .error (.inputEnded .declaredName pos)
  | ⟨.identifier name, pos⟩ :: rest =>
    if isReserved name then .error (.reserved name pos) else readInit stop value name rest
  | ⟨found, pos⟩ :: _ => .error (.unexpected .name found pos)

/-- Reads one statement. `value` reads a comparison. -/
def readStatement (stop : Nat) (value : Reader) : Reader
  | ⟨.identifier word, pos⟩ :: rest =>
    if word = declareWord then
      readDeclaration stop value rest
    else
      value (⟨.identifier word, pos⟩ :: rest)
  | tokens => value tokens

/-- The token, if there is one, that keeps a statement from ending in front of `tokens`. -/
def blockingToken? : List Token → Option Token
  | [] => none
  | t :: _ => if t.lexeme = .symbol .semicolon || t.isEnd then none else some t

/-- Reads statements separated by semicolons, skipping empty ones. `statement` reads one. The number
bounds the number of rounds; the number of tokens is always enough. -/
def readStatements (statement : Reader) : Nat → List Token → Except ParseError (List Expr)
  | 0, _ => .ok []
  | _ + 1, [] => .ok []
  | fuel + 1, t :: rest =>
    if t.lexeme = .symbol .semicolon then
      readStatements statement fuel rest
    else
      match statement (t :: rest) with
      | .error e => .error e
      | .ok (e, rest') =>
        match blockingToken? rest' with
        | some found => .error (.unexpected .statementEnd found.lexeme found.pos)
        | none =>
          match readStatements statement fuel rest' with
          | .error e => .error e
          | .ok es => .ok (e :: es)

/-- How many levels may be open at once when nothing else is said. -/
def nestingLimit : Nat := 1000

/-- Reads one statement of an input of `size` tokens that ends at `stop`, opening at most `limit`
levels at once. -/
def parseStatementAt (stop size limit : Nat) : Reader :=
  readStatement stop (parseAt stop size limit .comparison)

/-- The statements that the tokens hold, opening at most `limit` levels at once. -/
def parseProgramWithin (limit : Nat) (ts : List Token) : Except ParseError (List Expr) :=
  let input := ParseInput.ofTokens ts
  let size := input.tokens.length
  readStatements (parseStatementAt input.stop size limit) size input.tokens

/-- The statements that the tokens hold. -/
def parseProgram (ts : List Token) : Except ParseError (List Expr) :=
  parseProgramWithin nestingLimit ts

/-- The one statement that the tokens hold, with at most one semicolon after it, opening at most
`limit` levels at once. -/
def parseWithin (limit : Nat) (ts : List Token) : Except ParseError Expr :=
  let input := ParseInput.ofTokens ts
  match parseStatementAt input.stop input.tokens.length limit input.tokens with
  | .error e => .error e
  | .ok (e, rest) =>
    match blockingToken? rest with
    | some found => .error (.unexpected .statementEnd found.lexeme found.pos)
    | none =>
      match rest with
      | _ :: found :: _ => .error (.unexpected .inputEnd found.lexeme found.pos)
      | _ => .ok e

/-- The one statement that the tokens hold. -/
def parse (ts : List Token) : Except ParseError Expr := parseWithin nestingLimit ts

end Expr

end Reckon
