import Reckon.Eval.Basic
import Reckon.Expr.Parser
import Reckon.Token.Lexer

/-!
# Running source text

`Session.eval` runs all statements of a source text in a scope. It is atomic: when any stage fails,
a snapshot taken before the first statement is put back, so the scope is as it was.

A run also leaves a trail of events, one for each stage that was completed, for those who want to
watch. Then the statements are shown before they are evaluated, and a statement with more levels
than can be shown ends the run with an error that is none of the language's own.

How much nesting there is room for, on every one of these ways, is for the caller to say.
-/

namespace Reckon

/-- Why a source text could not be run. -/
inductive Error where
  | lex (e : LexError)
  | parse (e : ParseError)
  | eval (e : EvalError)
  | restore (e : Scope.RestoreError)
  /-- A statement has more levels than can be shown to those who watch. -/
  | unshowable
deriving DecidableEq

namespace Error

/-- The wording of the error. -/
def message : Error → String
  | lex e => e.message
  | parse e => e.message
  | eval e => e.message
  | restore e => e.message
  | unshowable => "maximum recursion depth exceeded while getting the repr of an object"

/-- The wording of the error, with the stage that raised it in front. -/
def report : Error → String
  | lex e => "Lex error: " ++ e.message
  | parse e => "Parse error: " ++ e.message
  | eval e => "Runtime error: " ++ e.message
  | restore e => "Runtime error: " ++ e.message
  | unshowable => "Runtime error: " ++ unshowable.message

/-- More input could still make the source text run. -/
def isIncomplete : Error → Bool
  | parse e => e.isIncomplete
  | _ => false

/-- The error is none of the language's own, so that nobody reports it. -/
def isInternal : Error → Bool
  | lex e => e.isInternal
  | parse _ => false
  | eval e => e.isInternal
  | restore _ => true
  | unshowable => true

end Error

namespace Session

/-! ### Limits -/

/-- How deep things may be nested. -/
structure Limits where
  /-- How many levels the parser may have open at once. -/
  reading : Nat
  /-- How many levels an expression may have to be evaluated. -/
  evaluating : Nat
  /-- How many levels an expression may have to be shown, if anyone watches. -/
  showing : Option Nat
deriving DecidableEq

namespace Limits

/-- How many levels can be shown when nothing else is said. Showing a level takes three times the
room that evaluating it does, and there is less room left when it is done. -/
def showingLimit : Nat := 320

/-- The limits when nothing else is said. -/
def usual (watched : Bool) : Limits where
  reading := Expr.nestingLimit
  evaluating := Expr.nestingLimit
  showing := if watched then some showingLimit else none

/-- The expression can be shown, or nobody watches. -/
def shows (limits : Limits) (e : Expr) : Bool := limits.showing.all fun n => (e.debug? n).isSome

end Limits

/-! ### Runs -/

/-- A completed stage of a run. -/
inductive Event where
  | lexed (tokens : List Token)
  | parsed (statements : List Expr)
  | evaluated (scope : Scope)

/-- What a run came to. -/
structure Run where
  /-- The value of the last statement, if there is one, or the error. -/
  result : Except Error (Option Value)
  /-- The scope afterwards. -/
  scope : Scope
  /-- The stages that were completed. -/
  events : List Event

/-- Evaluates statements in order, and puts the scope back if one of them fails. -/
def evalStatements (limit : Nat) (statements : List Expr) (scope : Scope) :
    Except Error (Option Value) × Scope :=
  let saved := scope.snapshot
  match Expr.evaluateAll limit none statements scope with
  | (.ok v, after) => (.ok v, after)
  | (.error e, after) =>
    match after.restore saved with
    | (restored, .ok ()) => (.error (.eval e), restored)
    | (restored, .error r) => (.error (.restore r), restored)

/-- Runs all statements of a source text in a scope. -/
def run (limits : Limits) (source : String) (scope : Scope) : Run :=
  match Token.lex source with
  | .error e => ⟨.error (.lex e), scope, []⟩
  | .ok tokens =>
    match Expr.parseProgramWithin limits.reading tokens with
    | .error e => ⟨.error (.parse e), scope, [.lexed tokens]⟩
    | .ok statements =>
      if statements.all limits.shows then
        match evalStatements limits.evaluating statements scope with
        | (.ok v, after) =>
          ⟨.ok v, after, [.lexed tokens, .parsed statements, .evaluated after]⟩
        | (.error e, after) => ⟨.error e, after, [.lexed tokens, .parsed statements]⟩
      else
        ⟨.error .unshowable, scope, [.lexed tokens]⟩

/-- The value of the last statement of a source text, or an error, and the scope afterwards. -/
def eval (limits : Limits) (source : String) (scope : Scope) :
    Except Error (Option Value) × Scope :=
  let done := run limits source scope
  (done.result, done.scope)

end Session

end Reckon
