import Reckon.Eval.Operators
import Reckon.Expr.Basic
import Reckon.Scope

/-!
# Evaluation

`Expr.evaluate` evaluates operands strictly from left to right. It returns a scope whether or not it
succeeds: bindings made before a failure are there after it, and undoing them is for the caller.

Its first argument bounds the depth of the expression, in the same spirit as the bound of the
parser.
-/

namespace Reckon

/-- A value or an error, and the scope afterwards. -/
abbrev Evaluated (α : Type) := Except EvalError α × Scope

namespace Scope

/-- The value bound to a name, which has to be bound. -/
def lookup (scope : Scope) (name : String) : Except EvalError Value :=
  match scope.get? name with
  | some v => .ok v
  | none => .error (.undefinedName name)

/-- Rebinds a name, which has to be bound. When it is not, the scope stays as it is. -/
def assign (scope : Scope) (name : String) (value : Value) : Evaluated Unit :=
  match scope.assign? name value with
  | some after => (.ok (), after)
  | none => (.error (.undefinedName name), scope)

end Scope

namespace Expr

/-- The value of an expression of depth at most `limit`, and the scope after its evaluation. -/
def evaluate (limit : Nat) (e : Expr) (scope : Scope) : Evaluated Value :=
  match limit with
  | 0 => (.error .nestingTooDeep, scope)
  | limit + 1 =>
    match e with
    | literal v => (.ok v, scope)
    | unary op operand =>
      match Value.unaryOperator? op with
      | none => (.error (.notUnary op), scope)
      | some apply =>
        match evaluate limit operand scope with
        | (.error e, scope) => (.error e, scope)
        | (.ok v, scope) => (apply v, scope)
    | binary op left right =>
      match Value.binaryOperator? op with
      | none => (.error (.notBinary op), scope)
      | some apply =>
        match evaluate limit left scope with
        | (.error e, scope) => (.error e, scope)
        | (.ok l, scope) =>
          match evaluate limit right scope with
          | (.error e, scope) => (.error e, scope)
          | (.ok r, scope) => (apply l r, scope)
    | declare name init =>
      match evaluate limit init scope with
      | (.error e, scope) => (.error e, scope)
      | (.ok v, scope) => (.ok v, scope.declare name v)
    | assign name value =>
      match evaluate limit value scope with
      | (.error e, scope) => (.error e, scope)
      | (.ok v, scope) =>
        match scope.assign name v with
        | (.error e, scope) => (.error e, scope)
        | (.ok (), scope) => (.ok v, scope)
    | access name => (scope.lookup name, scope)

/-- The value of the last of some statements, `last` if there are none, each evaluated in the scope
that the one before it left. -/
def evaluateAll (limit : Nat) (last : Option Value) : List Expr → Scope → Evaluated (Option Value)
  | [], scope => (.ok last, scope)
  | e :: rest, scope =>
    match evaluate limit e scope with
    | (.error err, scope) => (.error err, scope)
    | (.ok v, scope) => evaluateAll limit (some v) rest scope

end Expr

end Reckon
