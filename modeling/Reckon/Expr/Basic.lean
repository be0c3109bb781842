import Reckon.Symbol
import Reckon.Value

/-!
# Expressions

One statement is one expression. A declaration is an expression too, though it can only stand at
the top of a statement.

Operators are kept as symbols. Which symbols have a meaning as an operator is decided where
operators are applied, so that an expression can be built and shown whatever its symbols.
-/

namespace Reckon

/-- An expression. -/
inductive Expr where
  /-- A value written out. -/
  | literal (v : Value)
  /-- An operator in front of its operand. -/
  | unary (op : Symbol) (operand : Expr)
  /-- An operator between its operands. -/
  | binary (op : Symbol) (left right : Expr)
  /-- Binds a name in the innermost scope. -/
  | declare (name : String) (init : Expr)
  /-- Rebinds a name where it is bound. -/
  | assign (name : String) (value : Expr)
  /-- The value bound to a name. -/
  | access (name : String)
deriving DecidableEq

namespace Expr

/-- The word that starts a declaration. -/
def declareWord : String := "let"

/-- The value of a word that names a constant. -/
def constant? (word : String) : Option Value :=
  if word = "true" then some (.bool true)
  else if word = "false" then some (.bool false)
  else if word = "inf" then some (.number (.inf false))
  else if word = "NaN" then some (.number .nan)
  else none

/-- The word cannot name a variable. -/
def isReserved (word : String) : Bool := word == declareWord || (constant? word).isSome

/-- How many levels the expression has. -/
def depth : Expr → Nat
  | literal _ | access _ => 1
  | unary _ e | declare _ e | assign _ e => e.depth + 1
  | binary _ l r => max l.depth r.depth + 1

/-- The diagnostic form of an expression of at most `limit` levels. -/
def debug? (limit : Nat) (e : Expr) : Option String :=
  match limit with
  | 0 => none
  | limit + 1 =>
    match e with
    | literal v => some ("Literal(value=" ++ v.debug ++ ")")
    | unary op operand =>
      (operand.debug? limit).map fun text =>
        "UnaryOp(op=" ++ op.debug ++ ", operand=" ++ text ++ ")"
    | binary op left right => do
      let leftText ← left.debug? limit
      let rightText ← right.debug? limit
      return "BinaryOp(left=" ++ leftText ++ ", op=" ++ op.debug ++ ", right=" ++ rightText ++ ")"
    | declare name init =>
      (init.debug? limit).map fun text =>
        "VariableDeclare(name=" ++ Text.quoted name ++ ", initializer=" ++ text ++ ")"
    | assign name value =>
      (value.debug? limit).map fun text =>
        "VariableAssign(name=" ++ Text.quoted name ++ ", value=" ++ text ++ ")"
    | access name => some ("VariableAccess(name=" ++ Text.quoted name ++ ")")

/-- What an expression can be shown within is the number of its levels. -/
theorem isSome_debug?_iff {limit : Nat} {e : Expr} : (e.debug? limit).isSome ↔ e.depth ≤ limit := by
  induction limit generalizing e with
  | zero => cases e <;> simp [debug?, depth]
  | succ limit ih =>
    cases e with
    | literal | access => simp [debug?, depth]
    | unary | declare | assign => simp [debug?, depth, ih]
    | binary op left right =>
      rw [depth, Nat.add_le_add_iff_right, Nat.max_le, ← ih, ← ih, debug?]
      cases left.debug? limit <;> cases right.debug? limit <;> simp

end Expr

end Reckon
