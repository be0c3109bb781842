import Reckon.Binary64.Arith
import Reckon.Symbol
import Reckon.Value

/-!
# What operators do

Every operator acts on any two values and settles by their kinds what it means:

* numbers follow IEEE 754, and a truth value among numbers counts as one or zero;
* `+` with a text on either side joins the display forms, `*` between a text and a number repeats
  the text, and the other arithmetic operators read texts as numbers;
* comparisons order numbers and truth values together, strings among themselves and characters
  among themselves, and all else is unequal and unordered;
* bitwise operators act on 64-bit two's complement words and refuse texts.
-/

namespace Reckon

/-! ### Errors -/

/-- Why an expression has no value. -/
inductive EvalError where
  /-- An operator in front of a value of a kind it is not defined on. -/
  | unsupportedOperand (op : Symbol) (kind : Kind)
  /-- An operator between values of kinds it is not defined on. -/
  | unsupportedOperands (op : Symbol) (left right : Kind)
  /-- A name that is not bound. -/
  | undefinedName (name : String)
  /-- A text repeated a negative, fractional or infinite number of times. -/
  | badRepeatCount (count : Binary64)
  /-- A text longer than any text may be. -/
  | textTooLong (length : Nat)
  /-- An expression nested more deeply than allowed. -/
  | nestingTooDeep
  /-- An operation on numbers that the platform refused. -/
  | arithmetic (fault : ArithmeticFault)
  /-- A symbol in front of an operand that is no operator there. -/
  | notUnary (op : Symbol)
  /-- A symbol between operands that is no operator there. -/
  | notBinary (op : Symbol)
deriving DecidableEq

namespace Value

/-- The greatest length of a text that an operator may build. -/
def textLimit : Nat := twoPow 24

end Value

namespace EvalError

/-- The wording of the error. -/
def message : EvalError → String
  | unsupportedOperand op kind =>
    "Operator '" ++ op.spelling ++ "' is not supported for type " ++ kind.name
  | unsupportedOperands op left right =>
    "Operator '" ++ op.spelling ++ "' is not supported for types " ++ left.name ++ " and "
      ++ right.name
  | undefinedName name => "Name '" ++ name ++ "' is not defined"
  | badRepeatCount count =>
    "cannot repeat text " ++ count.debug ++ " times; count must be a whole non-negative number"
  | textTooLong length =>
    "text of length " ++ length.repr ++ " exceeds the limit of " ++ Value.textLimit.repr
      ++ " characters"
  | nestingTooDeep => "expression is nested too deeply"
  | arithmetic fault => fault.message
  | notUnary op => "parser produced unary Op." ++ op.name
  | notBinary op => "parser produced binary Op." ++ op.name

/-- The error is none of the language's own: the platform refused an operation, or a symbol has no
meaning where it stands. -/
def isInternal : EvalError → Bool
  | arithmetic _ | notUnary _ | notBinary _ => true
  | _ => false

end EvalError

namespace Value

/-! ### Numbers -/

/-- The number that a value counts as: one or zero for a truth value, and what a text spells, which
is NaN for most. -/
def toNumber : Value → Binary64
  | number x => x
  | bool b => if b then .one else .zero
  | string s => .ofText s
  | char c => .ofText c.toString

/-- An arithmetic operator that reads both operands as numbers. -/
def arith (op : Binary64 → Binary64 → Binary64) (l r : Value) : Value :=
  number (op l.toNumber r.toNumber)

/-- The same for an operation that the platform may refuse. -/
def arithChecked (op : Binary64 → Binary64 → Except ArithmeticFault Binary64) (l r : Value) :
    Except EvalError Value :=
  match op l.toNumber r.toNumber with
  | .ok x => .ok (number x)
  | .error fault => .error (.arithmetic fault)

theorem arithChecked_of_ok {op : Binary64 → Binary64 → Except ArithmeticFault Binary64}
    {l r : Value} {x : Binary64} (h : op l.toNumber r.toNumber = .ok x) :
    arithChecked op l r = .ok (number x) := by
  rw [arithChecked, h]

/-! ### Texts -/

/-- Joins the display forms of two values. -/
def concat (l r : Value) : Except EvalError Value :=
  let length := l.display.length + r.display.length
  if textLimit < length then .error (.textTooLong length)
  else .ok (string (l.display ++ r.display))

/-- The text that consists of `count` copies of `unit`. -/
def copies (unit : String) (count : Nat) : String := Nat.repeat (· ++ unit) count ""

theorem copies_succ (unit : String) (count : Nat) :
    copies unit (count + 1) = copies unit count ++ unit := rfl

theorem length_copies (unit : String) (count : Nat) :
    (copies unit count).length = unit.length * count := by
  induction count with
  | zero => rfl
  | succ count ih => rw [copies_succ, String.length_append, ih, Nat.mul_succ]

/-- Repeats a text. The count has to be whole and at least zero, and a zero of either sign is. -/
def repeatText (unit : String) (count : Binary64) : Except EvalError Value :=
  match count with
  | .finite negative quanta _ =>
    if quanta % quantaPerOne ≠ 0 ∨ (negative ∧ quanta ≠ 0) then
      .error (.badRepeatCount count)
    else
      let times := quanta / quantaPerOne
      let length := unit.length * times
      if unit = "" then .ok (string "")
      else if textLimit < length then .error (.textTooLong length)
      else .ok (string (copies unit times))
  | _ => .error (.badRepeatCount count)

/-- The sum of numbers, or the concatenation when one side is a text. A truth value in front of a
number changes places with it. -/
def add : Value → Value → Except EvalError Value
  | number x, number y => .ok (number (x.add y))
  | number x, bool q => .ok (number (x.add (bool q).toNumber))
  | bool p, number y => .ok (number (y.add (bool p).toNumber))
  | bool p, bool q => .ok (number ((bool p).toNumber.add (bool q).toNumber))
  | l, r => concat l r

/-- The product of numbers, or the repetition of a text by a number. A number in front of a text,
and a truth value in front of a number, changes places with it. -/
def mul : Value → Value → Except EvalError Value
  | string s, number n | number n, string s => repeatText s n
  | char c, number n | number n, char c => repeatText c.toString n
  | bool p, number n => .ok (arith .mul (number n) (bool p))
  | l, r => .ok (arith .mul l r)

/-- Which operand of a sum of numbers is in front makes no difference. -/
theorem add_eq (l r : Value) :
    add l r = if l.isText || r.isText then concat l r else .ok (arith .add l r) := by
  cases l <;> cases r
  case bool.number p y => exact congrArg (Except.ok ∘ number) (y.add_comm (bool p).toNumber)
  all_goals rfl

/-- Nor of a product. -/
theorem mul_eq (l r : Value) :
    mul l r =
      match l, r with
      | string s, number n | number n, string s => repeatText s n
      | char c, number n | number n, char c => repeatText c.toString n
      | _, _ => .ok (arith .mul l r) := by
  cases l <;> cases r
  case bool.number p n => exact congrArg (Except.ok ∘ number) (n.mul_comm (bool p).toNumber)
  all_goals rfl

/-! ### Words -/

/-- A bitwise operator on the 64-bit words of two numbers. -/
def onWords (symbol : Symbol) (op : Int → Int → Int) (l r : Value) : Except EvalError Value :=
  if l.isText || r.isText then
    .error (.unsupportedOperands symbol l.kind r.kind)
  else
    .ok (number (.ofInt (op l.toNumber.toInt64 r.toNumber.toInt64)))

/-! ### Comparisons -/

/-- The order of two values, when they are of kinds that compare and neither is NaN. Strings are
ordered character by character. -/
def compare? : Value → Value → Option Ordering
  | string s, string t => some (compareOfLessAndEq s t)
  | char c, char d => some (compareOfLessAndEq c d)
  | l, r => if l.isText || r.isText then none else l.toNumber.compare? r.toNumber

/-- The truth of a comparison that holds exactly for some outcomes of `compare?`. -/
def comparison (holds : Option Ordering → Bool) (l r : Value) : Value := bool (holds (l.compare? r))

/-! ### Dispatch -/

/-- The meaning of a symbol between two operands, if it has one. -/
def binaryOperator? : Symbol → Option (Value → Value → Except EvalError Value)
  | .plus => some add
  | .minus => some fun l r => .ok (arith .sub l r)
  | .star => some mul
  | .slash => some (arithChecked Binary64.div)
  | .percent => some (arithChecked Binary64.rem)
  | .power => some (arithChecked Binary64.pow)
  | .ampersand => some (onWords .ampersand (Int64Range.bitwise Nat.land))
  | .pipe => some (onWords .pipe (Int64Range.bitwise Nat.lor))
  | .caret => some (onWords .caret (Int64Range.bitwise Nat.xor))
  | .shiftLeft => some (onWords .shiftLeft Int64Range.shiftLeft)
  | .shiftRight => some (onWords .shiftRight Int64Range.shiftRight)
  | .equal => some fun l r => .ok (comparison (· == some .eq) l r)
  | .notEqual => some fun l r => .ok (comparison (· != some .eq) l r)
  | .less => some fun l r => .ok (comparison (· == some .lt) l r)
  | .greater => some fun l r => .ok (comparison (· == some .gt) l r)
  | .atMost => some fun l r => .ok (comparison (fun o => o == some .lt || o == some .eq) l r)
  | .atLeast => some fun l r => .ok (comparison (fun o => o == some .gt || o == some .eq) l r)
  | _ => none

/-- A number as it is, and a truth value as a number. -/
def positive (v : Value) : Except EvalError Value :=
  if v.isText then .error (.unsupportedOperand .plus v.kind) else .ok (number v.toNumber)

/-- The product with minus one. -/
def negate (v : Value) : Except EvalError Value := mul (number (.ofInt (-1))) v

/-- The truth value turned around. The numbers that count as false are the zeros and NaN. -/
def negation (v : Value) : Except EvalError Value :=
  match v with
  | bool b => .ok (bool !b)
  | number x => .ok (bool (x.isZero || x.isNaN))
  | _ => .error (.unsupportedOperand .bang v.kind)

/-- The meaning of a symbol in front of an operand, if it has one. -/
def unaryOperator? : Symbol → Option (Value → Except EvalError Value)
  | .plus => some positive
  | .minus => some negate
  | .bang => some negation
  | _ => none

end Value

end Reckon
