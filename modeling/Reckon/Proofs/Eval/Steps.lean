import Reckon.Eval.Basic

/-!
# Evaluation, one step at a time

Every expression with parts is evaluated in the same way: a part is evaluated, its error is passed
on, and with its value the evaluation goes on in the scope it left. `Evaluated.andThen` is that way
of going on, and the equations here say of each kind of expression what it goes on with. Later files
say once what `andThen` preserves and then go through the kinds of expression by these equations.
-/

namespace Reckon

/-! ### Going on -/

/-- Goes on with the value of an evaluation in the scope it left. An error is passed on. -/
def Evaluated.andThen {α β : Type} (result : Evaluated α) (next : α → Scope → Evaluated β) :
    Evaluated β :=
  match result with
  | (.error err, scope) => (.error err, scope)
  | (.ok a, scope) => next a scope

namespace Evaluated

variable {α β : Type} {next : α → Scope → Evaluated β}

@[simp]
theorem andThen_error (err : EvalError) (scope : Scope) :
    andThen (.error err, scope) next = (.error err, scope) := rfl

@[simp]
theorem andThen_ok (a : α) (scope : Scope) : andThen (.ok a, scope) next = next a scope := rfl

end Evaluated

namespace Expr

variable {limit : Nat} {scope : Scope}

/-! ### Kinds of expression -/

@[simp]
theorem evaluate_zero (e : Expr) : evaluate 0 e scope = (.error .nestingTooDeep, scope) := rfl

@[simp]
theorem evaluate_access (name : String) :
    evaluate (limit + 1) (.access name) scope = (scope.lookup name, scope) := rfl

theorem evaluate_unary_of_none {op : Symbol} (h : Value.unaryOperator? op = none) (e : Expr) :
    evaluate (limit + 1) (.unary op e) scope = (.error (.notUnary op), scope) := by
  simp [evaluate, h]

theorem evaluate_unary {op : Symbol} {apply : Value → Except EvalError Value}
    (h : Value.unaryOperator? op = some apply) (e : Expr) :
    evaluate (limit + 1) (.unary op e) scope =
      (evaluate limit e scope).andThen fun v mid => (apply v, mid) := by
  rcases he : evaluate limit e scope with ⟨_ | v, mid⟩ <;> simp [evaluate, h, he]

theorem evaluate_binary_of_none {op : Symbol} (h : Value.binaryOperator? op = none)
    (left right : Expr) :
    evaluate (limit + 1) (.binary op left right) scope = (.error (.notBinary op), scope) := by
  simp [evaluate, h]

theorem evaluate_binary {op : Symbol} {apply : Value → Value → Except EvalError Value}
    (h : Value.binaryOperator? op = some apply) (left right : Expr) :
    evaluate (limit + 1) (.binary op left right) scope =
      (evaluate limit left scope).andThen fun l mid =>
        (evaluate limit right mid).andThen fun r after => (apply l r, after) := by
  rcases hl : evaluate limit left scope with ⟨_ | l, mid⟩
  · simp [evaluate, h, hl]
  · rcases hr : evaluate limit right mid with ⟨_ | r, after⟩ <;> simp [evaluate, h, hl, hr]

theorem evaluate_declare (name : String) (init : Expr) :
    evaluate (limit + 1) (.declare name init) scope =
      (evaluate limit init scope).andThen fun v mid => (.ok v, mid.declare name v) := by
  rcases hv : evaluate limit init scope with ⟨_ | v, mid⟩ <;> simp [evaluate, hv]

theorem evaluate_assign (name : String) (value : Expr) :
    evaluate (limit + 1) (.assign name value) scope =
      (evaluate limit value scope).andThen fun v mid =>
        (mid.assign name v).andThen fun _ after => (.ok v, after) := by
  rcases hv : evaluate limit value scope with ⟨_ | v, mid⟩
  · simp [evaluate, hv]
  · rcases ha : mid.assign name v with ⟨_ | _, after⟩ <;> simp [evaluate, hv, ha]

/-! ### Statements -/

theorem evaluateAll_cons (last : Option Value) (e : Expr) (rest : List Expr) :
    evaluateAll limit last (e :: rest) scope =
      (evaluate limit e scope).andThen fun v mid => evaluateAll limit (some v) rest mid := by
  rcases he : evaluate limit e scope with ⟨_ | v, mid⟩ <;> simp [evaluateAll, he]

end Expr

end Reckon
