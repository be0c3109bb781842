import Reckon.Proofs.Eval.Steps

/-!
# Evaluation under a limit

The limit on the depth of expressions is the fuel of `Expr.evaluate`. Whether it ran out is seen in
the error alone: any other outcome, a value or a complaint, is the outcome under every greater limit
as well, and so is the scope that is left (`Expr.evaluate_of_le`, `Expr.evaluateAll_of_le`).

The reason is the same for every kind of expression. An expression passes on the errors of its
parts, so if it was not cut off then none of the parts it looked at was, and these have their
outcomes under the greater limit too (`Evaluated.Settled.andThen_eq`).
-/

namespace Reckon

/-! ### Settled evaluations -/

/-- The evaluation was not cut off by its limit. -/
def Evaluated.Settled {α : Type} (result : Evaluated α) : Prop :=
  result.1 ≠ .error .nestingTooDeep

namespace Evaluated.Settled

variable {α β : Type} {result result' : Evaluated α} {next next' : α → Scope → Evaluated β}

/-- What goes on from an evaluation that was cut off is cut off. -/
theorem of_andThen (h : (result.andThen next).Settled) : result.Settled := by
  obtain ⟨err | a, scope⟩ := result
  · simpa [Settled] using h
  · simp [Settled]

/-- **Going on.** If the first part and what follows it stay the same unless they were cut off, then
so does the whole. -/
theorem andThen_eq (h : (result.andThen next).Settled) (hresult : result.Settled → result' = result)
    (hnext : ∀ a scope, (next a scope).Settled → next' a scope = next a scope) :
    result'.andThen next' = result.andThen next := by
  rw [hresult h.of_andThen]
  obtain ⟨_ | a, scope⟩ := result
  · rfl
  · exact hnext a scope h

end Evaluated.Settled

namespace Expr

variable {k k' : Nat}

/-! ### Greater limits -/

/-- **Expressions.** What an expression comes to within some limit, it comes to within every greater
one. -/
theorem evaluate_of_le (hk : k ≤ k') {e : Expr} {scope : Scope}
    (h : (evaluate k e scope).Settled) : evaluate k' e scope = evaluate k e scope := by
  induction k generalizing k' e scope with
  | zero => exact absurd rfl h
  | succ k ih =>
    obtain ⟨k', rfl⟩ : ∃ j, k' = j + 1 := ⟨k' - 1, by omega⟩
    have hle : k ≤ k' := Nat.le_of_succ_le_succ hk
    cases e with
    | literal v => rfl
    | access name => rfl
    | unary op operand =>
      cases hop : Value.unaryOperator? op with
      | none => rw [evaluate_unary_of_none hop, evaluate_unary_of_none hop]
      | some apply =>
        rw [evaluate_unary hop] at h ⊢
        rw [evaluate_unary hop]
        exact h.andThen_eq (ih hle) fun _ _ _ => rfl
    | binary op left right =>
      cases hop : Value.binaryOperator? op with
      | none => rw [evaluate_binary_of_none hop, evaluate_binary_of_none hop]
      | some apply =>
        rw [evaluate_binary hop] at h ⊢
        rw [evaluate_binary hop]
        exact h.andThen_eq (ih hle) fun _ _ hright => hright.andThen_eq (ih hle) fun _ _ _ => rfl
    | declare name init =>
      rw [evaluate_declare] at h ⊢
      rw [evaluate_declare]
      exact h.andThen_eq (ih hle) fun _ _ _ => rfl
    | assign name value =>
      rw [evaluate_assign] at h ⊢
      rw [evaluate_assign]
      exact h.andThen_eq (ih hle) fun _ _ _ => rfl

/-- A value is the value under every greater limit. -/
theorem evaluate_ok_of_le (hk : k ≤ k') {e : Expr} {scope after : Scope} {v : Value}
    (h : evaluate k e scope = (.ok v, after)) : evaluate k' e scope = (.ok v, after) := by
  have hsettled : (evaluate k e scope).Settled := by simp [Evaluated.Settled, h]
  rw [evaluate_of_le hk hsettled, h]

/-- **Statements.** The same of statements in order. -/
theorem evaluateAll_of_le (hk : k ≤ k') {last : Option Value} {statements : List Expr}
    {scope : Scope} (h : (evaluateAll k last statements scope).Settled) :
    evaluateAll k' last statements scope = evaluateAll k last statements scope := by
  induction statements generalizing last scope with
  | nil => rfl
  | cons e rest ih =>
    rw [evaluateAll_cons] at h
    rw [evaluateAll_cons, evaluateAll_cons]
    exact h.andThen_eq (evaluate_of_le hk) fun _ _ => ih

end Expr

end Reckon
