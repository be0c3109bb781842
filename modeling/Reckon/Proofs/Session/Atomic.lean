import Mathlib.Data.List.Induction
import Reckon.Proofs.Eval.Trail
import Reckon.Session

/-!
# Running is all or nothing

`Session.eval_atomic` describes a run of a source text completely. A run that fails, at whatever
stage, leaves every frame as it was. A run that succeeds is the evaluation of all statements of the
text, one after the other: `Expr.InOrder` says what that is without the accumulator and the early
exit of `Expr.evaluateAll`, and `Expr.evaluateAll_eq_ok_iff` that the two agree.

What makes a failure harmless is not the kind of failure. Wherever evaluation is cut off it has only
written (`Leads`), and the snapshot undoes writes.
-/

namespace Reckon

namespace Expr

/-! ### Statements in order -/

/-- `InOrder limit statements scope v after`: each of the statements has a value when it is
evaluated in the scope that the one before it left, from `scope` to `after`, and `v` is the value of
the last one. There is none exactly when there are no statements. -/
inductive InOrder (limit : Nat) : List Expr → Scope → Option Value → Scope → Prop where
  | nil (scope : Scope) : InOrder limit [] scope none scope
  | snoc {before : List Expr} {e : Expr} {scope mid after : Scope} {w : Option Value} {v : Value}
      (hbefore : InOrder limit before scope w mid) (he : evaluate limit e mid = (.ok v, after)) :
      InOrder limit (before ++ [e]) scope (some v) after

theorem inOrder_nil_iff {limit : Nat} {scope after : Scope} {v : Option Value} :
    InOrder limit [] scope v after ↔ v = none ∧ after = scope := by
  constructor
  · intro h
    generalize hes : ([] : List Expr) = es at h
    cases h with
    | nil => exact ⟨rfl, rfl⟩
    | snoc => simp at hes
  · rintro ⟨rfl, rfl⟩
    exact .nil after

theorem inOrder_concat_iff {limit : Nat} {before : List Expr} {e : Expr} {scope after : Scope}
    {v : Option Value} :
    InOrder limit (before ++ [e]) scope v after ↔
      ∃ w mid x, InOrder limit before scope w mid ∧ evaluate limit e mid = (.ok x, after) ∧
        v = some x := by
  constructor
  · intro h
    generalize hes : before ++ [e] = es at h
    cases h with
    | nil => simp at hes
    | @snoc before' e' _ mid _ w x hbefore he =>
      obtain ⟨rfl, hlast⟩ := List.append_inj' hes rfl
      obtain rfl : e = e' := by simpa using hlast
      exact ⟨w, mid, x, hbefore, he, rfl⟩
  · rintro ⟨w, mid, x, hbefore, he, rfl⟩
    exact .snoc hbefore he

/-- One more statement at the end is evaluated in the scope the others left. -/
theorem evaluateAll_concat (limit : Nat) (last : Option Value) (before : List Expr) (e : Expr)
    (scope : Scope) :
    evaluateAll limit last (before ++ [e]) scope =
      match evaluateAll limit last before scope with
      | (.error err, mid) => (.error err, mid)
      | (.ok _, mid) =>
        match evaluate limit e mid with
        | (.error err, after) => (.error err, after)
        | (.ok v, after) => (.ok (some v), after) := by
  induction before generalizing last scope with
  | nil =>
    rcases h : evaluate limit e scope with ⟨_ | v, after⟩ <;> simp [evaluateAll, h]
  | cons first rest ih =>
    rcases h : evaluate limit first scope with ⟨_ | v, mid⟩
    · simp [evaluateAll, h]
    · simp only [List.cons_append, evaluateAll, h]
      exact ih (some v) mid

/-- Evaluating statements succeeds exactly when they have values in order, with the last value. -/
theorem evaluateAll_eq_ok_iff {limit : Nat} {statements : List Expr} {scope after : Scope}
    {v : Option Value} :
    evaluateAll limit none statements scope = (.ok v, after) ↔
      InOrder limit statements scope v after := by
  -- From the last statement backwards: its value is the result, whatever the accumulator held.
  induction statements using List.reverseRecOn generalizing v after with
  | nil => simp [evaluateAll, inOrder_nil_iff, eq_comm]
  | append_singleton before e ih =>
    rw [evaluateAll_concat, inOrder_concat_iff]
    constructor
    · intro h
      rcases hbefore : evaluateAll limit none before scope with ⟨_ | w, mid⟩ <;>
        rw [hbefore] at h
      · simp at h
      rcases he : evaluate limit e mid with ⟨_ | x, after'⟩ <;> simp only [he] at h
      · simp at h
      obtain ⟨rfl, rfl⟩ : some x = v ∧ after' = after := by simpa using h
      exact ⟨w, mid, x, ih.mp hbefore, he, rfl⟩
    · rintro ⟨w, mid, x, hbefore, he, rfl⟩
      simp [ih.mpr hbefore, he]

end Expr

namespace Session

open Scope (Writes)

variable {limits : Limits}

/-! ### Stages -/

/-- Statements that fail leave the scope as it was. -/
theorem evalStatements_of_error {limit : Nat} {statements : List Expr} {scope after : Scope}
    {err : Error} (h : evalStatements limit statements scope = (.error err, after)) :
    after = scope := by
  have hwrites := Expr.writes_evaluateAll limit none statements scope
  rcases heval : Expr.evaluateAll limit none statements scope with ⟨e | v, reached⟩ <;>
    rw [heval] at hwrites
  · simp only [evalStatements, heval, Scope.restore_writes hwrites, Prod.mk.injEq] at h
    exact h.2.symm
  · simp [evalStatements, heval] at h

theorem evalStatements_eq_ok_iff {limit : Nat} {statements : List Expr} {scope after : Scope}
    {v : Option Value} :
    evalStatements limit statements scope = (.ok v, after) ↔
      Expr.InOrder limit statements scope v after := by
  rw [← Expr.evaluateAll_eq_ok_iff]
  have hwrites := Expr.writes_evaluateAll limit none statements scope
  rcases heval : Expr.evaluateAll limit none statements scope with ⟨e | w, reached⟩ <;>
    rw [heval] at hwrites
  · simp [evalStatements, heval, Scope.restore_writes hwrites]
  · simp [evalStatements, heval]

/-- A run is made of its stages, each of which can end it. -/
theorem eval_eq (limits : Limits) (source : String) (scope : Scope) :
    eval limits source scope =
      match Token.lex source with
      | .error e => (.error (.lex e), scope)
      | .ok tokens =>
        match Expr.parseProgramWithin limits.reading tokens with
        | .error e => (.error (.parse e), scope)
        | .ok statements =>
          if statements.all limits.shows then evalStatements limits.evaluating statements scope
          else (.error .unshowable, scope) := by
  unfold eval run
  rcases Token.lex source with e | tokens
  · rfl
  dsimp only
  rcases Expr.parseProgramWithin limits.reading tokens with e | statements
  · rfl
  dsimp only
  split
  · rcases evalStatements limits.evaluating statements scope with ⟨e | v, after⟩ <;> rfl
  · rfl

/-- A run that fails leaves the scope as it was. -/
theorem eval_of_error {source : String} {scope after : Scope} {err : Error}
    (h : eval limits source scope = (.error err, after)) : after = scope := by
  rw [eval_eq] at h
  split at h
  · exact (Prod.mk.inj h).2.symm
  split at h
  · exact (Prod.mk.inj h).2.symm
  split at h
  · exact evalStatements_of_error h
  · exact (Prod.mk.inj h).2.symm

theorem eval_eq_ok_iff {source : String} {scope after : Scope} {v : Option Value} :
    eval limits source scope = (.ok v, after) ↔
      ∃ tokens statements, Token.lex source = .ok tokens ∧
        Expr.parseProgramWithin limits.reading tokens = .ok statements ∧
        (∀ e ∈ statements, limits.shows e) ∧
        Expr.InOrder limits.evaluating statements scope v after := by
  rw [eval_eq]
  rcases Token.lex source with e | tokens
  · simp
  rcases hparse : Expr.parseProgramWithin limits.reading tokens with e | statements
  · simp [hparse]
  by_cases hshown : ∀ e ∈ statements, limits.shows e
  · simp only [← evalStatements_eq_ok_iff]
    simp [hparse, if_pos hshown, and_iff_right hshown]
  · simp [hparse, hshown]

/-! ### Atomicity -/

/-- **Atomicity.** A run that fails leaves every frame of the scope as it was; a run succeeds
exactly when the text has tokens, these hold statements that can be shown if anyone watches, and the
statements have values in order, and then its value and its scope are theirs. The same holds of an
evaluation that is cut off for any other reason and anywhere on its way: its trail leaves out no
scope that it passes through, and from each of them putting the snapshot back leads to the scope
before, and cannot fail. This is so of everything that can be reached by writing. -/
theorem eval_atomic (limits : Limits) (source : String) (scope : Scope) :
    (∀ err after, eval limits source scope = (.error err, after) → after = scope) ∧
    (∀ v after, eval limits source scope = (.ok v, after) ↔
      ∃ tokens statements, Token.lex source = .ok tokens ∧
        Expr.parseProgramWithin limits.reading tokens = .ok statements ∧
        (∀ e ∈ statements, limits.shows e) ∧
        Expr.InOrder limits.evaluating statements scope v after) ∧
    (∀ statements,
      Leads scope (Expr.evaluateAll limits.evaluating none statements scope).2
        (Expr.trailAll limits.evaluating statements scope) ∧
      ∀ reached ∈ Expr.trailAll limits.evaluating statements scope,
        reached.restore scope.snapshot = (scope, .ok ())) ∧
    (∀ reached, Writes scope reached →
      reached.restore scope.snapshot = (scope, .ok ())) := by
  refine ⟨fun err after h => ?_, fun v after => ?_, fun statements => ?_,
    fun reached => Scope.restore_writes⟩
  · exact eval_of_error h
  · exact eval_eq_ok_iff
  · have hleads := Expr.leads_trailAll limits.evaluating none statements scope
    exact ⟨hleads, fun reached hreached => Scope.restore_writes (hleads.writes_of_mem hreached)⟩

end Session

end Reckon
