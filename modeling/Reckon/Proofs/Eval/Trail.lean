import Mathlib.Data.List.Chain
import Reckon.Proofs.Eval.Steps
import Reckon.Proofs.Eval.Writes

/-!
# The scopes along an evaluation

`Expr.trail` lists every scope that the evaluation of an expression passes through, and
`Expr.trailAll` those of statements one after the other. That none is left out is said by `Leads`:
the list begins with the scope before the evaluation, ends with the scope after it, and from each
scope to the next there is one write at most.

So whether an evaluation has a value, fails, or is cut off anywhere on its way, all it has done is
to write, and a snapshot taken before it undoes that.
-/

namespace Reckon

open Scope (Write Writes)

/-! ### Trails -/

/-- Scopes from `scope` to `after`, with one write at most from each to the next. -/
structure Leads (scope after : Scope) (trail : List Scope) : Prop where
  first : trail.head? = some scope
  last : trail.getLast? = some after
  steps : trail.IsChain fun a b => a = b ∨ Write a b

namespace Leads

variable {scope mid start after reached : Scope} {trail rest : List Scope}

theorem single (scope : Scope) : Leads scope scope [scope] :=
  ⟨rfl, rfl, List.isChain_singleton scope⟩

theorem append (h : Leads scope mid trail) (hstep : mid = start ∨ Write mid start)
    (hrest : Leads start after rest) : Leads scope after (trail ++ rest) where
  first := by rw [List.head?_append, h.first, Option.some_or]
  last := by rw [List.getLast?_append, hrest.last, Option.some_or]
  steps := by
    refine List.isChain_append.mpr ⟨h.steps, hrest.steps, fun a ha b hb => ?_⟩
    obtain rfl : mid = a := by simpa [h.last] using ha
    obtain rfl : start = b := by simpa [hrest.first] using hb
    exact hstep

/-- Every scope on the way is reached by writing alone. -/
theorem writes_of_mem (h : Leads scope after trail) (hmem : reached ∈ trail) :
    Writes scope reached := by
  obtain ⟨hfirst, -, hsteps⟩ := h
  obtain ⟨rest, rfl⟩ := List.head?_eq_some_iff.mp hfirst
  have hwrites : (scope :: rest).IsChain Writes :=
    hsteps.imp fun a b hab => hab.elim (fun h => h ▸ Writes.refl a) Write.writes
  have : Trans Writes Writes Writes := ⟨Writes.trans⟩
  rcases List.mem_cons.mp hmem with rfl | hmem
  · exact Writes.refl reached
  · exact List.rel_of_pairwise_cons hwrites.pairwise hmem

theorem writes (h : Leads scope after trail) : Writes scope after :=
  h.writes_of_mem (List.mem_of_getLast? h.last)

end Leads

namespace Evaluated

variable {α β : Type}

/-- The scopes that follow an evaluation, if it goes on. -/
def onward (result : Evaluated α) (trail : α → Scope → List Scope) : List Scope :=
  match result with
  | (.error _, _) => []
  | (.ok a, mid) => trail a mid

/-- **Going on.** The way of what follows is added to the way there. -/
theorem leads_onward {scope : Scope} {result : Evaluated α} {trail : List Scope}
    {next : α → Scope → Evaluated β} {more : α → Scope → List Scope}
    (h : Leads scope result.2 trail)
    (hnext : ∀ a mid, ∃ start, (mid = start ∨ Write mid start) ∧
      Leads start (next a mid).2 (more a mid)) :
    Leads scope (result.andThen next).2 (trail ++ result.onward more) := by
  obtain ⟨err | a, mid⟩ := result
  · simpa [onward] using h
  · obtain ⟨start, hstep, hrest⟩ := hnext a mid
    exact h.append hstep hrest

/-- What follows begins with the scope that was left. -/
private theorem leads_onward_here {scope : Scope} {result : Evaluated α} {trail : List Scope}
    {next : α → Scope → Evaluated β} {more : α → Scope → List Scope}
    (h : Leads scope result.2 trail)
    (hnext : ∀ a mid, Leads mid (next a mid).2 (more a mid)) :
    Leads scope (result.andThen next).2 (trail ++ result.onward more) :=
  leads_onward h fun a mid => ⟨mid, .inl rfl, hnext a mid⟩

end Evaluated

namespace Expr

/-- The scopes that the evaluation of an expression passes through, from the first to the last. -/
def trail (limit : Nat) (e : Expr) (scope : Scope) : List Scope :=
  match limit with
  | 0 => [scope]
  | limit + 1 =>
    match e with
    | literal _ | access _ => [scope]
    | unary op operand =>
      if (Value.unaryOperator? op).isSome then
        trail limit operand scope ++ (evaluate limit operand scope).onward fun _ mid => [mid]
      else [scope]
    | binary op left right =>
      if (Value.binaryOperator? op).isSome then
        trail limit left scope ++ (evaluate limit left scope).onward fun _ mid =>
          trail limit right mid ++ (evaluate limit right mid).onward fun _ after => [after]
      else [scope]
    | declare name init =>
      trail limit init scope ++ (evaluate limit init scope).onward fun v mid =>
        [mid.declare name v]
    | assign name value =>
      trail limit value scope ++ (evaluate limit value scope).onward fun v mid =>
        [(mid.assign name v).2]

/-- The scopes that statements pass through when they are evaluated one after the other. -/
def trailAll (limit : Nat) : List Expr → Scope → List Scope
  | [], scope => [scope]
  | e :: rest, scope =>
    trail limit e scope ++ (evaluate limit e scope).onward fun _ mid => trailAll limit rest mid

/-! ### Evaluation -/

/-- **Expressions.** The trail of an expression leads to the scope its evaluation leaves. -/
theorem leads_trail (limit : Nat) (e : Expr) (scope : Scope) :
    Leads scope (evaluate limit e scope).2 (trail limit e scope) := by
  -- The trail recurs as evaluation does, so every part is one step of going on.
  induction limit generalizing e scope with
  | zero => exact .single scope
  | succ limit ih =>
    cases e with
    | literal v => exact .single scope
    | access name => exact .single scope
    | unary op operand =>
      cases hop : Value.unaryOperator? op with
      | none =>
        rw [evaluate_unary_of_none hop, trail, hop]
        exact .single scope
      | some apply =>
        rw [evaluate_unary hop, trail, hop]
        exact Evaluated.leads_onward_here (ih operand scope) fun _ mid => .single mid
    | binary op left right =>
      cases hop : Value.binaryOperator? op with
      | none =>
        rw [evaluate_binary_of_none hop, trail, hop]
        exact .single scope
      | some apply =>
        rw [evaluate_binary hop, trail, hop]
        refine Evaluated.leads_onward_here (ih left scope) fun _ mid => ?_
        exact Evaluated.leads_onward_here (ih right mid) fun _ after => .single after
    | declare name init =>
      rw [evaluate_declare, trail]
      refine Evaluated.leads_onward (ih init scope) fun v mid => ?_
      exact ⟨mid.declare name v, .inr (.declare mid name v), .single _⟩
    | assign name value =>
      rw [evaluate_assign, trail]
      refine Evaluated.leads_onward (ih value scope) fun v mid => ⟨(mid.assign name v).2, ?_, ?_⟩
      · exact Scope.write_assign mid name v
      · rcases mid.assign name v with ⟨_ | _, after⟩ <;> exact .single after

/-- **Statements.** The same of statements in order. -/
theorem leads_trailAll (limit : Nat) (last : Option Value) (statements : List Expr)
    (scope : Scope) :
    Leads scope (evaluateAll limit last statements scope).2 (trailAll limit statements scope) := by
  induction statements generalizing last scope with
  | nil => exact .single scope
  | cons e rest ih =>
    rw [evaluateAll_cons, trailAll]
    exact Evaluated.leads_onward_here (leads_trail limit e scope) fun v mid => ih (some v) mid

/-- Whatever comes of an expression, its evaluation has only written. -/
theorem writes_evaluate (limit : Nat) (e : Expr) (scope : Scope) :
    Writes scope (evaluate limit e scope).2 :=
  (leads_trail limit e scope).writes

/-- Whatever comes of some statements, their evaluation has only written. -/
theorem writes_evaluateAll (limit : Nat) (last : Option Value) (statements : List Expr)
    (scope : Scope) : Writes scope (evaluateAll limit last statements scope).2 :=
  (leads_trailAll limit last statements scope).writes

end Expr

end Reckon
