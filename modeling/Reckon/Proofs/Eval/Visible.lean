import Reckon.Proofs.Eval.Steps
import Reckon.Proofs.Scope.Assignment

/-!
# Only visible bindings matter

What an expression comes to depends on the scope only through the values that the names in the
expression show. How many frames there are, what is shadowed in them and what else they bind makes
no difference (`Expr.evaluate_of_agree`). In particular a scope can be replaced by a single frame
that lists the bindings of all its frames, innermost first.

The two scopes of such a comparison do not stay alike in structure. A declaration writes to the
innermost frame of each, and an assignment to the nearest frame that binds the name, which can be a
different one on either side. Seen from the inside both do the same, and that is what the proof
carries along: after every step, whether it succeeds or fails, the two scopes agree on the names.
-/

namespace Reckon

/-! ### Agreement -/

/-- Each of the names has the same value in both scopes, or none in both. -/
def Scope.AgreesOn (names : List String) (scope scope' : Scope) : Prop :=
  ∀ name ∈ names, scope.get? name = scope'.get? name

/-- The two evaluations come to the same value or error, and leave scopes that agree on the names.
-/
structure Evaluated.Agrees {α : Type} (names : List String) (result result' : Evaluated α) :
    Prop where
  outcome : result.1 = result'.1
  scopes : result.2.AgreesOn names result'.2

variable {shared : List String}

/-- **Going on.** Evaluations that agree go on in agreement. -/
theorem Evaluated.Agrees.andThen {α β : Type} {result result' : Evaluated α}
    {next next' : α → Scope → Evaluated β} (h : Agrees shared result result')
    (hnext : ∀ a scope scope', scope.AgreesOn shared scope' →
      Agrees shared (next a scope) (next' a scope')) :
    Agrees shared (result.andThen next) (result'.andThen next') := by
  obtain ⟨outcome, scope⟩ := result
  obtain ⟨outcome', scope'⟩ := result'
  obtain ⟨houtcome, hscopes⟩ := h
  obtain rfl : outcome = outcome' := houtcome
  cases outcome with
  | error err => exact ⟨rfl, hscopes⟩
  | ok a => exact hnext a scope scope' hscopes

namespace Scope.AgreesOn

variable {scope scope' : Scope} {name : String}

theorem declare (h : scope.AgreesOn shared scope') (name : String) (value : Value) :
    (scope.declare name value).AgreesOn shared (scope'.declare name value) := by
  intro other hother
  rw [get?_declare, get?_declare, h other hother]

theorem lookup_eq (h : scope.AgreesOn shared scope') (hname : name ∈ shared) :
    scope.lookup name = scope'.lookup name := by
  rw [lookup, lookup, h name hname]

/-- Assignments succeed or fail together, though they may write to different frames. -/
theorem assign (h : scope.AgreesOn shared scope') (hname : name ∈ shared) (value : Value) :
    Evaluated.Agrees shared (scope.assign name value) (scope'.assign name value) := by
  have hnone : scope.assign? name value = none ↔ scope'.assign? name value = none := by
    rw [assign?_eq_none_iff, assign?_eq_none_iff, h name hname]
  unfold Scope.assign
  cases hafter : scope.assign? name value with
  | none =>
    rw [hnone.mp hafter]
    exact ⟨rfl, h⟩
  | some after =>
    obtain ⟨after', hafter'⟩ : ∃ after', scope'.assign? name value = some after' := by
      rw [← Option.ne_none_iff_exists', ne_eq, ← hnone, hafter]
      simp
    rw [hafter']
    refine ⟨rfl, fun other hother => ?_⟩
    rw [get?_of_assign? hafter, get?_of_assign? hafter', h other hother]

end Scope.AgreesOn

/-! ### Flat scopes -/

/-- The scope of one frame that lists the bindings of all frames, innermost first. -/
def Scope.flat (scope : Scope) : Scope := ⟨scope.frames.flatten, []⟩

theorem Frame.get?_append (first second : Frame) (name : String) :
    Frame.get? (first ++ second) name = (first.get? name).or (second.get? name) := by
  induction first with
  | nil => simp
  | cons head rest ih =>
    obtain ⟨n, v⟩ := head
    by_cases h : n = name
    · simp [h]
    · simp [h, ih]

theorem Scope.get?_flat (scope : Scope) (name : String) :
    scope.flat.get? name = scope.get? name := by
  have hflatten (frames : List Frame) :
      Frame.get? frames.flatten name = frames.findSome? (·.get? name) := by
    induction frames with
    | nil => rfl
    | cons frame rest ih =>
      rw [List.flatten_cons, Frame.get?_append, ih, List.findSome?_cons]
      cases frame.get? name <;> rfl
  simp [get?, flat, frames, ← hflatten]

namespace Expr

/-! ### Evaluation -/

/-- The names that occur in an expression: those it looks up and those it writes to. -/
def names : Expr → List String
  | literal _ => []
  | unary _ operand => operand.names
  | binary _ left right => left.names ++ right.names
  | declare name init => name :: init.names
  | assign name value => name :: value.names
  | access name => [name]

/-- **Agreement.** Scopes that agree on some names, among them those of the expression, agree on
them throughout its evaluation. -/
theorem agrees_evaluate (limit : Nat) {e : Expr} {shared : List String} (hnames : e.names ⊆ shared)
    {scope scope' : Scope} (h : scope.AgreesOn shared scope') :
    (evaluate limit e scope).Agrees shared (evaluate limit e scope') := by
  -- Both runs take the same branch everywhere, since they have had the same values so far.
  induction limit generalizing e scope scope' with
  | zero => exact ⟨rfl, h⟩
  | succ limit ih =>
    cases e with
    | literal v => exact ⟨rfl, h⟩
    | access name => exact ⟨h.lookup_eq (hnames (List.mem_singleton_self name)), h⟩
    | unary op operand =>
      have hoperand : operand.names ⊆ shared := hnames
      cases hop : Value.unaryOperator? op with
      | none =>
        rw [evaluate_unary_of_none hop, evaluate_unary_of_none hop]
        exact ⟨rfl, h⟩
      | some apply =>
        rw [evaluate_unary hop, evaluate_unary hop]
        exact (ih hoperand h).andThen fun v mid mid' hmid => ⟨rfl, hmid⟩
    | binary op left right =>
      obtain ⟨hleft, hright⟩ := List.append_subset.mp hnames
      cases hop : Value.binaryOperator? op with
      | none =>
        rw [evaluate_binary_of_none hop, evaluate_binary_of_none hop]
        exact ⟨rfl, h⟩
      | some apply =>
        rw [evaluate_binary hop, evaluate_binary hop]
        refine (ih hleft h).andThen fun l mid mid' hmid => ?_
        exact (ih hright hmid).andThen fun r after after' hafter => ⟨rfl, hafter⟩
    | declare name init =>
      obtain ⟨-, hinit⟩ := List.cons_subset.mp hnames
      rw [evaluate_declare, evaluate_declare]
      exact (ih hinit h).andThen fun v mid mid' hmid => ⟨rfl, hmid.declare name v⟩
    | assign name value =>
      obtain ⟨hname, hvalue⟩ := List.cons_subset.mp hnames
      rw [evaluate_assign, evaluate_assign]
      refine (ih hvalue h).andThen fun v mid mid' hmid => ?_
      exact (hmid.assign hname v).andThen fun _ after after' hafter => ⟨rfl, hafter⟩

/-- **Only visible bindings matter.** If each name that occurs in an expression has the same value
in two scopes, or none in both, then the expression comes to the same value or the same error in
both, and afterwards, in either case, the names again have the same values in both. So every scope
can be taken for a flat one: with all its bindings in one frame, the expression comes to the same,
and every name at all has the same value afterwards. -/
theorem evaluate_of_agree (limit : Nat) (e : Expr) :
    (∀ scope scope' : Scope, (∀ name ∈ e.names, scope.get? name = scope'.get? name) →
      (evaluate limit e scope).1 = (evaluate limit e scope').1 ∧
      ∀ name ∈ e.names,
        (evaluate limit e scope).2.get? name = (evaluate limit e scope').2.get? name) ∧
    ∀ scope : Scope,
      (evaluate limit e scope.flat).1 = (evaluate limit e scope).1 ∧
      ∀ name, (evaluate limit e scope.flat).2.get? name = (evaluate limit e scope).2.get? name := by
  refine ⟨fun scope scope' h => ?_, fun scope => ?_⟩
  · obtain ⟨houtcome, hscopes⟩ := agrees_evaluate limit (List.Subset.refl e.names) h
    exact ⟨houtcome, hscopes⟩
  · have hflat (shared : List String) : scope.flat.AgreesOn shared scope :=
      fun name _ => scope.get?_flat name
    refine ⟨(agrees_evaluate limit (List.Subset.refl e.names) (hflat _)).outcome, fun name => ?_⟩
    have hagrees := agrees_evaluate limit (List.subset_cons_self name e.names) (hflat _)
    exact hagrees.scopes name (List.mem_cons_self ..)

/-- At `x = x + y` where `x` is bound further out and `y` is shadowed, and where both are in one
frame behind another name. -/
theorem evaluate_of_agree_shadowed :
    let e : Expr := .assign "x" (.binary .plus (.access "x") (.access "y"))
    let nested : Scope :=
      ⟨[("y", .string "b")], [[("x", .string "a"), ("y", .char 'c')], [("x", .bool true)]]⟩
    let single : Scope := ⟨[("z", .bool false), ("y", .string "b"), ("x", .string "a")], []⟩
    (∀ name ∈ e.names, nested.get? name = single.get? name) ∧
      (evaluate 10 e nested).1 = .ok (.string "ab") ∧
      (evaluate 10 e nested).1 = (evaluate 10 e single).1 ∧
      ∀ name ∈ e.names,
        (evaluate 10 e nested).2.get? name = (evaluate 10 e single).2.get? name := by
  intro e nested single
  have hagree : ∀ name ∈ e.names, nested.get? name = single.get? name := by decide
  exact ⟨hagree, rfl, (evaluate_of_agree 10 e).1 nested single hagree⟩

end Expr

end Reckon
