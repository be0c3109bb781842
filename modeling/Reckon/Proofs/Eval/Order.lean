import Reckon.Proofs.Eval.Limit
import Reckon.Proofs.Scope.Assignment

/-!
# Writes in order

The declarations and assignments of an expression, read from left to right with every one of them
behind those in its own value, are its `Expr.bindings`. Evaluation performs them in this order, each
of them once and with the value that its own expression has there. If the evaluation fails, it has
performed the first few of them (`Expr.evaluate_performs`).

`Scope.replay` performs bindings with given values and knows nothing of expressions. That the values
are the right ones is said by `Logged`: in front of each binding stand the bindings of its value,
and where these begin the value's expression comes to the value in the log. A log says under which
limit the values were found. The parts of an expression are evaluated under smaller limits than the
whole, and it is because greater limits give the same values that one limit can stand for them all.

What a whole evaluation leaves as it was follows from what one binding does (`Scope.Preserves`).
-/

namespace Reckon

/-! ### Bindings -/

/-- A declaration or an assignment: its name, and the expression of its value. -/
inductive Binding where
  | declare (name : String) (value : Expr)
  | assign (name : String) (value : Expr)

namespace Binding

/-- The name that is bound. -/
def name : Binding → String
  | declare name _ | assign name _ => name

/-- The expression of the value. -/
def value : Binding → Expr
  | declare _ value | assign _ value => value

/-- Writes a value under the name: a declaration in the innermost frame, and an assignment where the
name is bound nearest, if it is bound. -/
def perform (binding : Binding) (v : Value) (scope : Scope) : Option Scope :=
  match binding with
  | declare name _ => some (scope.declare name v)
  | assign name _ => scope.assign? name v

end Binding

/-- The declarations and assignments of an expression from left to right, each behind those of its
value. -/
def Expr.bindings : Expr → List Binding
  | literal _ | access _ => []
  | unary _ operand => operand.bindings
  | binary _ left right => left.bindings ++ right.bindings
  | declare name init => init.bindings ++ [.declare name init]
  | assign name value => value.bindings ++ [.assign name value]

/-- Performs bindings one after the other, each with its value. -/
def Scope.replay (scope : Scope) : List (Binding × Value) → Option Scope
  | [] => some scope
  | (binding, v) :: rest => (binding.perform v scope).bind (replay · rest)

theorem Scope.replay_append (scope : Scope) (first second : List (Binding × Value)) :
    scope.replay (first ++ second) = (scope.replay first).bind (replay · second) := by
  induction first generalizing scope with
  | nil => rfl
  | cons entry rest ih =>
    obtain ⟨binding, v⟩ := entry
    cases hperform : binding.perform v scope with
    | none => simp [replay, hperform]
    | some mid => simp [replay, hperform, ih]

/-! ### Logs -/

/-- `Logged limit scope log after`: from one scope to the other, bindings were performed with the
values in the log. In front of each binding stand those of its value, and the value is what its
expression comes to where these begin. -/
inductive Logged (limit : Nat) : Scope → List (Binding × Value) → Scope → Prop where
  | nil (scope : Scope) : Logged limit scope [] scope
  | binding {scope start reached after : Scope} {earlier own : List (Binding × Value)} {b : Binding}
      {v : Value} (hearlier : Logged limit scope earlier start)
      (hown : Logged limit start own reached) (hbindings : own.map Prod.fst = b.value.bindings)
      (hvalue : b.value.evaluate limit start = (.ok v, reached))
      (hperform : b.perform v reached = some after) :
      Logged limit scope (earlier ++ own ++ [(b, v)]) after

namespace Logged

variable {limit : Nat} {scope mid after : Scope} {first second log : List (Binding × Value)}

/-- The scope that is reached is the one that performing the bindings leads to. -/
theorem replay_eq (h : Logged limit scope log after) : scope.replay log = some after := by
  induction h with
  | nil => rfl
  | binding _ _ _ _ hperform ihearlier ihown =>
    simp [Scope.replay_append, ihearlier, ihown, Scope.replay, hperform]

theorem append (hfirst : Logged limit scope first mid) (hsecond : Logged limit mid second after) :
    Logged limit scope (first ++ second) after := by
  induction hsecond with
  | nil => rwa [List.append_nil]
  | binding _ hown hbindings hvalue hperform ihearlier _ =>
    rw [← List.append_assoc, ← List.append_assoc]
    exact .binding (ihearlier hfirst) hown hbindings hvalue hperform

/-- The values of a log are those under any greater limit. -/
theorem mono {limit' : Nat} (hle : limit ≤ limit') (h : Logged limit scope log after) :
    Logged limit' scope log after := by
  induction h with
  | nil => exact .nil _
  | binding _ _ hbindings hvalue hperform ihearlier ihown =>
    exact .binding ihearlier ihown hbindings (Expr.evaluate_ok_of_le hle hvalue) hperform

end Logged

/-- The evaluation has performed the first few of the bindings, and all of them if it has a value.
-/
def Performs {α : Type} (limit : Nat) (scope : Scope) (bindings : List Binding)
    (result : Evaluated α) : Prop :=
  ∃ log, Logged limit scope log result.2 ∧ log.map Prod.fst <+: bindings ∧
    ∀ a, result.1 = .ok a → log.map Prod.fst = bindings

namespace Performs

variable {α β : Type} {limit : Nat} {scope : Scope} {first second : List Binding}
  {result : Evaluated α} {next : α → Scope → Evaluated β}

theorem nothing (limit : Nat) (outcome : Except EvalError α) (scope : Scope) :
    Performs limit scope [] (outcome, scope) :=
  ⟨[], .nil scope, List.nil_prefix, fun _ _ => rfl⟩

theorem mono {limit' : Nat} (hle : limit ≤ limit') (h : Performs limit scope first result) :
    Performs limit' scope first result := by
  obtain ⟨log, hlog, hstart, hall⟩ := h
  exact ⟨log, hlog.mono hle, hstart, hall⟩

/-- **Going on.** The bindings of the first part come before those of what follows. -/
theorem andThen (h : Performs limit scope first result)
    (hnext : ∀ a mid, Performs limit mid second (next a mid)) :
    Performs limit scope (first ++ second) (result.andThen next) := by
  obtain ⟨log, hlog, hstart, hall⟩ := h
  obtain ⟨err | a, mid⟩ := result
  · refine ⟨log, hlog, hstart.trans (List.prefix_append _ _), fun b hb => ?_⟩
    simp at hb
  · obtain ⟨log', hlog', hstart', hall'⟩ := hnext a mid
    have hfirst : log.map Prod.fst = first := hall a rfl
    refine ⟨log ++ log', hlog.append hlog', ?_, fun b hb => ?_⟩
    · rwa [List.map_append, hfirst, List.prefix_append_right_inj]
    · rw [List.map_append, hfirst, hall' b hb]

/-- **A binding.** Behind the bindings of its value comes the binding itself, if it is performed;
and if it is not, the scope stays as it is. -/
theorem binding {k : Nat} {b : Binding} {next : Value → Scope → Evaluated Value} (hle : k ≤ limit)
    (h : Performs limit scope b.value.bindings (b.value.evaluate k scope))
    (hnext : ∀ v mid, (∃ after, b.perform v mid = some after ∧ next v mid = (.ok v, after)) ∨
      ∃ err, next v mid = (.error err, mid)) :
    Performs limit scope (b.value.bindings ++ [b]) ((b.value.evaluate k scope).andThen next) := by
  obtain ⟨log, hlog, hstart, hall⟩ := h
  have hshort : log.map Prod.fst <+: b.value.bindings ++ [b] :=
    hstart.trans (List.prefix_append _ _)
  rcases hvalue : b.value.evaluate k scope with ⟨err | v, mid⟩ <;> rw [hvalue] at hlog hall
  · refine ⟨log, hlog, hshort, fun a ha => ?_⟩
    simp at ha
  rcases hnext v mid with ⟨after, hperform, hok⟩ | ⟨err, herr⟩
  · have hbindings : log.map Prod.fst = b.value.bindings := hall v rfl
    have hlogged : Logged limit scope (log ++ [(b, v)]) after :=
      .binding (.nil scope) hlog hbindings (Expr.evaluate_ok_of_le hle hvalue) hperform
    refine ⟨log ++ [(b, v)], ?_, ?_, fun a ha => ?_⟩
    · rwa [Evaluated.andThen_ok, hok]
    · rw [List.map_append, hbindings]
      exact List.prefix_refl _
    · rw [List.map_append, hbindings]
      rfl
  · rw [Evaluated.andThen_ok, herr]
    refine ⟨log, hlog, hshort, fun a ha => ?_⟩
    simp at ha

end Performs

/-- **Evaluation performs bindings in order.** -/
theorem Expr.performs_evaluate (limit : Nat) (e : Expr) (scope : Scope) :
    Performs limit scope e.bindings (evaluate limit e scope) := by
  induction limit generalizing e scope with
  | zero => exact ⟨[], .nil scope, List.nil_prefix, fun _ h => by simp at h⟩
  | succ limit ih =>
    -- Parts are evaluated with one level less, but their bindings are counted with the whole limit.
    replace ih (e : Expr) (scope : Scope) :
        Performs (limit + 1) scope e.bindings (evaluate limit e scope) :=
      (ih e scope).mono (Nat.le_succ limit)
    cases e with
    | literal v => exact .nothing _ _ scope
    | access name => exact .nothing _ _ scope
    | unary op operand =>
      cases hop : Value.unaryOperator? op with
      | none =>
        rw [evaluate_unary_of_none hop]
        exact ⟨[], .nil scope, List.nil_prefix, fun _ h => by simp at h⟩
      | some apply =>
        rw [evaluate_unary hop]
        have hrest := (ih operand scope).andThen fun v mid => .nothing _ (apply v) mid
        rwa [List.append_nil] at hrest
    | binary op left right =>
      cases hop : Value.binaryOperator? op with
      | none =>
        rw [evaluate_binary_of_none hop]
        exact ⟨[], .nil scope, List.nil_prefix, fun _ h => by simp at h⟩
      | some apply =>
        rw [evaluate_binary hop]
        refine (ih left scope).andThen fun l mid => ?_
        have hrest := (ih right mid).andThen fun r after => .nothing _ (apply l r) after
        rwa [List.append_nil] at hrest
    | declare name init =>
      rw [evaluate_declare]
      refine Performs.binding (b := .declare name init) (Nat.le_succ limit) (ih init scope) ?_
      exact fun v mid => .inl ⟨mid.declare name v, rfl, rfl⟩
    | assign name value =>
      rw [evaluate_assign]
      refine Performs.binding (b := .assign name value) (Nat.le_succ limit) (ih value scope) ?_
      intro v mid
      cases hassign : mid.assign? name v with
      | none => exact .inr ⟨.undefinedName name, by simp [Scope.assign, hassign]⟩
      | some after => exact .inl ⟨after, hassign, by simp [Scope.assign, hassign]⟩

/-! ### What is left as it was -/

/-- Between the two scopes nothing is gone: the names of the innermost frame are still there in
their order, with new ones only behind them, and every outer frame has the names it had. Names other
than the targets are bound in every frame as they were, or not bound in it as before. -/
structure Scope.Preserves (targets : List String) (before after : Scope) : Prop where
  inner : before.inner.names <+: after.inner.names
  outer : after.outer.map Frame.names = before.outer.map Frame.names
  others : ∀ name, name ∉ targets →
    after.frames.map (·.get? name) = before.frames.map (·.get? name)

namespace Scope.Preserves

variable {targets : List String} {scope mid after : Scope}

theorem refl (targets : List String) (scope : Scope) : Preserves targets scope scope :=
  ⟨List.prefix_refl _, rfl, fun _ _ => rfl⟩

theorem trans (h : Preserves targets scope mid) (h' : Preserves targets mid after) :
    Preserves targets scope after :=
  ⟨h.inner.trans h'.inner, h'.outer.trans h.outer,
    fun name hname => (h'.others name hname).trans (h.others name hname)⟩

theorem declare {name : String} (hname : name ∈ targets) (scope : Scope) (v : Value) :
    Preserves targets scope (scope.declare name v) := by
  refine ⟨Frame.names_prefix_bind scope.inner name v, rfl, fun other hother => ?_⟩
  have hne : other ≠ name := fun heq => hother (heq ▸ hname)
  simp [frames, Scope.declare, Frame.get?_bind_of_ne _ _ hne]

theorem assign {name : String} {v : Value} (hname : name ∈ targets)
    (h : scope.assign? name v = some after) : Preserves targets scope after := by
  obtain ⟨hinner, houter⟩ : after.inner.names = scope.inner.names ∧
      after.outer.map Frame.names = scope.outer.map Frame.names := by
    simpa [frames] using names_of_assign? h
  refine ⟨hinner ▸ List.prefix_refl _, houter, fun other hother => ?_⟩
  have hne : other ≠ name := fun heq => hother (heq ▸ hname)
  obtain ⟨nearer, frame, further, hframes, -, -, hafter⟩ := exists_of_assign? h
  simp [hframes, hafter, Frame.get?_bind_of_ne _ _ hne]

/-- **One binding.** -/
theorem perform {b : Binding} {v : Value} (hname : b.name ∈ targets)
    (h : b.perform v scope = some after) : Preserves targets scope after := by
  cases b with
  | declare name value =>
    obtain rfl : scope.declare name v = after := by simpa [Binding.perform] using h
    exact declare hname scope v
  | assign name value => exact assign hname h

/-- **Bindings in order.** -/
theorem replay {log : List (Binding × Value)} (hnames : ∀ entry ∈ log, entry.1.name ∈ targets)
    (h : scope.replay log = some after) : Preserves targets scope after := by
  induction log generalizing scope with
  | nil =>
    obtain rfl : scope = after := by simpa [Scope.replay] using h
    exact refl targets scope
  | cons entry rest ih =>
    obtain ⟨b, v⟩ := entry
    obtain ⟨hname, hrest⟩ := List.forall_mem_cons.mp hnames
    obtain ⟨mid, hperform, hreplay⟩ := Option.bind_eq_some_iff.mp h
    exact (perform hname hperform).trans (ih hrest hreplay)

end Scope.Preserves

/-- **Strict evaluation from left to right.** Whatever an expression comes to, the scope afterwards
is the one before it with bindings of the expression performed on it, in their order and each of
them once, with the values that their own expressions came to: all of them if the expression has a
value, and the first few if it fails. So nothing that was bound is gone, no name is added to an
outer frame, and names that the expression does not bind are in every frame what they were. -/
theorem Expr.evaluate_performs (limit : Nat) (e : Expr) (scope : Scope) :
    (∃ log, scope.replay log = some (evaluate limit e scope).2 ∧
      Logged limit scope log (evaluate limit e scope).2 ∧
      log.map Prod.fst <+: e.bindings ∧
      ∀ v, (evaluate limit e scope).1 = .ok v → log.map Prod.fst = e.bindings) ∧
    scope.Preserves (e.bindings.map Binding.name) (evaluate limit e scope).2 := by
  obtain ⟨log, hlog, hstart, hall⟩ := performs_evaluate limit e scope
  refine ⟨⟨log, hlog.replay_eq, hlog, hstart, hall⟩, ?_⟩
  refine .replay (fun entry hentry => ?_) hlog.replay_eq
  exact List.mem_map_of_mem (hstart.subset (List.mem_map_of_mem hentry))

/-- In `(let x = (y = "a")) + (let z = x + (x = x + "b")) + (u = z)` the last binding fails, as no
frame binds its name. The four before it have been performed. -/
theorem Expr.evaluate_performs_sum :
    let longer : Expr := .assign "x" (.binary .plus (.access "x") (.literal (.string "b")))
    let first : Expr := .declare "x" (.assign "y" (.literal (.string "a")))
    let second : Expr := .declare "z" (.binary .plus (.access "x") longer)
    let e : Expr := .binary .plus (.binary .plus first second) (.assign "u" (.access "z"))
    let scope : Scope := ⟨[], [[("y", .bool true)]]⟩
    let after : Scope := ⟨[("x", .string "ab"), ("z", .string "aab")], [[("y", .string "a")]]⟩
    e.bindings.map Binding.name = ["y", "x", "x", "z", "u"] ∧
      evaluate 10 e scope = (.error (.undefinedName "u"), after) ∧
      (∃ log, scope.replay log = some after ∧ Logged 10 scope log after ∧
        log.map Prod.fst <+: e.bindings) ∧
      scope.Preserves ["y", "x", "x", "z", "u"] after := by
  intro longer first second e scope after
  have heval : evaluate 10 e scope = (.error (.undefinedName "u"), after) := by
    with_unfolding_all rfl
  obtain ⟨⟨log, hreplay, hlogged, hstart, -⟩, hpreserves⟩ := Expr.evaluate_performs 10 e scope
  rw [heval] at hreplay hlogged hpreserves
  exact ⟨rfl, heval, ⟨log, hreplay, hlogged, hstart⟩, hpreserves⟩

end Reckon
