import Mathlib.Logic.Relation
import Reckon.Eval.Basic

/-!
# Writes

A scope changes in two ways while an expression is evaluated: a name is declared, or a bound name is
rebound. `Scope.Writes` says that one scope comes from another by any number of such writes.

Neither kind of write adds or removes a frame. A snapshot taken before some writes therefore covers
exactly the frames there are after them, and putting it back undoes them all
(`Scope.restore_writes`).
-/

namespace Reckon

namespace Scope

/-! ### Writes -/

/-- One write: a declaration, or an assignment to a name that is bound. -/
inductive Write : Scope → Scope → Prop where
  | declare (scope : Scope) (name : String) (value : Value) :
      Write scope (scope.declare name value)
  | assign {scope after : Scope} {name : String} {value : Value}
      (h : scope.assign? name value = some after) : Write scope after

/-- Any number of writes, one after the other. -/
def Writes : Scope → Scope → Prop := Relation.ReflTransGen Write

theorem Writes.refl (scope : Scope) : Writes scope scope := Relation.ReflTransGen.refl

theorem Writes.trans {a b c : Scope} (hab : Writes a b) (hbc : Writes b c) : Writes a c :=
  Relation.ReflTransGen.trans hab hbc

theorem Write.writes {a b : Scope} (h : Write a b) : Writes a b := Relation.ReflTransGen.single h

/-- Rebinding a name in some frames leaves as many frames. -/
theorem length_assignIn {name : String} {value : Value} {frames after : List Frame}
    (h : assignIn name value frames = some after) : after.length = frames.length := by
  induction frames generalizing after with
  | nil => simp [assignIn] at h
  | cons frame rest ih =>
    by_cases hb : frame.binds name
    · simp only [assignIn, hb, if_true, Option.some.injEq] at h
      simp [← h]
    · simp only [assignIn, hb, Bool.false_eq_true, if_false, Option.map_eq_some_iff] at h
      obtain ⟨rest', hrest, rfl⟩ := h
      simp [ih hrest]

/-- A write neither opens nor closes a frame. -/
theorem Write.length_frames {a b : Scope} (h : Write a b) : b.frames.length = a.frames.length := by
  cases h with
  | declare name value => rfl
  | @assign _ name value h =>
    by_cases hb : a.inner.binds name
    · simp only [assign?, hb, if_true, Option.some.injEq] at h
      simp [← h, Scope.declare, frames]
    · simp only [assign?, hb, Bool.false_eq_true, if_false, Option.map_eq_some_iff] at h
      obtain ⟨outer, houter, rfl⟩ := h
      simp [frames, length_assignIn houter]

theorem Writes.length_frames {a b : Scope} (h : Writes a b) :
    b.frames.length = a.frames.length := by
  induction h with
  | refl => rfl
  | tail _ hstep ih => exact hstep.length_frames.trans ih

/-- **Undoing.** A snapshot put back after any writes gives the scope it was taken of. -/
theorem restore_writes {before after : Scope} (h : Writes before after) :
    after.restore before.snapshot = (before, .ok ()) :=
  restore_snapshot h.length_frames

/-- Assigning to a name is a write when it succeeds and nothing when it fails. -/
theorem write_assign (scope : Scope) (name : String) (value : Value) :
    scope = (scope.assign name value).2 ∨ Write scope (scope.assign name value).2 := by
  unfold assign
  cases h : scope.assign? name value with
  | none => exact .inl rfl
  | some after => exact .inr (.assign h)

end Scope

end Reckon
