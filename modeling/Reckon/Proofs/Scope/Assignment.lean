import Reckon.Scope

/-!
# Where declarations and assignments go

A declaration binds its name in the innermost frame. An assignment goes outwards to the first frame
that binds the name, and `Scope.exists_of_assign?` says what that comes to: this frame is rebound,
and the frames in front of it and behind it are what they were. Everything else that is said about
assignments here is read off from that.

Seen from the inside the two do the same (`Scope.get?_declare`, `Scope.get?_of_assign?`): the name
has its new value, and all other names have the values they had. The difference is that only a name
with a value can be assigned to (`Scope.assign?_eq_none_iff`), and that an assignment adds no name
to any frame (`Scope.names_of_assign?`).
-/

namespace Reckon

namespace Frame

variable {frame : Frame} {name other : String} {value : Value}

/-! ### Frames -/

theorem get?_bind (frame : Frame) (name other : String) (value : Value) :
    (frame.bind name value).get? other = if other = name then some value else frame.get? other := by
  by_cases h : other = name
  · rw [if_pos h, h, get?_bind_self]
  · rw [if_neg h, get?_bind_of_ne frame value h]

theorem binds_eq_false_iff : frame.binds name = false ↔ frame.get? name = none := by
  simp [binds]

theorem binds_iff_mem_names : frame.binds name ↔ name ∈ frame.names := by
  induction frame with
  | nil => simp [binds, names]
  | cons head rest ih =>
    obtain ⟨n, v⟩ := head
    by_cases h : n = name
    · simp [binds, names, h]
    · simpa [binds, names, h, Ne.symm h] using ih

/-- A bound name that is bound again leaves the names as they are. -/
theorem names_bind_of_binds (h : frame.binds name) (value : Value) :
    (frame.bind name value).names = frame.names := by
  rw [names_bind, if_pos h]

/-- Binding a name takes none away. -/
theorem names_prefix_bind (frame : Frame) (name : String) (value : Value) :
    frame.names <+: (frame.bind name value).names := by
  rw [names_bind]
  split
  · exact List.prefix_refl _
  · exact List.prefix_append _ _

end Frame

namespace Scope

variable {scope after : Scope} {name : String} {value : Value}

/-! ### Declarations -/

theorem get?_declare (scope : Scope) (name other : String) (value : Value) :
    (scope.declare name value).get? other =
      if other = name then some value else scope.get? other := by
  by_cases h : other = name
  · rw [if_pos h, h, get?_declare_self]
  · rw [if_neg h, get?_declare_of_ne scope value h]

/-! ### Assignments -/

/-- Among some frames, an assignment rebinds the first that binds the name. -/
private theorem exists_of_assignIn {frames frames' : List Frame}
    (h : assignIn name value frames = some frames') :
    ∃ nearer frame further, frames = nearer ++ frame :: further ∧
      (∀ f ∈ nearer, f.get? name = none) ∧ frame.binds name ∧
      frames' = nearer ++ frame.bind name value :: further := by
  induction frames generalizing frames' with
  | nil => simp [assignIn] at h
  | cons frame rest ih =>
    cases hbinds : frame.binds name with
    | true =>
      simp only [assignIn, hbinds, if_true, Option.some.injEq] at h
      exact ⟨[], frame, rest, rfl, by simp, hbinds, h.symm⟩
    | false =>
      simp only [assignIn, hbinds, Bool.false_eq_true, if_false, Option.map_eq_some_iff] at h
      obtain ⟨rest', hrest, rfl⟩ := h
      obtain ⟨nearer, found, further, rfl, hnearer, hfound, rfl⟩ := ih hrest
      refine ⟨frame :: nearer, found, further, rfl, ?_, hfound, rfl⟩
      exact List.forall_mem_cons.mpr ⟨Frame.binds_eq_false_iff.mp hbinds, hnearer⟩

/-- An assignment in a scope is one among its frames. -/
theorem assign?_eq (scope : Scope) (name : String) (value : Value) :
    (scope.assign? name value).map frames = assignIn name value scope.frames := by
  cases hbinds : scope.inner.binds name with
  | true => simp [assign?, frames, assignIn, hbinds, declare]
  | false =>
    simp only [assign?, frames, assignIn, hbinds, Bool.false_eq_true, if_false, Option.map_map]
    rfl

/-- **Assignments.** The nearest frame that binds the name is rebound, and no other is touched. -/
theorem exists_of_assign? (h : scope.assign? name value = some after) :
    ∃ nearer frame further, scope.frames = nearer ++ frame :: further ∧
      (∀ f ∈ nearer, f.get? name = none) ∧ frame.binds name ∧
      after.frames = nearer ++ frame.bind name value :: further := by
  apply exists_of_assignIn
  rw [← assign?_eq, h, Option.map_some]

/-- A name can be assigned to exactly if it has a value. -/
theorem assign?_eq_none_iff : scope.assign? name value = none ↔ scope.get? name = none := by
  have hmap : scope.assign? name value = none ↔ assignIn name value scope.frames = none := by
    rw [← assign?_eq, Option.map_eq_none_iff]
  rw [hmap, get?]
  induction scope.frames with
  | nil => simp [assignIn]
  | cons frame rest ih =>
    cases hbinds : frame.binds name with
    | true =>
      obtain ⟨v, hv⟩ := Option.isSome_iff_exists.mp hbinds
      simp [assignIn, hbinds, hv]
    | false =>
      have hnone := Frame.binds_eq_false_iff.mp hbinds
      simp [assignIn, hbinds, hnone, ih]

/-- Seen from the inside, an assignment changes the value of its name and of no other. -/
theorem get?_of_assign? (h : scope.assign? name value = some after) (other : String) :
    after.get? other = if other = name then some value else scope.get? other := by
  obtain ⟨nearer, frame, further, hframes, hnearer, hbinds, hafter⟩ := exists_of_assign? h
  rw [get?, get?, hframes, hafter]
  by_cases hother : other = name
  · have hnone : nearer.findSome? (·.get? name) = none := List.findSome?_eq_none_iff.mpr hnearer
    simp [hother, List.findSome?_append, hnone, Frame.get?_bind]
  · simp [hother, List.findSome?_append, List.findSome?_cons, Frame.get?_bind]

/-- An assignment leaves the names of every frame as they are, in their order. -/
theorem names_of_assign? (h : scope.assign? name value = some after) :
    after.frames.map Frame.names = scope.frames.map Frame.names := by
  obtain ⟨nearer, frame, further, hframes, -, hbinds, hafter⟩ := exists_of_assign? h
  simp [hframes, hafter, Frame.names_bind_of_binds hbinds]

end Scope

end Reckon
