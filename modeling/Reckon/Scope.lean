import Reckon.Value

/-!
# Scopes

A frame binds names to values and remembers the order in which the names were first bound. A scope
is a frame and the frames around it, innermost first: names are looked up and assigned from the
inside out, and declared in the innermost frame.

A frame is plain data. That no name is bound twice in it holds of every frame these operations
build, and is a theorem rather than a field.
-/

namespace Reckon

/-! ### Frames -/

/-- Names and their values, in the order the names were first bound. -/
abbrev Frame := List (String × Value)

namespace Frame

/-- The value bound to a name. -/
def get? (frame : Frame) (name : String) : Option Value := List.lookup name frame

/-- The name is bound in the frame. -/
def binds (frame : Frame) (name : String) : Bool := (frame.get? name).isSome

/-- Binds a name. A name that is bound keeps its place; a new one comes last. -/
def bind (name : String) (value : Value) : Frame → Frame
  | [] => [(name, value)]
  | (n, v) :: rest =>
    if n = name then (name, value) :: rest else (n, v) :: bind name value rest

/-- The names of the frame in order. -/
def names (frame : Frame) : List String := frame.map Prod.fst

@[simp]
theorem get?_nil (name : String) : get? [] name = none := rfl

@[simp]
theorem get?_cons (n name : String) (v : Value) (frame : Frame) :
    get? ((n, v) :: frame) name = if n = name then some v else get? frame name := by
  simp only [get?, List.lookup_cons]
  by_cases h : n = name
  · simp [h]
  · have hne : (name == n) = false := by simpa using fun e => h e.symm
    simp [h, hne]

/-- A name just bound has its value. -/
theorem get?_bind_self (frame : Frame) (name : String) (value : Value) :
    (frame.bind name value).get? name = some value := by
  induction frame with
  | nil => simp [bind]
  | cons head rest ih =>
    obtain ⟨n, v⟩ := head
    by_cases h : n = name <;> simp [bind, h, ih]

/-- Binding a name leaves the others alone. -/
theorem get?_bind_of_ne (frame : Frame) {name other : String} (value : Value)
    (hne : other ≠ name) : (frame.bind name value).get? other = frame.get? other := by
  induction frame with
  | nil => simp [bind, hne.symm]
  | cons head rest ih =>
    obtain ⟨n, v⟩ := head
    by_cases h : n = name
    · subst h
      simp [bind, hne.symm]
    · simp [bind, h, ih]

/-- A bound name keeps its place, and a new one comes last. -/
theorem names_bind (frame : Frame) (name : String) (value : Value) :
    (frame.bind name value).names
      = if frame.binds name then frame.names else frame.names ++ [name] := by
  induction frame with
  | nil => rfl
  | cons head rest ih =>
    obtain ⟨n, v⟩ := head
    by_cases h : n = name
    · simp [bind, binds, names, h]
    · simp only [bind, h, if_false, names, List.map_cons, binds, get?_cons] at ih ⊢
      rw [ih]
      by_cases hb : (get? rest name).isSome = true <;> simp [hb]

/-- The bindings between braces, each as a name and source text for its value. -/
def render (frame : Frame) : String :=
  "\x7b" ++ String.intercalate ", " (frame.map fun (n, v) => n ++ ": " ++ v.literal) ++ "\x7d"

end Frame

/-! ### Scopes -/

/-- The innermost frame and the frames around it, from the inside out. -/
structure Scope where
  inner : Frame
  outer : List Frame
deriving DecidableEq

/-- A copy of the frames of a scope, innermost first. -/
abbrev Snapshot := List Frame

namespace Scope

/-- One frame that binds nothing. -/
def empty : Scope := ⟨[], []⟩

/-- A new frame inside the scope. -/
def child (scope : Scope) : Scope := ⟨[], scope.inner :: scope.outer⟩

/-- The scope around the innermost frame. -/
def parent? (scope : Scope) : Option Scope :=
  match scope.outer with
  | [] => none
  | frame :: rest => some ⟨frame, rest⟩

/-- The frames of the scope, innermost first. -/
def frames (scope : Scope) : List Frame := scope.inner :: scope.outer

/-- How many frames out a name is bound nearest. -/
def find? (scope : Scope) (name : String) : Option Nat := scope.frames.findIdx? (·.binds name)

/-- The value bound to a name in the nearest frame that binds it. -/
def get? (scope : Scope) (name : String) : Option Value := scope.frames.findSome? (·.get? name)

/-- Binds a name in the innermost frame. -/
def declare (scope : Scope) (name : String) (value : Value) : Scope :=
  ⟨scope.inner.bind name value, scope.outer⟩

/-- A name just declared has its value. -/
theorem get?_declare_self (scope : Scope) (name : String) (value : Value) :
    (scope.declare name value).get? name = some value := by
  simp [get?, frames, declare, Frame.get?_bind_self]

/-- Declaring a name leaves the others alone. -/
theorem get?_declare_of_ne (scope : Scope) {name other : String} (value : Value)
    (hne : other ≠ name) : (scope.declare name value).get? other = scope.get? other := by
  simp only [get?, frames, declare, List.findSome?_cons, Frame.get?_bind_of_ne _ _ hne]

/-- Rebinds a name in the first of the frames that binds it. -/
def assignIn (name : String) (value : Value) : List Frame → Option (List Frame)
  | [] => none
  | frame :: rest =>
    if frame.binds name then some (frame.bind name value :: rest)
    else (assignIn name value rest).map (frame :: ·)

/-- Rebinds a name in the nearest frame that binds it, if there is one. -/
def assign? (scope : Scope) (name : String) (value : Value) : Option Scope :=
  if scope.inner.binds name then
    some (scope.declare name value)
  else
    (assignIn name value scope.outer).map (⟨scope.inner, ·⟩)

/-! ### Snapshots -/

/-- A copy of all bindings. -/
def snapshot (scope : Scope) : Snapshot := scope.frames

/-- Why a snapshot could not be put back in full. -/
inductive RestoreError where
  /-- The snapshot has more frames than the scope. -/
  | tooManyFrames
deriving DecidableEq, Repr

/-- The wording of the error. -/
def RestoreError.message : RestoreError → String
  | tooManyFrames => "snapshot taken from a longer scope chain"

/-- Replaces frames by saved ones, as far as both lists reach. -/
def overlay : Snapshot → List Frame → List Frame
  | saved :: savedRest, _ :: rest => saved :: overlay savedRest rest
  | _, frames => frames

/-- Puts a snapshot back, frame by frame from the inside out. Frames beyond the snapshot are left
alone; a snapshot with frames left over is an error, after those that fit are put back. -/
def restore (scope : Scope) (saved : Snapshot) : Scope × Except RestoreError Unit :=
  let restored :=
    match saved with
    | [] => scope
    | frame :: rest => ⟨frame, overlay rest scope.outer⟩
  if saved.length ≤ scope.frames.length then (restored, .ok ())
  else (restored, .error .tooManyFrames)

/-- A snapshot that covers all frames takes their place. -/
theorem overlay_of_length_eq {saved : Snapshot} {frames : List Frame}
    (h : saved.length = frames.length) : overlay saved frames = saved := by
  induction saved generalizing frames with
  | nil =>
    cases frames with
    | nil => rfl
    | cons frame rest => simp at h
  | cons first savedRest ih =>
    cases frames with
    | nil => simp at h
    | cons frame rest =>
      rw [overlay, ih (by simpa using h)]

/-- Putting back a snapshot of a scope with as many frames gives that scope. -/
theorem restore_snapshot {scope before : Scope}
    (h : scope.frames.length = before.frames.length) :
    scope.restore before.snapshot = (before, .ok ()) := by
  have hout : before.outer.length = scope.outer.length := by
    simpa [frames] using h.symm
  simp [restore, snapshot, frames, overlay_of_length_eq hout, hout]

/-! ### Rendering -/

/-- The innermost frame, with a mark when there are others around it. -/
def summary (scope : Scope) : String :=
  scope.inner.render ++ (if scope.outer.isEmpty then "" else " -> ...")

/-- All frames, innermost first. -/
def render (scope : Scope) : String :=
  "<Environment chain: " ++ String.intercalate " -> " (scope.frames.map Frame.render) ++ ">"

end Scope

end Reckon
