import Mathlib.Data.List.Induction
import Mathlib.Data.List.Nodup
import Reckon.Eval.Basic
import Reckon.Proofs.Scope.Assignment

/-!
# Laws of scopes

What declarations and assignments do to a scope, and what all scopes that come about by them have in
common (`Scope.chain_laws`).

A declaration is felt in the innermost frame and nowhere else (`Scope.Declares`). An assignment is
felt in the nearest frame that binds the name, and where there is none it fails and nothing has
changed (`Scope.Assigns`). Where a name is found depends on the names of the frames only
(`Scope.find?_eq`), and as an assignment leaves these as they are, it leaves every name where it was
found.

`Scope.Reached` says which scopes there are. A scope can be nested, left, declared in, assigned to
and put back to what some scope was before, and all of that can happen to a scope while others are
nested in it. Along with the scope goes a record of the names declared in each frame, and the
invariant is that a frame lists its names in the order of the record, each at its first entry
(`Scope.Reached.names_eq`).
-/

namespace Reckon

/-! ### First entries -/

theorem eraseDups_concat {α : Type} [DecidableEq α] (l : List α) (a : α) :
    (l ++ [a]).eraseDups = if a ∈ l then l.eraseDups else l.eraseDups ++ [a] := by
  rw [List.eraseDups_append]
  by_cases h : a ∈ l
  · simp [List.removeAll, h]
  · simp [List.removeAll, h, List.eraseDups_cons]

theorem nodup_eraseDups {α : Type} [DecidableEq α] (l : List α) : l.eraseDups.Nodup := by
  induction l using List.reverseRecOn with
  | nil => exact List.nodup_nil
  | append_singleton l a ih =>
    rw [eraseDups_concat]
    split
    · exact ih
    next hnew =>
      rw [← List.concat_eq_append]
      exact ih.concat (mt List.mem_eraseDups.mp hnew)

/-- Binding a name is adding it to the record. -/
theorem Frame.names_bind_eq_eraseDups {frame : Frame} {record : List String}
    (h : frame.names = record.eraseDups) (name : String) (value : Value) :
    (frame.bind name value).names = (record ++ [name]).eraseDups := by
  rw [names_bind, eraseDups_concat, h]
  refine if_congr ?_ rfl rfl
  rw [binds_iff_mem_names, h, List.mem_eraseDups]

namespace Scope

variable {scope after : Scope} {name other : String} {value : Value}

/-! ### Where a name is found -/

/-- Where a name is found depends on the names of the frames only. -/
theorem find?_eq (scope : Scope) (name : String) :
    scope.find? name = (scope.frames.map Frame.names).findIdx? fun names => name ∈ names := by
  rw [find?, List.findIdx?_map]
  congr 1
  funext frame
  rw [Function.comp_apply, Bool.eq_iff_iff, decide_eq_true_iff, Frame.binds_iff_mem_names]

theorem find?_declare_self (scope : Scope) (name : String) (value : Value) :
    (scope.declare name value).find? name = some 0 := by
  have hbinds : (scope.inner.bind name value).binds name = true := by
    rw [Frame.binds, Frame.get?_bind_self]
    rfl
  simp [find?, declare, frames, List.findIdx?_cons, hbinds]

theorem find?_declare_of_ne (scope : Scope) (value : Value) (hne : other ≠ name) :
    (scope.declare name value).find? other = scope.find? other := by
  simp only [find?, declare, frames, List.findIdx?_cons, Frame.binds,
    Frame.get?_bind_of_ne scope.inner value hne]

/-! ### Declarations -/

/-- What declaring a name does to a scope. -/
structure Declares (before : Scope) (name : String) (value : Value) (after : Scope) : Prop where
  get?_self : after.get? name = some value
  /-- The name is found in the current scope. -/
  find?_self : after.find? name = some 0
  get?_other : ∀ other, other ≠ name → after.get? other = before.get? other
  find?_other : ∀ other, other ≠ name → after.find? other = before.find? other
  outer : after.outer = before.outer
  /-- A name keeps its place if it has one, and else it is the last. -/
  names : after.inner.names =
    if name ∈ before.inner.names then before.inner.names else before.inner.names ++ [name]

theorem declares (scope : Scope) (name : String) (value : Value) :
    Declares scope name value (scope.declare name value) where
  get?_self := get?_declare_self scope name value
  find?_self := find?_declare_self scope name value
  get?_other _ hne := get?_declare_of_ne scope value hne
  find?_other _ hne := find?_declare_of_ne scope value hne
  outer := rfl
  names := by
    rw [declare, Frame.names_bind]
    exact if_congr Frame.binds_iff_mem_names rfl rfl

/-! ### Assignments -/

/-- What assigning to a name does to a scope, and with which outcome. -/
structure Assigns (before : Scope) (name : String) (value : Value) (result : Evaluated Unit) :
    Prop where
  /-- It succeeds if some frame has the name. -/
  ok_iff : result.1 = .ok () ↔ ∃ frame ∈ before.frames, name ∈ frame.names
  get?_self : result.1 = .ok () → result.2.get? name = some value
  find? : ∀ other, result.2.find? other = before.find? other
  /-- Only the nearest frame with the name is touched, -/
  frames : ∀ i, before.find? name ≠ some i → result.2.frames[i]? = before.frames[i]?
  /-- and there only the value of the name. -/
  others : ∀ other, other ≠ name →
    result.2.frames.map (·.get? other) = before.frames.map (·.get? other)
  names : result.2.frames.map Frame.names = before.frames.map Frame.names
  failed : ∀ err, result.1 = .error err → err = .undefinedName name ∧ result.2 = before

/-- A name is found where the nearest frame with it is. -/
theorem find?_eq_length {nearer further : List Frame} {frame : Frame}
    (hframes : scope.frames = nearer ++ frame :: further)
    (hnearer : ∀ f ∈ nearer, f.get? name = none) (hbinds : frame.binds name) :
    scope.find? name = some nearer.length := by
  have hnone : nearer.findIdx? (·.binds name) = none :=
    List.findIdx?_eq_none_iff.mpr fun f hf => Frame.binds_eq_false_iff.mpr (hnearer f hf)
  rw [find?, hframes, List.findIdx?_append, hnone, List.findIdx?_cons, if_pos hbinds]
  simp

/-- An assignment touches the frame that the name is found in. -/
theorem frames_of_assign? (h : scope.assign? name value = some after) {i : ℕ}
    (hi : scope.find? name ≠ some i) : after.frames[i]? = scope.frames[i]? := by
  obtain ⟨nearer, frame, further, hframes, hnearer, hbinds, hafter⟩ := exists_of_assign? h
  rw [find?_eq_length hframes hnearer hbinds, Ne, Option.some.injEq] at hi
  rw [hframes, hafter, List.getElem?_append, List.getElem?_append]
  split
  · rfl
  · have hbehind : i - nearer.length ≠ 0 := by omega
    rw [List.getElem?_cons, List.getElem?_cons, if_neg hbehind, if_neg hbehind]

private theorem others_of_assign? (h : scope.assign? name value = some after) (hne : other ≠ name) :
    after.frames.map (·.get? other) = scope.frames.map (·.get? other) := by
  obtain ⟨nearer, frame, further, hframes, -, -, hafter⟩ := exists_of_assign? h
  simp only [hframes, hafter, List.map_append, List.map_cons, Frame.get?_bind_of_ne frame value hne]

/-- A name can be assigned to if some frame has it. -/
theorem exists_mem_names_iff (value : Value) :
    (∃ frame ∈ scope.frames, name ∈ frame.names) ↔ scope.assign? name value ≠ none := by
  rw [Ne, assign?_eq_none_iff, get?, List.findSome?_eq_none_iff]
  simp only [not_forall, exists_prop, ← Frame.binds_iff_mem_names, Frame.binds,
    Option.isSome_iff_ne_none, ne_eq]

theorem assigns (scope : Scope) (name : String) (value : Value) :
    Assigns scope name value (scope.assign name value) := by
  rw [assign]
  split
  next after h =>
    exact {
      ok_iff := iff_of_true rfl ((exists_mem_names_iff value).mpr (by simp [h]))
      get?_self := fun _ => by rw [get?_of_assign? h, if_pos rfl]
      find? := fun other => by rw [find?_eq, find?_eq, names_of_assign? h]
      frames := fun i => frames_of_assign? h
      others := fun other => others_of_assign? h
      names := names_of_assign? h
      failed := fun err herr => by simp at herr }
  next h =>
    exact {
      ok_iff := iff_of_false (by simp) (mt (exists_mem_names_iff value).mp (not_not.mpr h))
      get?_self := fun hok => by simp at hok
      find? := fun _ => rfl
      frames := fun _ _ => rfl
      others := fun _ _ => rfl
      names := rfl
      failed := fun err herr => ⟨(Except.error.inj herr).symm, rfl⟩ }

/-! ### Scopes that can be reached -/

/-- The scope with further frames nested in it. -/
def enclose (nearer : List Frame) (scope : Scope) : Scope :=
  match nearer with
  | [] => scope
  | frame :: rest => ⟨frame, rest ++ scope.frames⟩

private theorem frames_enclose (nearer : List Frame) (scope : Scope) :
    (scope.enclose nearer).frames = nearer ++ scope.frames := by
  cases nearer with
  | nil => rfl
  | cons frame rest => rfl

private theorem frames_of_parent? {outer : Scope} (h : scope.parent? = some outer) :
    scope.frames = scope.inner :: outer.frames := by
  rw [parent?] at h
  split at h
  next => simp at h
  next frame rest houter =>
    obtain rfl := Option.some.inj h
    rw [frames, houter]
    rfl

private theorem overlay_eq (saved : Snapshot) (frames : List Frame) :
    overlay saved frames = saved.take frames.length ++ frames.drop saved.length := by
  induction saved generalizing frames with
  | nil => simp [overlay]
  | cons first savedRest ih =>
    cases frames with
    | nil => simp [overlay]
    | cons frame rest => simp [overlay, ih]

/-- Putting back a snapshot replaces as many of the innermost frames as both have. -/
theorem frames_restore (scope : Scope) (saved : Snapshot) :
    (scope.restore saved).1.frames =
      saved.take scope.frames.length ++ scope.frames.drop saved.length := by
  have hfst : (scope.restore saved).1.frames = overlay saved scope.frames := by
    cases saved with
    | nil => simp [restore, overlay]
    | cons first rest =>
      unfold restore
      dsimp only
      split <;> rfl
  rw [hfst, overlay_eq]

/-- The scopes that can be reached, each with a record of the names declared in its frames: for
every frame the names in the order in which they were declared, one entry for each declaration.
Putting back a snapshot puts back the record that was kept when it was taken. Everything that can be
done to a scope can be done while others are nested in it. -/
inductive Reached : Scope → List (List String) → Prop where
  | empty : Reached .empty [[]]
  | child {scope : Scope} {record : List (List String)} (h : Reached scope record) :
      Reached scope.child ([] :: record)
  | parent {scope outer : Scope} {declared : List String} {record : List (List String)}
      (h : Reached scope (declared :: record)) (hparent : scope.parent? = some outer) :
      Reached outer record
  | declare {nearer : List Frame} {scope : Scope} {nearerRecord record : List (List String)}
      {declared : List String}
      (h : Reached (scope.enclose nearer) (nearerRecord ++ declared :: record))
      (hlength : nearerRecord.length = nearer.length) (name : String) (value : Value) :
      Reached ((scope.declare name value).enclose nearer)
        (nearerRecord ++ (declared ++ [name]) :: record)
  | assign {nearer : List Frame} {scope : Scope} {record : List (List String)}
      (h : Reached (scope.enclose nearer) record) (name : String) (value : Value) :
      Reached ((scope.assign name value).2.enclose nearer) record
  | restore {nearer : List Frame} {scope before : Scope}
      {nearerRecord record saved : List (List String)}
      (h : Reached (scope.enclose nearer) (nearerRecord ++ record))
      (hlength : nearerRecord.length = nearer.length) (hsaved : Reached before saved) :
      Reached ((scope.restore before.snapshot).1.enclose nearer)
        (nearerRecord ++ (saved.take record.length ++ record.drop saved.length))

/-- Each frame lists the names of its record, each at its first entry. -/
def Follows (scope : Scope) (record : List (List String)) : Prop :=
  scope.frames.map Frame.names = record.map List.eraseDups

variable {nearer : List Frame} {nearerRecord record saved : List (List String)}
  {declared : List String} {before : Scope}

theorem Follows.length_eq (h : scope.Follows record) : scope.frames.length = record.length := by
  simpa using congrArg List.length h

/-- Frames nested in a scope have their own part of the record. -/
theorem follows_enclose_iff (hlength : nearerRecord.length = nearer.length) :
    (scope.enclose nearer).Follows (nearerRecord ++ record) ↔
      nearer.map Frame.names = nearerRecord.map List.eraseDups ∧ scope.Follows record := by
  rw [Follows, frames_enclose, List.map_append, List.map_append]
  exact List.append_eq_append_iff_of_size_eq_left (by simp [hlength])

theorem Follows.declare (h : scope.Follows (declared :: record)) (name : String) (value : Value) :
    (scope.declare name value).Follows ((declared ++ [name]) :: record) := by
  obtain ⟨hinner, houter⟩ := List.cons.inj h
  exact congrArg₂ List.cons (Frame.names_bind_eq_eraseDups hinner name value) houter

theorem Follows.assign (h : (scope.enclose nearer).Follows record) (name : String)
    (value : Value) : ((scope.assign name value).2.enclose nearer).Follows record := by
  rw [Follows, frames_enclose, List.map_append] at h ⊢
  rw [(assigns scope name value).names, h]

theorem Follows.restore (h : scope.Follows record) (hsaved : before.Follows saved) :
    (scope.restore before.snapshot).1.Follows
      (saved.take record.length ++ record.drop saved.length) := by
  rw [Follows, frames_restore, snapshot, List.map_append, List.map_take, List.map_drop, hsaved, h,
    h.length_eq, hsaved.length_eq, List.map_append, List.map_take, List.map_drop]

/-- **First-declared order.** In every scope that can be reached, each frame lists the names of its
record, each at its first entry. -/
theorem Reached.follows (h : Reached scope record) : scope.Follows record := by
  -- The nested frames keep their part of the record, and the scope has what its step does to it.
  induction h with
  | empty => rfl
  | child h ih => exact congrArg (List.cons []) ih
  | parent h hparent ih =>
    rw [Follows, frames_of_parent? hparent] at ih
    exact (List.cons.inj ih).2
  | declare h hlength name value ih =>
    obtain ⟨hnearer, hscope⟩ := (follows_enclose_iff hlength).mp ih
    exact (follows_enclose_iff hlength).mpr ⟨hnearer, hscope.declare name value⟩
  | assign h name value ih => exact ih.assign name value
  | restore h hlength hsaved ih ihsaved =>
    obtain ⟨hnearer, hscope⟩ := (follows_enclose_iff hlength).mp ih
    exact (follows_enclose_iff hlength).mpr ⟨hnearer, hscope.restore ihsaved⟩

theorem Follows.nodup_names (h : scope.Follows record) {frame : Frame}
    (hframe : frame ∈ scope.frames) : frame.names.Nodup := by
  have hnames : frame.names ∈ record.map List.eraseDups := h ▸ List.mem_map_of_mem hframe
  obtain ⟨declared, -, heq⟩ := List.mem_map.mp hnames
  exact heq ▸ nodup_eraseDups declared

/-- **Laws of scopes.** In a scope that can be reached no frame has a name twice, and the names
stand in the order in which they were first declared. Declaring a name and assigning to it do to any
scope what `Declares` and `Assigns` say. -/
theorem chain_laws :
    (∀ scope record, Reached scope record →
      (∀ frame ∈ scope.frames, frame.names.Nodup) ∧
      scope.frames.map Frame.names = record.map List.eraseDups) ∧
    ∀ (scope : Scope) (name : String) (value : Value),
      Declares scope name value (scope.declare name value) ∧
      Assigns scope name value (scope.assign name value) :=
  ⟨fun _ _ h => ⟨fun _ hframe => h.follows.nodup_names hframe, h.follows⟩,
    fun scope name value => ⟨declares scope name value, assigns scope name value⟩⟩

/-- With a name declared twice around a nested scope, and an assignment that passes over the nested
frame. -/
theorem chain_laws_nested :
    let v := Value.string ""
    let outer := empty.declare "x" v
    let scope := ((outer.declare "y" v).declare "x" v).enclose [[("z", v)]]
    Reached scope [["z"], ["x", "y", "x"]] ∧
    scope.frames.map Frame.names = [["z"], ["x", "y"]] ∧
    (scope.assign "y" (.bool false)).2.find? "y" = scope.find? "y" := by
  intro v outer scope
  obtain ⟨hreached, hlaws⟩ := chain_laws
  have houter : Reached outer [["x"]] := @Reached.declare [] empty [] [] [] .empty rfl "x" v
  have hnested : Reached (outer.enclose [[("z", v)]]) [["z"], ["x"]] :=
    @Reached.declare [] outer.child [] [["x"]] [] houter.child rfl "z" v
  have hfirst : Reached ((outer.declare "y" v).enclose [[("z", v)]]) [["z"], ["x", "y"]] :=
    @Reached.declare _ outer [["z"]] [] ["x"] hnested rfl "y" v
  have hscope : Reached scope [["z"], ["x", "y", "x"]] :=
    @Reached.declare _ (outer.declare "y" v) [["z"]] [] ["x", "y"] hfirst rfl "x" v
  exact ⟨hscope, (hreached scope _ hscope).2, (hlaws scope "y" (.bool false)).2.find? "y"⟩

end Scope

end Reckon
