import Mathlib.Data.List.Nodup
import Mathlib.Logic.Relation
import Mathlib.Order.Nat
import Reckon.Proofs.Scope.Chain
import Reckon.Proofs.Session.Reload

/-!
# Snapshots bring scopes back

A snapshot of a scope, put back later, brings back every frame of the scope, whatever has been done
in between (`Nest.snapshot_recovers`).

Much can be done in between, because scopes share the frames around them: a scope is changed through
any scope that is nested in it, and while others are nested in it. A `Nest` holds scopes and
snapshots together with all their frames, which stand in one store. Each scope has a frame of its
own and may have a scope around it; the chain of frames along these links is the scope in the sense
of `Scope`, and what is done to it is written frame by frame along the same links (`Nest.act`). A
snapshot knows where its frames stand, and they are read when it is put back (`Nest.load`). That
they are there then is because they were copied to places of their own (`Nest.snapshot`): had the
snapshot kept the places of the scopes, it would change with them.

Three facts carry the result. Nothing that is done to a scope opens or closes a frame
(`Scope.Action.length_frames_perform`); no step changes the links between the scopes there are; and
no step writes where a copy stands (`Nest.Step.keeps`). So a snapshot covers the chain of its scope
at any later time, exactly, with the frames that it was taken of.
-/

namespace Reckon

/-! ### Putting a snapshot back -/

namespace Scope

private theorem eq_of_frames_eq {scope scope' : Scope} (h : scope.frames = scope'.frames) :
    scope = scope' := by
  obtain ⟨hinner, houter⟩ := List.cons.inj h
  exact congrArg₂ Scope.mk hinner houter

/-- What putting a snapshot back does to a scope, and with which outcome. -/
structure Restores (before : Scope) (saved : Snapshot)
    (result : Scope × Except RestoreError Unit) : Prop where
  length_frames : result.1.frames.length = before.frames.length
  /-- As many of the innermost frames as both have are the saved ones, -/
  restored : ∀ n, n < min saved.length before.frames.length → result.1.frames[n]? = saved[n]?
  /-- and the others are as before. -/
  kept : ∀ n, min saved.length before.frames.length ≤ n →
    result.1.frames[n]? = before.frames[n]?
  /-- It is an error exactly if there are more saved frames than frames. -/
  error_iff : result.2 = .error .tooManyFrames ↔ before.frames.length < saved.length

theorem length_frames_restore (scope : Scope) (saved : Snapshot) :
    (scope.restore saved).1.frames.length = scope.frames.length := by
  rw [frames_restore, List.length_append, List.length_take, List.length_drop]
  omega

theorem snd_restore (scope : Scope) (saved : Snapshot) :
    (scope.restore saved).2 =
      if saved.length ≤ scope.frames.length then .ok () else .error .tooManyFrames := by
  unfold restore
  dsimp only
  split <;> rfl

private theorem restores (scope : Scope) (saved : Snapshot) :
    Restores scope saved (scope.restore saved) where
  length_frames := length_frames_restore scope saved
  restored n hn := by
    rw [frames_restore, List.getElem?_append_left (by rw [List.length_take]; omega),
      List.getElem?_take_of_lt (by omega)]
  kept n hn := by
    rw [frames_restore, List.getElem?_append_right (by rw [List.length_take]; omega),
      List.getElem?_drop, List.length_take]
    rcases Nat.le_total saved.length scope.frames.length with hle | hle
    · congr 1
      omega
    · rw [List.getElem?_eq_none (by omega), List.getElem?_eq_none (by omega)]
  error_iff := by
    rw [snd_restore]
    split <;> simp <;> omega

end Scope

/-! ### Actions -/

namespace Scope

/-- What can be done to a scope. A snapshot that is put back can be any. -/
inductive Action where
  | declare (name : String) (value : Value)
  | assign (name : String) (value : Value)
  | evaluate (limit : ℕ) (e : Expr)
  | eval (limits : Session.Limits) (source : String)
  | restore (saved : Snapshot)

namespace Action

/-- The scope after an action. An action that fails has been performed as far as it went. -/
def perform : Action → Scope → Scope
  | declare name value, scope => scope.declare name value
  | assign name value, scope => (scope.assign name value).2
  | evaluate limit e, scope => (Expr.evaluate limit e scope).2
  | eval limits source, scope => (Session.eval limits source scope).2
  | restore saved, scope => (scope.restore saved).1

/-- **Frames.** No action opens or closes a frame. -/
theorem length_frames_perform (action : Action) (scope : Scope) :
    (action.perform scope).frames.length = scope.frames.length := by
  cases action with
  | declare name value => exact (Write.declare scope name value).length_frames
  | assign name value =>
    rcases write_assign scope name value with heq | hwrite
    · exact congrArg (·.frames.length) heq.symm
    · exact hwrite.length_frames
  | evaluate limit e => exact (Expr.writes_evaluate limit e scope).length_frames
  | eval limits source => exact (Session.writes_eval limits source scope).length_frames
  | restore saved => exact length_frames_restore scope saved

end Action

end Scope

/-! ### Stores -/

/-- Where a frame stands. -/
inductive Address where
  /-- The frame that a scope has for itself. -/
  | scope (i : ℕ)
  /-- One of the frames of a snapshot. -/
  | copy (n k : ℕ)
deriving DecidableEq

/-- The frame at every address. -/
abbrev Store := Address → Frame

namespace Store

variable {store : Store} {addresses : List Address} {frames : List Frame}

/-- Writes frames to addresses. -/
def write (store : Store) (addresses : List Address) (frames : List Frame) : Store := fun a =>
  ((addresses.zip frames).lookup a).getD (store a)

/-- What was written is read again. -/
private theorem map_write (haddresses : addresses.Nodup) (h : frames.length = addresses.length) :
    addresses.map (store.write addresses frames) = frames := by
  induction addresses generalizing frames with
  | nil => simpa using h
  | cons a addresses ih =>
    obtain ⟨first, rest, rfl⟩ := List.exists_cons_of_length_eq_add_one h
    obtain ⟨ha, haddresses⟩ := List.nodup_cons.mp haddresses
    have hrest := ih haddresses (Nat.succ.inj h)
    rw [List.map_cons]
    congr 1
    · simp [write]
    · refine Eq.trans (List.map_congr_left fun b hb => ?_) hrest
      have hne : (b == a) = false := by
        rw [beq_eq_false_iff_ne]
        rintro rfl
        exact ha hb
      simp [write, List.lookup_cons, hne]

/-- Nothing else is written. -/
private theorem write_of_notMem {a : Address} (h : a ∉ addresses) :
    store.write addresses frames a = store a := by
  have hlookup : (addresses.zip frames).lookup a = none := by
    rw [List.lookup_eq_none_iff]
    rintro ⟨b, frame⟩ hmem
    rw [bne_iff_ne]
    rintro rfl
    exact h (List.of_mem_zip hmem).1
  rw [write, hlookup, Option.getD_none]

end Store

/-! ### Scopes that share frames -/

/-- Scopes, numbered in the order in which they were made, the snapshots that were taken, and the
frames of both. -/
structure Nest where
  /-- How many scopes there are. -/
  size : ℕ
  /-- The scope that a scope is nested in. -/
  outer : ℕ → Option ℕ
  /-- A scope is made inside one that is there. -/
  outer_lt : ∀ {i j}, outer i = some j → j < i
  /-- The snapshots in the order in which they were taken: where their frames stand. -/
  saved : List (List Address)
  /-- What all frames hold. -/
  frame : Store

namespace Nest

variable {nest before after : Nest} {i j : ℕ}

/-- The scopes around a scope, from the inside out. -/
def around (nest : Nest) (i : ℕ) : List ℕ :=
  match h : nest.outer i with
  | none => []
  | some j =>
    have := nest.outer_lt h
    j :: nest.around j
termination_by i

/-- The scope itself and those around it. -/
def path (nest : Nest) (i : ℕ) : List ℕ := i :: nest.around i

/-- Where the frames of the path stand. -/
def addresses (nest : Nest) (i : ℕ) : List Address := (nest.path i).map .scope

/-- The frames of the path, as a scope. -/
def scope (nest : Nest) (i : ℕ) : Scope :=
  ⟨nest.frame (.scope i), (nest.around i).map fun j => nest.frame (.scope j)⟩

private theorem frames_scope (nest : Nest) (i : ℕ) :
    (nest.scope i).frames = (nest.addresses i).map nest.frame := by
  rw [addresses, List.map_map]
  rfl

/-- The frames of a snapshot as they are now. -/
def load (nest : Nest) (n : ℕ) : Snapshot := (nest.saved[n]?.getD []).map nest.frame

private theorem around_of_none (h : nest.outer i = none) : nest.around i = [] := by
  rw [around]
  split
  · rfl
  next heq => simp [h] at heq

private theorem around_of_some (h : nest.outer i = some j) : nest.around i = nest.path j := by
  rw [around]
  split
  next heq => simp [h] at heq
  next k heq =>
    obtain rfl : j = k := Option.some.inj (h.symm.trans heq)
    rfl

/-- Links lead to scopes that were made before. -/
private theorem lt_of_mem_around (h : j ∈ nest.around i) : j < i := by
  induction i using Nat.strongRecOn with
  | ind i ih =>
    cases houter : nest.outer i with
    | none => simp [around_of_none houter] at h
    | some k =>
      have hk := nest.outer_lt houter
      rw [around_of_some houter, path, List.mem_cons] at h
      rcases h with rfl | h
      · exact hk
      · exact (ih k hk h).trans hk

private theorem le_of_mem_path (h : j ∈ nest.path i) : j ≤ i := by
  rcases List.mem_cons.mp h with rfl | h
  · exact Nat.le_refl j
  · exact (lt_of_mem_around h).le

/-- A path does not come back to where it was. -/
theorem nodup_path (nest : Nest) (i : ℕ) : (nest.path i).Nodup := by
  induction i using Nat.strongRecOn with
  | ind i ih =>
    refine List.nodup_cons.mpr ⟨fun h => (lt_of_mem_around h).false, ?_⟩
    cases houter : nest.outer i with
    | none => simp [around_of_none houter]
    | some j =>
      rw [around_of_some houter]
      exact ih j (nest.outer_lt houter)

private theorem nodup_addresses (nest : Nest) (i : ℕ) : (nest.addresses i).Nodup :=
  (nest.nodup_path i).map fun _ _ h => Address.scope.inj h

/-- The path of a scope goes on as the path of any scope on it does. -/
private theorem path_suffix (h : j ∈ nest.path i) : nest.path j <:+ nest.path i := by
  induction i using Nat.strongRecOn with
  | ind i ih =>
    rcases List.mem_cons.mp h with rfl | h
    · exact List.suffix_refl _
    cases houter : nest.outer i with
    | none => simp [around_of_none houter] at h
    | some k =>
      rw [around_of_some houter] at h
      rw [path.eq_1 nest i, around_of_some houter]
      exact (ih k (nest.outer_lt houter) h).trans (List.suffix_cons _ _)

/-- Scopes that are linked in the same way have the same path. -/
private theorem path_congr (h : ∀ j ≤ i, after.outer j = before.outer j) :
    after.path i = before.path i := by
  induction i using Nat.strongRecOn with
  | ind i ih =>
    rw [path, path]
    cases houter : before.outer i with
    | none => rw [around_of_none houter, around_of_none ((h i le_rfl).trans houter)]
    | some j =>
      have hj := before.outer_lt houter
      rw [around_of_some houter, around_of_some ((h i le_rfl).trans houter),
        ih j hj fun k hk => h k (hk.trans hj.le)]

/-! ### Steps -/

/-- Writes the frames of a scope back along its path. -/
def put (nest : Nest) (i : ℕ) (scope : Scope) : Nest :=
  { nest with frame := nest.frame.write (nest.addresses i) scope.frames }

/-- Does something to a scope. -/
def act (nest : Nest) (i : ℕ) (action : Scope.Action) : Nest :=
  nest.put i (action.perform (nest.scope i))

/-- Makes a scope nested in another, with nothing in it. -/
def child (nest : Nest) (i : ℕ) (hi : i < nest.size) : Nest where
  size := nest.size + 1
  outer := Function.update nest.outer nest.size (some i)
  outer_lt {j k} h := by
    by_cases hj : j = nest.size
    · obtain rfl : i = k := by simpa [hj] using h
      rwa [hj]
    · rw [Function.update_of_ne hj] at h
      exact nest.outer_lt h
  saved := nest.saved
  frame := nest.frame.write [.scope nest.size] [[]]

/-- New places for as many frames as a scope has. -/
def copies (nest : Nest) (i : ℕ) : List Address :=
  (List.range (nest.path i).length).map (.copy nest.saved.length)

/-- Takes a snapshot of a scope: its frames are copied. -/
def snapshot (nest : Nest) (i : ℕ) : Nest :=
  { nest with
    saved := nest.saved ++ [nest.copies i]
    frame := nest.frame.write (nest.copies i) (nest.scope i).snapshot }

/-- What can happen to scopes: something is done to one of them, one is made inside another, a
snapshot is taken. A snapshot that is put back can be any, `nest.load n` among them. -/
inductive Step : Nest → Nest → Prop where
  | act {nest : Nest} {i : ℕ} (hi : i < nest.size) (action : Scope.Action) :
      Step nest (nest.act i action)
  | child {nest : Nest} {i : ℕ} (hi : i < nest.size) : Step nest (nest.child i hi)
  | snapshot {nest : Nest} {i : ℕ} (hi : i < nest.size) : Step nest (nest.snapshot i)

/-- Any number of steps, one after the other. -/
def Runs : Nest → Nest → Prop := Relation.ReflTransGen Step

/-! ### What steps keep -/

/-- The scopes that were there are linked as before, and the snapshots hold what they held. -/
structure Keeps (before after : Nest) : Prop where
  size_le : before.size ≤ after.size
  path_eq : ∀ i < before.size, after.path i = before.path i
  saved_prefix : before.saved <+: after.saved
  copy_eq : ∀ n < before.saved.length, ∀ k, after.frame (.copy n k) = before.frame (.copy n k)

theorem Keeps.refl (nest : Nest) : Keeps nest nest :=
  ⟨Nat.le_refl _, fun _ _ => rfl, List.prefix_refl _, fun _ _ _ => rfl⟩

theorem Keeps.trans {mid : Nest} (h : Keeps before mid) (h' : Keeps mid after) :
    Keeps before after where
  size_le := h.size_le.trans h'.size_le
  path_eq i hi := (h'.path_eq i (hi.trans_le h.size_le)).trans (h.path_eq i hi)
  saved_prefix := h.saved_prefix.trans h'.saved_prefix
  copy_eq n hn k :=
    (h'.copy_eq n (hn.trans_le h.saved_prefix.length_le) k).trans (h.copy_eq n hn k)

private theorem path_put (nest : Nest) (i : ℕ) (scope : Scope) (j : ℕ) :
    (nest.put i scope).path j = nest.path j := path_congr fun _ _ => rfl

/-- No copy stands where a scope has its frame. -/
private theorem copy_notMem_addresses (nest : Nest) (i n k : ℕ) : .copy n k ∉ nest.addresses i := by
  simp [addresses]

/-- The copies of a snapshot stand where there was none. -/
theorem mem_copies_iff {n k : ℕ} :
    .copy n k ∈ nest.copies i ↔ n = nest.saved.length ∧ k < (nest.path i).length := by
  simp [copies, and_comm, eq_comm]

theorem nodup_copies (nest : Nest) (i : ℕ) : (nest.copies i).Nodup :=
  List.nodup_range.map fun _ _ h => (Address.copy.inj h).2

/-- **Steps.** -/
theorem Step.keeps (h : Step before after) : Keeps before after := by
  cases h with
  | act hi action =>
    refine ⟨Nat.le_refl _, fun i _ => path_put .., List.prefix_refl _, fun n _ k => ?_⟩
    exact Store.write_of_notMem (before.copy_notMem_addresses _ n k)
  | child hi =>
    refine ⟨Nat.le_succ _, fun i hi' => path_congr fun j hj => ?_, List.prefix_refl _,
      fun n _ k => ?_⟩
    · exact Function.update_of_ne (hj.trans_lt hi').ne _ _
    · have hkept : before.frame.write [.scope before.size] [[]] (.copy n k) =
          before.frame (.copy n k) := Store.write_of_notMem (by simp)
      exact hkept
  | snapshot hi =>
    refine ⟨Nat.le_refl _, fun i _ => path_congr fun _ _ => rfl, List.prefix_append _ _,
      fun n hn k => ?_⟩
    exact Store.write_of_notMem fun hmem => hn.ne (mem_copies_iff.mp hmem).1

theorem Runs.keeps (h : Runs before after) : Keeps before after := by
  induction h with
  | refl => exact .refl before
  | tail _ hstep ih => exact ih.trans hstep.keeps

/-! ### Snapshots in the store -/

/-- A snapshot just taken holds the frames of its scope. -/
private theorem map_frame_copies (nest : Nest) (i : ℕ) :
    (nest.copies i).map (nest.snapshot i).frame = (nest.scope i).snapshot := by
  refine Store.map_write (nest.nodup_copies i) ?_
  rw [Scope.snapshot, frames_scope, addresses, copies]
  simp

/-- It holds them whatever happens after. -/
theorem Keeps.load_eq (h : Keeps (before.snapshot i) after) :
    after.load before.saved.length = (before.scope i).snapshot := by
  have hsaved : after.saved[before.saved.length]? = some (before.copies i) := by
    obtain ⟨later, hlater⟩ := h.saved_prefix
    rw [← hlater]
    simp [snapshot]
  rw [load, hsaved, Option.getD_some, ← map_frame_copies]
  refine List.map_congr_left fun a ha => ?_
  obtain ⟨k, -, rfl⟩ := List.mem_map.mp ha
  have hlt : before.saved.length < (before.snapshot i).saved.length := by
    rw [snapshot, List.length_append]
    exact Nat.lt_succ_self _
  exact h.copy_eq _ hlt k

/-! ### What an action does -/

/-- The scope that is written back is there afterwards. -/
theorem scope_put {scope : Scope} (h : scope.frames.length = (nest.path i).length) :
    (nest.put i scope).scope i = scope := by
  have haddresses : (nest.put i scope).addresses i = nest.addresses i :=
    congrArg (List.map Address.scope) (path_put ..)
  have hframes : ((nest.put i scope).scope i).frames = scope.frames := by
    rw [frames_scope, haddresses]
    exact Store.map_write (nest.nodup_addresses i) (by rw [addresses, List.length_map, h])
  exact Scope.eq_of_frames_eq hframes

/-- An action does to the scope what it does to a scope by itself. -/
theorem scope_act (nest : Nest) (i : ℕ) (action : Scope.Action) :
    (nest.act i action).scope i = action.perform (nest.scope i) := by
  refine scope_put ?_
  rw [action.length_frames_perform, frames_scope, addresses, List.length_map, List.length_map]

/-- Scopes with the same path and the same frames agree on every scope of the path. -/
theorem scope_eq_of_mem_path (hpath : ∀ k ∈ before.path i, after.path k = before.path k)
    (hscope : after.scope i = before.scope i) (h : j ∈ before.path i) :
    after.scope j = before.scope j := by
  have hframes : (after.path i).map (fun k => after.frame (.scope k)) =
      (before.path i).map fun k => before.frame (.scope k) := congrArg Scope.frames hscope
  rw [hpath i (List.mem_cons_self ..)] at hframes
  have hframe := List.map_inj_left.mp hframes
  have haround : after.around j = before.around j := (List.cons.inj (hpath j h)).2
  rw [scope, scope, hframe j h, haround]
  congr 1
  exact List.map_congr_left fun k hk =>
    hframe k ((path_suffix h).subset (List.mem_cons_of_mem j hk))

/-! ### Recovery -/

/-- What has become of a snapshot of scope `i` of `before` when the scopes are `after`. -/
structure Recovers (before : Nest) (i : ℕ) (after : Nest) : Prop where
  /-- The snapshot holds the frames that the scope had when it was taken. -/
  load_eq : after.load before.saved.length = (before.scope i).snapshot
  /-- It can be put back, -/
  outcome : ((after.scope i).restore (after.load before.saved.length)).2 = .ok ()
  /-- and then the scope and all scopes around it are as they were, -/
  scope_eq : ∀ j ∈ before.path i,
    (after.act i (.restore (after.load before.saved.length))).scope j = before.scope j
  /-- and no other frame has been touched, of a scope or of a snapshot. -/
  frame_eq : ∀ a, a ∉ before.addresses i →
    (after.act i (.restore (after.load before.saved.length))).frame a = after.frame a

private theorem Keeps.recovers (hi : i < before.size) (h : Keeps (before.snapshot i) after) :
    Recovers before i after := by
  have hpath (j : ℕ) (hj : j ∈ before.path i) : after.path j = before.path j :=
    (h.path_eq j (Nat.lt_of_le_of_lt (le_of_mem_path hj) hi)).trans (path_congr fun _ _ => rfl)
  have haddresses : after.addresses i = before.addresses i :=
    congrArg (List.map Address.scope) (hpath i (List.mem_cons_self ..))
  have hlength : (after.scope i).frames.length = (before.scope i).frames.length := by
    rw [frames_scope, frames_scope, haddresses, List.length_map, List.length_map]
  have hrestore := Scope.restore_snapshot hlength
  refine ⟨h.load_eq, by rw [h.load_eq, hrestore], fun j hj => ?_, fun a ha => ?_⟩
  · refine scope_eq_of_mem_path (fun k hk => (path_put ..).trans (hpath k hk)) ?_ hj
    rw [scope_act, Scope.Action.perform, h.load_eq, hrestore]
  · exact Store.write_of_notMem (haddresses ▸ ha)

/-- **Snapshots bring scopes back.** Whatever is done to scopes after a snapshot of one of them has
been taken, to that scope, to those around it or to others nested in it, the frames of the snapshot
stay what they are; and putting it back succeeds, makes the scope and all scopes around it what they
were, to the order of the names, and touches no other scope and no snapshot. In general, putting a
snapshot back does to any scope what `Restores` says. -/
theorem snapshot_recovers :
    (∀ (before after : Nest) (i : ℕ), i < before.size → Runs (before.snapshot i) after →
      Recovers before i after) ∧
    ∀ (scope : Scope) (saved : Snapshot), Scope.Restores scope saved (scope.restore saved) :=
  ⟨fun _ _ _ hi h => h.keeps.recovers hi, Scope.restores⟩

/-- A nested scope, of which a snapshot is taken, has its frames cleared through a scope nested in
it, by a snapshot that is too long to be put back in full. -/
theorem snapshot_recovers_cleared :
    let root : Nest := ⟨1, fun _ => none, by simp, [], fun _ => [("x", .bool true)]⟩
    let before := (root.child 0 Nat.one_pos).act 1 (.declare "y" (.bool false))
    let assigned := (before.snapshot 1).act 0 (.assign "x" (.string ""))
    let after := (assigned.child 1 Nat.one_lt_two).act 2 (.restore [[], [], [], []])
    after.scope 1 = ⟨[], [[]]⟩ ∧
    after.load 0 = [[("y", .bool false)], [("x", .bool true)]] ∧
    (after.act 1 (.restore (after.load 0))).scope 1 =
      ⟨[("y", .bool false)], [[("x", .bool true)]]⟩ ∧
    (after.act 1 (.restore (after.load 0))).scope 0 = ⟨[("x", .bool true)], []⟩ := by
  intro root before assigned after
  have hruns : Runs (before.snapshot 1) after :=
    ((Relation.ReflTransGen.single (.act (by decide) _)).tail (.child Nat.one_lt_two)).tail
      (.act (by decide) _)
  have hscope : before.scope 1 = ⟨[("y", .bool false)], [[("x", .bool true)]]⟩ := by decide +kernel
  obtain ⟨hload, -, hrecovered, -⟩ := snapshot_recovers.1 before after 1 (by decide) hruns
  refine ⟨by decide +kernel, ?_, ?_, ?_⟩
  · rw [hscope] at hload
    exact hload
  · exact (hrecovered 1 (by decide +kernel)).trans hscope
  · exact (hrecovered 0 (by decide +kernel)).trans (by decide +kernel)

end Nest

end Reckon
