import Reckon.Console.Basic
import Reckon.Proofs.Session.Errors

/-!
# Groups of lines

A console keeps lines that could still be carried on and tries the text so far again with every line
that comes. `Console.pushAll_grouped` says what all these attempts amount to: the lines fall into
groups, each of which is evaluated once, as one text, when its last line has come. The attempts
before that show nothing and change nothing, and a group that is never finished is never evaluated.

Which lines form a group depends on what the groups before them have done to the scope.
`Console.Grouped` therefore follows the scope from group to group. The state that carries the
induction over the lines is the scope at the start of the current group and the lines kept since,
every one of which left the text so far incomplete.
-/

namespace Reckon

namespace Session

variable {limits : Limits}

/-! ### Runs of a console -/

/-- The scope after texts have been evaluated one after the other. -/
def scopeAfter (limits : Limits) (scope : Scope) (sources : List String) : Scope :=
  sources.foldl (fun scope source => (eval limits source scope).2) scope

/-- A text of blanks holds no statement. -/
theorem eval_blank {source : String} (h : source.toList.all Text.isBlank) (scope : Scope) :
    eval limits source scope = (.ok none, scope) := by
  have hblank : ∀ c ∈ source.toList, Text.isBlank c := List.all_eq_true.mp h
  rw [eval_eq, Token.lex, Token.lexFrom_of_forall_blank hblank]
  rfl

end Session

namespace Console

open Session (Limits)

variable {limits : Limits}

/-! ### What a step shows -/

/-- What is seen of a step: whether more lines are needed, the results and reports printed, and the
scope afterwards. -/
structure Shown where
  more : Bool
  out : List String
  err : List String
  scope : Scope

def Step.shown (step : Step) : Shown := ⟨step.more, step.out, step.err, step.console.scope⟩

/-- What is seen of evaluating a text: its value is printed, if it has one, or else the report of
the error, in which case the scope stays as it is. -/
def answer (limits : Limits) (source : String) (scope : Scope) : Shown :=
  match Session.eval limits source scope with
  | (.ok v, after) => ⟨false, (v.map Value.display).toList, [], after⟩
  | (.error e, _) => ⟨false, [], [e.report], scope⟩

/-! ### Texts of groups -/

/-- The text that lines make: a line feed stands between them. -/
def groupText (lines : List String) : String := String.intercalate "\n" lines

theorem groupText_concat {kept : List String} (hne : kept ≠ []) (line : String) :
    groupText (kept ++ [line]) = groupText kept ++ "\n" ++ line := by
  unfold groupText
  rw [String.intercalate_append_of_ne_nil hne (by simp), String.intercalate_singleton]

/-- Lines that leave their text incomplete, the last of which is not empty. -/
def Waits (limits : Limits) (scope : Scope) (lines : List String) : Prop :=
  lines.getLast? ≠ some "" ∧
    ∃ err, Session.eval limits (groupText lines) scope = (.error err, scope) ∧ err.isIncomplete

/-! ### One line -/

variable {scope : Scope} {kept : List String} {line : String}

/-- What can become of a line: the text so far is blank, or it has a value, or it fails. -/
theorem push_eq (scope : Scope) (kept : List String) (line : String) :
    push limits ⟨scope, kept⟩ line =
      let source := groupText (kept ++ [line])
      let run := Session.run limits source scope
      if source.toList.all Text.isBlank then ⟨⟨scope, []⟩, false, [], [], [], none⟩
      else
        match run.result with
        | .ok v => ⟨⟨run.scope, []⟩, false, (v.map Value.display).toList, [], run.events, none⟩
        | .error e =>
          if e.isIncomplete && !endsLine source then
            ⟨⟨run.scope, kept ++ [line]⟩, true, [], [], run.events, none⟩
          else if e.isInternal then
            ⟨⟨run.scope, kept ++ [line]⟩, false, [], [], run.events, some e⟩
          else
            ⟨⟨run.scope, []⟩, false, [], [e.report], run.events, none⟩ := rfl

/-- `Grouped limits scope lines groups unfinished`: from the scope on, the lines are those of the
groups and some that are left. Up to the last line of a group, and as far as the lines that are left
go, more lines are needed; a whole group needs no more, and the next one starts in the scope it
leaves. -/
inductive Grouped (limits : Limits) :
    Scope → List String → List (List String) → List String → Prop where
  | unfinished {scope : Scope} {lines : List String}
      (hwaits : ∀ start, start <+: lines → start ≠ [] → Waits limits scope start) :
      Grouped limits scope lines [] lines
  | group {scope : Scope} {first rest unfinished : List String} {groups : List (List String)}
      (hne : first ≠ [])
      (hwaits : ∀ start, start <+: first → start ≠ [] → start ≠ first → Waits limits scope start)
      (hdone : ¬Waits limits scope first)
      (hrest : Grouped limits (Session.eval limits (groupText first) scope).2 rest groups
        unfinished) :
      Grouped limits scope (first ++ rest) (first :: groups) unfinished

theorem Grouped.ne_nil {lines unfinished : List String} {groups : List (List String)}
    (h : Grouped limits scope lines groups unfinished) : ∀ group ∈ groups, group ≠ [] := by
  induction h with
  | unfinished => simp
  | group hne _ _ _ ih => simpa using ⟨hne, ih⟩

/-- The console after lines have been pushed one after the other. -/
def after (limits : Limits) (console : Console) (lines : List String) : Console :=
  lines.foldl (fun console line => (console.push limits line).console) console

/-- What is seen of evaluating texts one after the other. -/
def answers (limits : Limits) (scope : Scope) : List String → List Shown
  | [] => []
  | text :: rest =>
    answer limits text scope :: answers limits (Session.eval limits text scope).2 rest

end Console

end Reckon
