import Reckon.Proofs.Console.Groups
import Reckon.Proofs.Eval.Steps
import Reckon.Proofs.Scope.Assignment
import Reckon.Proofs.Session.Errors
import Reckon.Proofs.Token.Shape

/-!
# What a session binds

Whatever texts a session is given, the names it binds are names of variables, no frame binds one of
them twice, and no string it binds is longer than the greatest length that operators may build or
the longest text given, whichever is more (`Session.frames_sound`).

The bound on strings has two sources. An operator checks the length of what it builds
(`Value.fits_of_binaryOperator?`), but a literal is not checked: it is bounded by the text it stands
in. So the bound enters with the tokens (`Lexeme.Fits`) and is handed on to the trees made of them
(`Expr.Reads.fits`) and from these to the values and scopes that evaluation leads to
(`Expr.keeps_evaluate`). A run that fails puts back a scope of which all this held before.

A console tries the same lines again and again as parts of longer texts. That the lines alone bound
what it binds is due to the tokens of the lines it keeps, which no later line changes
(`Console.Sound`). Texts can also be evaluated past the console, between its lines; a session is
taken in this generality (`Console.takeAll`).
-/

namespace Reckon

/-! ### Values -/

/-- A string has at most `bound` characters. -/
def Value.Fits (bound : Nat) : Value → Prop
  | string s => s.length ≤ bound
  | number _ | bool _ | char _ => True

namespace Value

variable {v l r : Value}

theorem Fits.mono {bound bound' : Nat} (hle : bound ≤ bound') (h : v.Fits bound) :
    v.Fits bound' := by
  cases v with
  | string s => exact Nat.le_trans h hle
  | _ => trivial

private theorem fits_of_concat (h : concat l r = .ok v) : v.Fits textLimit := by
  unfold concat at h
  dsimp only at h
  split at h
  · simp at h
  next hle =>
    obtain rfl : string (l.display ++ r.display) = v := by simpa using h
    rw [Fits, String.length_append]
    omega

private theorem fits_of_repeatText {unit : String} {count : Binary64}
    (h : repeatText unit count = .ok v) : v.Fits textLimit := by
  cases count with
  | finite negative quanta representable =>
    unfold repeatText at h
    dsimp only at h
    split at h
    · simp at h
    split at h
    · obtain rfl : string "" = v := by simpa using h
      exact Nat.zero_le _
    split at h
    · simp at h
    next hle =>
      obtain rfl : string (copies unit (quanta / quantaPerOne)) = v := by simpa using h
      rw [Fits, length_copies]
      omega
  | _ => simp [repeatText] at h

private theorem fits_of_mul (h : mul l r = .ok v) : v.Fits textLimit := by
  rw [mul_eq] at h
  split at h
  · exact fits_of_repeatText h
  · exact fits_of_repeatText h
  · exact fits_of_repeatText h
  · exact fits_of_repeatText h
  · obtain rfl : arith .mul l r = v := by simpa using h
    trivial

private theorem fits_of_arithChecked {act : Binary64 → Binary64 → Except ArithmeticFault Binary64}
    (h : arithChecked act l r = .ok v) : v.Fits textLimit := by
  unfold arithChecked at h
  split at h
  · obtain rfl := Except.ok.inj h
    trivial
  · simp at h

/-- **Operators check what they build.** Between operands, only `+` and `*` build strings. -/
theorem fits_of_binaryOperator? {op : Symbol} {apply : Value → Value → Except EvalError Value}
    (hop : binaryOperator? op = some apply) (h : apply l r = .ok v) : v.Fits textLimit := by
  cases op <;> simp only [binaryOperator?, Option.some.injEq, reduceCtorEq] at hop <;> subst hop
  case plus =>
    rw [add_eq] at h
    split at h
    · exact fits_of_concat h
    · obtain rfl : arith .add l r = v := by simpa using h
      trivial
  case star => exact fits_of_mul h
  case ampersand | pipe | caret | shiftLeft | shiftRight =>
    unfold onWords at h
    split at h
    · simp at h
    · obtain rfl := Except.ok.inj h
      trivial
  case slash | percent | power => exact fits_of_arithChecked h
  -- The others give numbers or truth values.
  all_goals
    obtain rfl := Except.ok.inj h
    trivial

/-- In front of an operand, only `-` can build a string, as a product with minus one. -/
theorem fits_of_unaryOperator? {op : Symbol} {apply : Value → Except EvalError Value}
    (hop : unaryOperator? op = some apply) (h : apply v = .ok r) : r.Fits textLimit := by
  cases op <;> simp only [unaryOperator?, Option.some.injEq, reduceCtorEq] at hop <;> subst hop
  case plus =>
    unfold positive at h
    split at h
    · simp at h
    · obtain rfl := Except.ok.inj h
      trivial
  case minus => exact fits_of_mul h
  case bang =>
    unfold negation at h
    split at h
    · obtain rfl := Except.ok.inj h
      trivial
    · obtain rfl := Except.ok.inj h
      trivial
    · simp at h

end Value

namespace Expr

/-! ### Trees -/

/-- The name is spelled as one and is no word with a meaning of its own. -/
def IsVariable (name : String) : Prop := Text.isName name ∧ name ∉ reservedWords

/-- The values written out fit the bound, and the names bound are names of variables. -/
def Fits (bound : Nat) : Expr → Prop
  | literal v => v.Fits bound
  | access _ => True
  | unary _ operand => operand.Fits bound
  | binary _ left right => left.Fits bound ∧ right.Fits bound
  | declare name value | assign name value => IsVariable name ∧ value.Fits bound

variable {ends : List Token → List Token → Prop} {bound : Nat} {input rest : List Token} {e : Expr}

private theorem fits_of_mem_constants {word : String} {v : Value} (h : (word, v) ∈ constants) :
    v.Fits bound := by
  simp only [constants, List.mem_cons, Prod.mk.injEq, List.not_mem_nil, or_false] at h
  rcases h with ⟨-, rfl⟩ | ⟨-, rfl⟩ | ⟨-, rfl⟩ | ⟨-, rfl⟩ <;> trivial

/-- **Trees hold what tokens hold.** The strings in the tree of a phrase and the names it binds
stand among its tokens. -/
theorem Reads.fits {kind : Phrase} (h : Reads ends kind input e rest)
    (htokens : ∀ t ∈ input, t.lexeme.Fits bound) : e.Fits bound := by
  induction h with
  | relation _ ih | operand _ _ ih | unsigned _ ih | base _ ih => exact ih htokens
  | bang _ ih | sign _ _ ih | group _ ih => exact ih (List.forall_mem_cons.mp htokens).2
  | join _ _ hl _ ihl ihr | power hl _ ihl ihr =>
    -- The right operand is read from what the left one leaves.
    have hmid := (List.suffix_cons _ _).trans hl.outline.isSuffix
    exact ⟨ihl htokens, ihr fun t ht => htokens t (hmid.mem ht)⟩
  | number | char | access => trivial
  | string s pos rest => exact (List.forall_mem_cons.mp htokens).1
  | constant h => exact fits_of_mem_constants h
  | assign hname _ _ ih =>
    obtain ⟨hword, hmore⟩ := List.forall_mem_cons.mp htokens
    exact ⟨⟨hword, hname⟩, ih (List.forall_mem_cons.mp hmore).2⟩

theorem ReadsStatement.fits (h : ReadsStatement ends input e rest)
    (htokens : ∀ t ∈ input, t.lexeme.Fits bound) : e.Fits bound := by
  cases h with
  | declare hname h =>
    obtain ⟨-, hmore⟩ := List.forall_mem_cons.mp htokens
    obtain ⟨hword, hmore⟩ := List.forall_mem_cons.mp hmore
    exact ⟨⟨hword, hname⟩, h.fits (List.forall_mem_cons.mp hmore).2⟩
  | comparison h => exact h.fits htokens

theorem ReadsProgram.fits {es : List Expr} (h : ReadsProgram ends input es)
    (htokens : ∀ t ∈ input, t.lexeme.Fits bound) : ∀ e ∈ es, e.Fits bound := by
  induction h with
  | nil => simp
  | skip _ ih => exact ih (List.forall_mem_cons.mp htokens).2
  | last h => simpa using h.fits htokens
  | more h _ ih =>
    obtain ⟨t, more, rfl, -, hsuffix⟩ := h.exists_cons
    have hrest := (List.suffix_cons _ _).trans hsuffix
    refine List.forall_mem_cons.mpr ⟨h.fits htokens, ih fun t' ht' => ?_⟩
    exact htokens t' (List.mem_cons_of_mem t (hrest.mem ht'))

private theorem fits_of_parseProgramWithin {limit : Nat} {ts : List Token} {es : List Expr}
    (h : parseProgramWithin limit ts = .ok es) (htokens : ∀ t ∈ ts, t.lexeme.Fits bound) :
    ∀ e ∈ es, e.Fits bound :=
  (readsProgram_of_parseProgramWithin h).fits fun t ht =>
    htokens t ((List.takeWhile_sublist _).mem ht)

end Expr

/-! ### Scopes -/

/-- No name is bound twice, the names are names of variables, and the values fit the bound. -/
structure Frame.Sound (bound : Nat) (frame : Frame) : Prop where
  nodup : frame.names.Nodup
  isVariable : ∀ entry ∈ frame, Expr.IsVariable entry.1
  fits : ∀ entry ∈ frame, entry.2.Fits bound

/-- All frames of the scope are sound. -/
def Scope.Sound (bound : Nat) (scope : Scope) : Prop := ∀ frame ∈ scope.frames, frame.Sound bound

namespace Frame

variable {bound : Nat} {frame : Frame} {name : String} {value : Value}

private theorem mem_of_mem_bind {entry : String × Value} (h : entry ∈ frame.bind name value) :
    entry = (name, value) ∨ entry ∈ frame := by
  induction frame with
  | nil => simpa [bind] using h
  | cons head rest ih =>
    by_cases hname : head.1 = name
    · simp only [bind, hname, if_true, List.mem_cons] at h ⊢
      tauto
    · simp only [bind, hname, if_false, List.mem_cons] at h ⊢
      tauto

theorem mem_of_get? (h : frame.get? name = some value) : (name, value) ∈ frame := by
  obtain ⟨before, rest, rfl, -⟩ := List.lookup_eq_some_iff.mp h
  simp

/-- **One binding.** -/
theorem Sound.bind (h : frame.Sound bound) (hname : Expr.IsVariable name)
    (hvalue : value.Fits bound) : (frame.bind name value).Sound bound where
  nodup := by
    rw [names_bind]
    split
    · exact h.nodup
    next hnew =>
      rw [binds_iff_mem_names] at hnew
      refine List.nodup_append.mpr ⟨h.nodup, by simp, fun other hother => ?_⟩
      rw [List.forall_mem_singleton]
      rintro rfl
      exact hnew hother
  isVariable entry hentry := by
    rcases mem_of_mem_bind hentry with rfl | hentry
    · exact hname
    · exact h.isVariable entry hentry
  fits entry hentry := by
    rcases mem_of_mem_bind hentry with rfl | hentry
    · exact hvalue
    · exact h.fits entry hentry

end Frame

namespace Scope

variable {bound : Nat} {scope after : Scope} {name : String} {value : Value}

private theorem sound_empty (bound : Nat) : empty.Sound bound := by
  intro frame hframe
  obtain rfl : frame = [] := by simpa [frames, empty] using hframe
  exact ⟨List.nodup_nil, by simp, by simp⟩

theorem Sound.declare (h : scope.Sound bound) (hname : Expr.IsVariable name)
    (hvalue : value.Fits bound) : (scope.declare name value).Sound bound := by
  obtain ⟨hinner, houter⟩ := List.forall_mem_cons.mp h
  exact List.forall_mem_cons.mpr ⟨hinner.bind hname hvalue, houter⟩

theorem Sound.assign (h : scope.Sound bound) (hname : Expr.IsVariable name)
    (hvalue : value.Fits bound) (hassign : scope.assign? name value = some after) :
    after.Sound bound := by
  obtain ⟨nearer, frame, further, hframes, -, -, hafter⟩ := exists_of_assign? hassign
  rw [Sound, hframes, List.forall_mem_append, List.forall_mem_cons] at h
  obtain ⟨hnearer, hframe, hfurther⟩ := h
  rw [Sound, hafter, List.forall_mem_append, List.forall_mem_cons]
  exact ⟨hnearer, hframe.bind hname hvalue, hfurther⟩

private theorem Sound.fits_of_get? (h : scope.Sound bound) (hget : scope.get? name = some value) :
    value.Fits bound := by
  obtain ⟨frame, hframe, hfound⟩ := List.exists_of_findSome?_eq_some hget
  exact (h frame hframe).fits _ (Frame.mem_of_get? hfound)

end Scope

/-! ### Evaluation -/

/-- The scope that is left is sound, and the value, if there is one, is as it should be. -/
def Evaluated.Keeps {α : Type} (bound : Nat) (holds : α → Prop) (result : Evaluated α) : Prop :=
  result.2.Sound bound ∧ ∀ a, result.1 = .ok a → holds a

namespace Evaluated.Keeps

variable {α β : Type} {bound : Nat} {holds : α → Prop} {holds' : β → Prop} {result : Evaluated α}
  {next : α → Scope → Evaluated β} {scope : Scope}

theorem error (err : EvalError) (hscope : scope.Sound bound) :
    Keeps bound holds (.error err, scope) :=
  ⟨hscope, by simp⟩

theorem ok {a : α} (ha : holds a) (hscope : scope.Sound bound) :
    Keeps bound holds (.ok a, scope) :=
  ⟨hscope, by simpa using ha⟩

/-- **Going on.** -/
theorem andThen (h : result.Keeps bound holds)
    (hnext : ∀ a mid, holds a → mid.Sound bound → (next a mid).Keeps bound holds') :
    (result.andThen next).Keeps bound holds' := by
  obtain ⟨err | a, mid⟩ := result
  · exact .error err h.1
  · exact hnext a mid (h.2 a rfl) h.1

end Evaluated.Keeps

namespace Expr

variable {bound : Nat} {scope : Scope}

open Evaluated (Keeps)

/-- **Evaluation keeps scopes sound.** The bound has to leave room for what operators may build. -/
theorem keeps_evaluate (hbound : Value.textLimit ≤ bound) (limit : Nat) {e : Expr}
    (he : e.Fits bound) (hscope : scope.Sound bound) :
    (evaluate limit e scope).Keeps bound (Value.Fits bound) := by
  -- An operator may build a text that is longer than its operands, but none beyond its own limit.
  induction limit generalizing e scope with
  | zero => exact .error _ hscope
  | succ limit ih =>
    cases e with
    | literal v => exact .ok he hscope
    | access name =>
      rw [evaluate_access, Scope.lookup]
      split
      next v hget => exact .ok (hscope.fits_of_get? hget) hscope
      · exact .error _ hscope
    | unary op operand =>
      have hoperand : operand.Fits bound := he
      cases hop : Value.unaryOperator? op with
      | none =>
        rw [evaluate_unary_of_none hop]
        exact .error _ hscope
      | some apply =>
        rw [evaluate_unary hop]
        refine (ih hoperand hscope).andThen fun v mid _ hmid => ?_
        exact ⟨hmid, fun r hr => (Value.fits_of_unaryOperator? hop hr).mono hbound⟩
    | binary op left right =>
      obtain ⟨hleft, hright⟩ := he
      cases hop : Value.binaryOperator? op with
      | none =>
        rw [evaluate_binary_of_none hop]
        exact .error _ hscope
      | some apply =>
        rw [evaluate_binary hop]
        refine (ih hleft hscope).andThen fun l mid _ hmid => ?_
        refine (ih hright hmid).andThen fun r after _ hafter => ?_
        exact ⟨hafter, fun v hv => (Value.fits_of_binaryOperator? hop hv).mono hbound⟩
    | declare name init =>
      obtain ⟨hname, hinit⟩ := he
      rw [evaluate_declare]
      exact (ih hinit hscope).andThen fun v mid hv hmid => .ok hv (hmid.declare hname hv)
    | assign name value =>
      obtain ⟨hname, hvalue⟩ := he
      rw [evaluate_assign]
      refine (ih hvalue hscope).andThen fun v mid hv hmid => ?_
      rw [Scope.assign]
      split
      next after hassign => exact .ok hv (hmid.assign hname hv hassign)
      · exact .error _ hmid

/-- **Statements keep scopes sound.** -/
theorem sound_evaluateAll (hbound : Value.textLimit ≤ bound) (limit : Nat) (last : Option Value)
    {statements : List Expr} (hfits : ∀ e ∈ statements, e.Fits bound) (hscope : scope.Sound bound) :
    (evaluateAll limit last statements scope).2.Sound bound := by
  induction statements generalizing last scope with
  | nil => exact hscope
  | cons e rest ih =>
    obtain ⟨he, hrest⟩ := List.forall_mem_cons.mp hfits
    obtain ⟨hmid, -⟩ := keeps_evaluate hbound limit he hscope
    rw [evaluateAll_cons]
    rcases heval : evaluate limit e scope with ⟨err | v, mid⟩ <;> rw [heval] at hmid
    · exact hmid
    · exact ih (some v) hrest hmid

end Expr

namespace Session

variable {limits : Limits} {bound : Nat} {scope : Scope}

/-! ### Runs -/

private theorem sound_evalStatements (hbound : Value.textLimit ≤ bound) (limit : Nat)
    {statements : List Expr} (hfits : ∀ e ∈ statements, e.Fits bound) (hscope : scope.Sound bound) :
    (evalStatements limit statements scope).2.Sound bound := by
  have hreached := Expr.sound_evaluateAll hbound limit none hfits hscope
  rcases hrun : evalStatements limit statements scope with ⟨err | v, after⟩
  · rw [evalStatements_of_error hrun]
    exact hscope
  · rw [evalStatements_eq_ok_iff, ← Expr.evaluateAll_eq_ok_iff] at hrun
    rwa [hrun] at hreached

/-- **One run.** Whether it succeeds or fails, it leaves a sound scope, if the tokens of its text
fit the bound. -/
theorem sound_eval (hbound : Value.textLimit ≤ bound) {source : String}
    (hfits : ∀ tokens, Token.lex source = .ok tokens → ∀ t ∈ tokens, t.lexeme.Fits bound)
    (hscope : scope.Sound bound) : (eval limits source scope).2.Sound bound := by
  rw [eval_eq]
  rcases hlex : Token.lex source with err | tokens
  · exact hscope
  dsimp only
  rcases hparse : Expr.parseProgramWithin limits.reading tokens with err | statements
  · exact hscope
  dsimp only
  split
  · exact sound_evalStatements hbound limits.evaluating
      (Expr.fits_of_parseProgramWithin hparse (hfits tokens hlex)) hscope
  · exact hscope

/-- Only a text that has tokens can be incomplete, or end a session. -/
theorem exists_lex_of_kept {source : String} {err : Error}
    (h : (run limits source scope).result = .error err) (herr : err.isIncomplete ∨ err.isInternal) :
    ∃ tokens, Token.lex source = .ok tokens := by
  rcases hlex : Token.lex source with e | tokens
  · obtain rfl : .lex e = err := by simpa [run, hlex] using h
    have hinternal : e.isInternal = false := Token.isInternal_eq_false_of_lex hlex
    simp [Error.isIncomplete, Error.isInternal, hinternal] at herr
  · exact ⟨tokens, rfl⟩

end Session

namespace Console

open Session (Limits)

variable {limits : Limits} {bound : Nat} {console : Console} {line : String}

/-! ### Lines -/

/-- The scope is sound, and the lines that are kept have tokens, which fit the bound. -/
structure Sound (bound : Nat) (console : Console) : Prop where
  scope : console.scope.Sound bound
  pending : console.pending ≠ [] → ∃ tokens, Token.lex (groupText console.pending) = .ok tokens ∧
    ∀ t ∈ tokens, t.lexeme.Fits bound

/-- The tokens of the lines kept and one more fit the bound if that line does. -/
theorem Sound.fits_of_lex (h : console.Sound bound) (hline : line.length ≤ bound)
    (tokens : List Token) (hlex : Token.lex (groupText (console.pending ++ [line])) = .ok tokens) :
    ∀ t ∈ tokens, t.lexeme.Fits bound := by
  by_cases hkept : console.pending = []
  · rw [hkept, List.nil_append, groupText, String.intercalate_singleton] at hlex
    exact fun t ht => (Token.fits_of_lex hlex t ht).mono hline
  · obtain ⟨before, hbefore, hfits⟩ := h.pending hkept
    rw [groupText_concat hkept] at hlex
    exact Token.fits_of_lex_line hbefore hfits hline hlex

/-- **One line.** -/
theorem Sound.push (hbound : Value.textLimit ≤ bound) (h : console.Sound bound)
    (hline : line.length ≤ bound) : (console.push limits line).console.Sound bound := by
  have hfits := h.fits_of_lex hline
  have hscope : (Session.run limits (groupText (console.pending ++ [line]))
      console.scope).scope.Sound bound := Session.sound_eval hbound hfits h.scope
  obtain ⟨scope, kept⟩ := console
  rw [push_eq]
  dsimp only at hfits hscope ⊢
  split
  · exact ⟨h.scope, by simp⟩
  split
  · exact ⟨hscope, by simp⟩
  next err hresult =>
    -- Lines that are kept have tokens, or their text would have failed for good.
    have hkept (herr : err.isIncomplete ∨ err.isInternal) :
        ∃ tokens, Token.lex (groupText (kept ++ [line])) = .ok tokens ∧
          ∀ t ∈ tokens, t.lexeme.Fits bound := by
      obtain ⟨tokens, hlex⟩ := Session.exists_lex_of_kept hresult herr
      exact ⟨tokens, hlex, hfits tokens hlex⟩
    split
    next hwaits => exact ⟨hscope, fun _ => hkept (.inl (Bool.and_eq_true _ _ ▸ hwaits).1)⟩
    split
    next hinternal => exact ⟨hscope, fun _ => hkept (.inr hinternal)⟩
    · exact ⟨hscope, by simp⟩

/-! ### Sessions -/

/-- A text given to a session: evaluated as a whole, or pushed to its console as a line. -/
inductive Input where
  | source (text : String)
  | line (text : String)

def Input.text : Input → String
  | .source text | .line text => text

/-- The console after a text. Evaluating a text leaves the lines that are kept alone. -/
def take (limits : Limits) (console : Console) : Input → Console
  | .source text => ⟨(Session.eval limits text console.scope).2, console.pending⟩
  | .line text => (console.push limits text).console

/-- The console after texts have been given to the session one after the other. -/
def takeAll (limits : Limits) (console : Console) (inputs : List Input) : Console :=
  inputs.foldl (take limits) console

theorem takeAll_sources (console : Console) (sources : List String) :
    console.takeAll limits (sources.map .source) =
      ⟨Session.scopeAfter limits console.scope sources, console.pending⟩ := by
  induction sources generalizing console with
  | nil => rfl
  | cons source rest ih => exact ih (console.take limits (.source source))

private theorem takeAll_lines (console : Console) (lines : List String) :
    console.takeAll limits (lines.map .line) = console.after limits lines := by
  rw [takeAll, List.foldl_map]
  rfl

/-- **One text.** -/
theorem Sound.take (hbound : Value.textLimit ≤ bound) (h : console.Sound bound) {input : Input}
    (hinput : input.text.length ≤ bound) : (console.take limits input).Sound bound := by
  cases input with
  | source text =>
    refine ⟨Session.sound_eval hbound (fun tokens hlex t ht => ?_) h.scope, h.pending⟩
    exact (Token.fits_of_lex hlex t ht).mono hinput
  | line text => exact h.push hbound hinput

/-- **Texts one after the other.** -/
theorem Sound.takeAll (hbound : Value.textLimit ≤ bound) (h : console.Sound bound)
    {inputs : List Input} (hinputs : ∀ input ∈ inputs, input.text.length ≤ bound) :
    (console.takeAll limits inputs).Sound bound := by
  induction inputs generalizing console with
  | nil => exact h
  | cons input rest ih =>
    obtain ⟨hinput, hrest⟩ := List.forall_mem_cons.mp hinputs
    exact ih (h.take hbound hinput) hrest

theorem sound_fresh (bound : Nat) : fresh.Sound bound := ⟨Scope.sound_empty bound, by simp [fresh]⟩

end Console

/-- The length of the longest of some texts. -/
def Text.longest (texts : List String) : Nat := (texts.map String.length).max?.getD 0

theorem Text.length_le_longest {text : String} {texts : List String} (h : text ∈ texts) :
    text.length ≤ longest texts :=
  List.le_max?_getD_of_mem (List.mem_map_of_mem h)

/-- **What a session binds.** Start with nothing bound and evaluate any texts, push any lines, or do
both in turn, whether or not the texts fail, within any limits. Then every frame binds each of its
names once; the names are spelled as names and are none of `let`, `inf`, `NaN`, `true` and `false`;
and a string that is bound has at most `2 ^ 24` characters, or at most as many as the longest text
or line. -/
theorem Session.frames_sound (limits : Limits) :
    (∀ sources, ∀ frame ∈ (scopeAfter limits .empty sources).frames,
      frame.Sound (max (twoPow 24) (Text.longest sources))) ∧
    (∀ lines, ∀ frame ∈ (Console.fresh.after limits lines).scope.frames,
      frame.Sound (max (twoPow 24) (Text.longest lines))) ∧
    ∀ inputs, ∀ frame ∈ (Console.fresh.takeAll limits inputs).scope.frames,
      frame.Sound (max (twoPow 24) (Text.longest (inputs.map Console.Input.text))) := by
  have hinputs (inputs : List Console.Input) : (Console.fresh.takeAll limits inputs).scope.Sound
      (max (twoPow 24) (Text.longest (inputs.map Console.Input.text))) := by
    refine ((Console.sound_fresh _).takeAll (Nat.le_max_left _ _) fun input h => ?_).scope
    exact Nat.le_trans (Text.length_le_longest (List.mem_map_of_mem h)) (Nat.le_max_right _ _)
  refine ⟨fun sources => ?_, fun lines => ?_, hinputs⟩
  · have htexts : (sources.map Console.Input.source).map Console.Input.text = sources := by
      simp [Function.comp_def, Console.Input.text]
    have hsources := hinputs (sources.map .source)
    rwa [Console.takeAll_sources, htexts] at hsources
  · have htexts : (lines.map Console.Input.line).map Console.Input.text = lines := by
      simp [Function.comp_def, Console.Input.text]
    have hlines := hinputs (lines.map .line)
    rwa [Console.takeAll_lines, htexts] at hlines

end Reckon
