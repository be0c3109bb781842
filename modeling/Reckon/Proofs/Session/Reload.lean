import Reckon.Proofs.Session.Batch
import Reckon.Proofs.Session.Bindings
import Reckon.Proofs.Token.Spelling

/-!
# Dumping and reloading a session

What a session has bound can be written as a program that declares it again, name by name, with the
literal of each value. Run with nothing bound, that program binds the same names in the same order
to the same values (`Session.eval_dump_scopeAfter`).

The program is read statement by statement (`Session.eval_append_semicolon_eq_ok_iff`). A single
declaration is read as one because the names of a session are names of variables
(`Frame.Sound.isVariable`) and literals read back (`Value.lexesTo_literal`); the order is kept
because no name is bound twice (`Frame.Sound.nodup`), so that each declaration adds its name behind
the others.
-/

namespace Reckon

/-- Source text that declares a name with a value. -/
def Frame.declaration (name : String) (v : Value) : String :=
  "let " ++ name ++ " = " ++ v.literal

/-- Source text that declares the names of a frame in order. -/
def Frame.dump (frame : Frame) : String :=
  String.intercalate ";" (frame.map fun (name, v) => declaration name v)

/-- There is room for a declaration of any value. -/
structure Session.Limits.Ample (limits : Limits) : Prop where
  reading : 11 ≤ limits.reading
  evaluating : 3 ≤ limits.evaluating
  showing : ∀ e : Expr, e.depth ≤ 3 → limits.shows e

/-- There is when nothing else is said, whether or not anyone watches. -/
theorem Session.Limits.Ample.usual (watched : Bool) : (Limits.usual watched).Ample where
  reading := by cases watched <;> decide
  evaluating := by cases watched <;> decide
  showing e he := by
    cases watched with
    | false => rfl
    | true =>
      have hdepth : e.depth ≤ showingLimit := Nat.le_trans he (by decide)
      exact Expr.isSome_debug?_iff.mpr hdepth

/-! ### One declaration -/

namespace Token

theorem exists_lex_of_reading {source : String} {lexemes : List Lexeme}
    (h : reading source = .ok (lexemes ++ [.endOfInput])) :
    ∃ body stop, lex source = .ok (body ++ [⟨.endOfInput, stop⟩]) ∧ body.map lexeme = lexemes := by
  rcases hlex : lex source with err | tokens
  · simp [reading, hlex, Except.map, Except.mapError] at h
  · have htokens : tokens.map lexeme = lexemes ++ [.endOfInput] := by
      simpa [reading, hlex, Except.map, Except.mapError] using h
    obtain ⟨body, hbody, -⟩ := exists_body_of_lex hlex
    subst hbody
    refine ⟨body, _, rfl, ?_⟩
    rw [List.map_append] at htokens
    exact List.append_cancel_right htokens

/-- A declaration lexes to what the declaration of the source expression is written as. -/
private theorem reading_declaration {name : String} (hname : Text.isName name) (v : Value) :
    reading (Frame.declaration name v) =
      .ok ((Expr.declare name v.source).write ++ [.endOfInput]) := by
  have hparts : Frame.declaration name v =
      "let" ++ " " ++ (name ++ " " ++ ("=" ++ " " ++ v.literal)) := by
    apply String.toList_injective
    simp [Frame.declaration, String.toList_append]
  have hgap : IsGap " " := by decide
  have hlet : lex "let" = .ok ([⟨.identifier "let", 0⟩] ++ [⟨.endOfInput, "let".length⟩]) :=
    lex_name (by decide)
  have hname : lex name = .ok ([⟨.identifier name, 0⟩] ++ [⟨.endOfInput, name.length⟩]) :=
    lex_name hname
  have hassign : lex "=" = .ok ([⟨.symbol .assign, 0⟩] ++ [⟨.endOfInput, "=".length⟩]) :=
    lex_symbol .assign
  have hliteral : reading v.literal = .ok (v.source.write ++ [.endOfInput]) := by
    obtain ⟨body, stop, hlex, hbody⟩ := v.lexesTo_literal
    rw [reading, lex, hlex]
    simp [Except.map, Except.mapError, hbody]
  rw [hparts, reading_gap hlet hgap, reading_gap hname hgap, reading_gap hassign hgap, hliteral]
  rfl

end Token

namespace Expr

/-- Reading inverts writing, for a program of one statement. -/
theorem parseProgramWithin_write {e : Expr} {body : List Token} (h : e.isStatement)
    (hbody : body.map Token.lexeme = e.write) {limit : Nat} (hlimit : e.nestingAt 0 ≤ limit)
    (stop : Nat) : parseProgramWithin limit (body ++ [⟨.endOfInput, stop⟩]) = .ok [e] := by
  have hread : parseStatementAt stop body.length limit body = .ok (e, []) := by
    rw [parseStatementAt_write h hbody (Nat.le_refl _), within_of_le hlimit]
  obtain ⟨t, rest, rfl, ht, -⟩ :=
    (readsStatement_of_parseStatementAt (Nat.le_refl _) hread).exists_cons
  rw [parseProgramWithin_append_end (isEnd_eq_false_of_write hbody)]
  exact readStatements_of_more_ok ht hread rfl readStatements_nil

private theorem isStatement_declare_source {name : String} (hname : name ∉ reservedWords)
    (v : Value) :
    (declare name v.source).isStatement ∧ (declare name v.source).nestingAt 0 ≤ 11 ∧
      (declare name v.source).depth ≤ 3 := by
  have hreserved : isReserved name = false := isReserved_eq_false_iff_notMem.mpr hname
  rcases v with (_ | ⟨_ | _⟩ | ⟨_ | _, n, h⟩) | b | s | c
  all_goals exact ⟨by simp [isStatement, hreserved, isPlain, Value.source],
    Nat.le_of_ble_eq_true rfl, Nat.le_of_ble_eq_true rfl⟩

end Expr

namespace Session

variable {limits : Limits}

/-- **One declaration.** It binds the name to the value. -/
theorem eval_declaration (hample : limits.Ample) {name : String} (hname : Expr.IsVariable name)
    (v : Value) (scope : Scope) :
    eval limits (Frame.declaration name v) scope = (.ok (some v), scope.declare name v) := by
  obtain ⟨body, stop, hlex, hbody⟩ :=
    Token.exists_lex_of_reading (Token.reading_declaration hname.1 v)
  obtain ⟨hstatement, hnesting, hdepth⟩ := Expr.isStatement_declare_source hname.2 v
  have hparse : Expr.parseProgramWithin limits.reading (body ++ [⟨.endOfInput, stop⟩]) =
      .ok [.declare name v.source] :=
    Expr.parseProgramWithin_write hstatement hbody (hnesting.trans hample.reading) stop
  have hshown : ∀ e ∈ [Expr.declare name v.source], limits.shows e := by
    simpa using hample.showing _ hdepth
  have hevaluate : (Expr.declare name v.source).evaluate limits.evaluating scope =
      (.ok v, scope.declare name v) := by
    obtain ⟨k, hk⟩ := Nat.exists_eq_add_of_le' hample.evaluating
    rw [hk, Expr.evaluate_declare, v.evaluate_source_add_two k]
    rfl
  exact eval_eq_ok_iff.mpr ⟨_, _, hlex, hparse, hshown, .snoc (.nil scope) hevaluate⟩

end Session

/-! ### Declarations in order -/

/-- A new name comes behind the others. -/
theorem Frame.bind_of_notMem {frame : Frame} {name : String} (h : name ∉ frame.names)
    (v : Value) : frame.bind name v = frame ++ [(name, v)] := by
  induction frame with
  | nil => rfl
  | cons head rest ih =>
    obtain ⟨hne, hrest⟩ : name ≠ head.1 ∧ name ∉ Frame.names rest := by
      simpa [Frame.names] using h
    rw [Frame.bind, if_neg (Ne.symm hne), ih hrest]
    rfl

namespace Session

variable {limits : Limits}

/-- **Declarations in order.** In a scope that binds none of them, the names of a frame are bound
again as they are in the frame. -/
theorem eval_dump (hample : limits.Ample) {before frame : Frame} (outer : List Frame)
    (hvars : ∀ entry ∈ frame, Expr.IsVariable entry.1)
    (hnodup : (Frame.names (before ++ frame)).Nodup) :
    eval limits frame.dump ⟨before, outer⟩ =
      (.ok (frame.getLast?.map Prod.snd), ⟨before ++ frame, outer⟩) := by
  -- One declaration after the other: the entry that is declared goes over to `before`.
  induction frame generalizing before with
  | nil =>
    rw [List.append_nil]
    exact eval_blank rfl _
  | cons entry rest ih =>
    obtain ⟨name, v⟩ := entry
    obtain ⟨hname, hrest⟩ := List.forall_mem_cons.mp hvars
    have hsplit : before ++ (name, v) :: rest = (before ++ [(name, v)]) ++ rest := by simp
    have hnew : name ∉ Frame.names before := by
      rw [Frame.names, List.map_append, List.nodup_append] at hnodup
      exact fun hmem => hnodup.2.2 name hmem name (List.mem_cons_self ..) rfl
    have hfirst : eval limits (Frame.declaration name v) ⟨before, outer⟩ =
        (.ok (some v), ⟨before ++ [(name, v)], outer⟩) := by
      rw [eval_declaration hample hname, Scope.declare, Frame.bind_of_notMem hnew]
    rw [hsplit] at hnodup ⊢
    cases rest with
    | nil =>
      rw [List.append_nil]
      exact hfirst
    | cons next more =>
      have hmore := ih hrest hnodup
      obtain ⟨tokens, -, hlex, -⟩ := eval_eq_ok_iff.mp hfirst
      have hjoin : Frame.dump ((name, v) :: next :: more) =
          Frame.declaration name v ++ ";" ++ Frame.dump (next :: more) :=
        String.intercalate_cons_cons
      rw [hjoin]
      refine (eval_append_semicolon_eq_ok_iff hlex).mpr ⟨some v, _, _, hfirst, hmore, ?_⟩
      rw [List.getLast?_cons_cons, List.getLast?_eq_some_getLast (List.cons_ne_nil next more)]
      rfl

/-! ### Sessions -/

theorem writes_eval (limits : Limits) (source : String) (scope : Scope) :
    Scope.Writes scope (eval limits source scope).2 := by
  rcases heval : eval limits source scope with ⟨err | v, after⟩
  · rw [eval_of_error heval]
    exact Scope.Writes.refl scope
  · obtain ⟨tokens, statements, -, -, -, horder⟩ := eval_eq_ok_iff.mp heval
    have hwrites := Expr.writes_evaluateAll limits.evaluating none statements scope
    rwa [Expr.evaluateAll_eq_ok_iff.mpr horder] at hwrites

/-- A session has one frame. -/
theorem outer_scopeAfter (limits : Limits) (sources : List String) :
    (scopeAfter limits .empty sources).outer = [] := by
  have hwrites (scope : Scope) : Scope.Writes scope (scopeAfter limits scope sources) := by
    induction sources generalizing scope with
    | nil => exact Scope.Writes.refl scope
    | cons source rest ih => exact (writes_eval limits source scope).trans (ih _)
  have hlength := (hwrites .empty).length_frames
  simpa [Scope.frames, Scope.empty] using hlength

/-- The frame of a session is sound for some bound on its strings. -/
private theorem exists_sound_scopeAfter (limits : Limits) (sources : List String) :
    ∃ bound, (scopeAfter limits .empty sources).inner.Sound bound := by
  let bound := max Value.textLimit (Text.longest sources)
  have hsources : ∀ input ∈ sources.map Console.Input.source, input.text.length ≤ bound := by
    intro input hinput
    obtain ⟨source, hsource, rfl⟩ := List.mem_map.mp hinput
    exact Nat.le_trans (Text.length_le_longest hsource) (Nat.le_max_right _ _)
  have hsound : (Console.fresh.takeAll limits (sources.map .source)).Sound bound :=
    (Console.sound_fresh bound).takeAll (Nat.le_max_left _ _) hsources
  rw [Console.takeAll_sources] at hsound
  exact ⟨bound, hsound.scope _ (List.mem_cons_self ..)⟩

/-- **Dumping and reloading.** Evaluate any texts, starting with nothing bound and within any
limits, and write what is bound then as declarations. Run with nothing bound, these succeed, with
the value of the last of them, and bind the same names in the same order to the same values. All
that takes is room for a declaration at a time. -/
theorem eval_dump_scopeAfter (limits limits' : Limits) (hample : limits'.Ample)
    (sources : List String) :
    eval limits' (scopeAfter limits .empty sources).inner.dump .empty =
      (.ok ((scopeAfter limits .empty sources).inner.getLast?.map Prod.snd),
        scopeAfter limits .empty sources) := by
  obtain ⟨bound, hsound⟩ := exists_sound_scopeAfter limits sources
  have hscope : (⟨(scopeAfter limits .empty sources).inner, []⟩ : Scope) =
      scopeAfter limits .empty sources := by
    rw [← outer_scopeAfter limits sources]
  have hreload : eval limits' (scopeAfter limits .empty sources).inner.dump ⟨[], []⟩ = _ :=
    eval_dump hample [] hsound.isVariable hsound.nodup
  rwa [List.nil_append, hscope] at hreload

/-- At a session of four texts, one of which fails: it binds a negative zero, a string with a quote
and a line feed in it, a truth value and a character. -/
theorem eval_dump_scopeAfter_bindings :
    let sources := ["let x = 1; let s = \"a\\\"\"", "x = -0; s = s + \"\\n\"", "let t = u",
      "let b = x == 0; let c = 'q'"]
    let scope : Scope := ⟨[("x", .number (.finite true 0 representable_zero)),
      ("s", .string "a\"\n"), ("b", .bool true), ("c", .char 'q')], []⟩
    scopeAfter (.usual false) .empty sources = scope ∧
      scope.inner.dump = "let x = -0;let s = \"a\\\"\\n\";let b = true;let c = 'q'" ∧
      eval (.usual true) "let x = -0;let s = \"a\\\"\\n\";let b = true;let c = 'q'" .empty =
        (.ok (some (.char 'q')), scope) := by
  intro sources scope
  have hsession : scopeAfter (.usual false) .empty sources = scope := by decide +kernel
  have hdump : scope.inner.dump = "let x = -0;let s = \"a\\\"\\n\";let b = true;let c = 'q'" := by
    decide +kernel
  have hreload := eval_dump_scopeAfter (.usual false) (.usual true) (.usual true) sources
  rw [hsession, hdump] at hreload
  exact ⟨hsession, hdump, hreload⟩

end Session

end Reckon
