import Reckon.Proofs.Expr.Recognition

/-!
# Statements and programs of the grammar

The results about levels are carried up to statements, to programs and to single statements with
one semicolon. A statement ends at a semicolon or at the end of the input, where nothing goes on, so
that every statement of the grammar has a derivation with the furthest assignments
(`Expr.ReadsStatement.exists_furthest`); the main result, `Expr.parse_iff_grammar`, needs no more
than that and the two directions for statements.
-/

namespace Reckon

namespace Expr

variable {stop size limit : Nat} {input rest tokens : List Token} {e : Expr}

/-! ### Statements -/

theorem readStatement_declare_of_ok {value : Reader} {name : String} {pos₁ pos₂ pos₃ : Nat}
    (hname : isReserved name = false) (h : value input = .ok (e, rest)) :
    readStatement stop value (⟨.identifier "let", pos₁⟩ :: ⟨.identifier name, pos₂⟩ ::
        ⟨.symbol .assign, pos₃⟩ :: input) =
      .ok (.declare name e, rest) := by
  simp [readStatement, declareWord, readDeclaration, hname, readInit, h]

private theorem readStatement_declare_of_error {value : Reader} {name : String} {err : ParseError}
    {pos₁ pos₂ pos₃ : Nat} (hname : isReserved name = false) (h : value input = .error err) :
    readStatement stop value (⟨.identifier "let", pos₁⟩ :: ⟨.identifier name, pos₂⟩ ::
        ⟨.symbol .assign, pos₃⟩ :: input) =
      .error err := by
  simp [readStatement, declareWord, readDeclaration, hname, readInit, h]

/-- What the first word makes of a statement, with `value` for comparisons. -/
inductive StatementStep (value : Reader) :
    List Token → Except ParseError (Expr × List Token) → Prop where
  | declared {name : String} {input rest : List Token} {e : Expr} (pos₁ pos₂ pos₃ : Nat)
      (hname : isReserved name = false) (hvalue : value input = .ok (e, rest)) :
      StatementStep value
        (⟨.identifier "let", pos₁⟩ :: ⟨.identifier name, pos₂⟩ :: ⟨.symbol .assign, pos₃⟩ :: input)
        (.ok (.declare name e, rest))
  | undeclared {name : String} {input : List Token} {err : ParseError} (pos₁ pos₂ pos₃ : Nat)
      (hname : isReserved name = false) (hvalue : value input = .error err) :
      StatementStep value
        (⟨.identifier "let", pos₁⟩ :: ⟨.identifier name, pos₂⟩ :: ⟨.symbol .assign, pos₃⟩ :: input)
        (.error err)
  | misshapen {tokens : List Token} {err : ParseError} (herr : err ≠ .nestingTooDeep) :
      StatementStep value tokens (.error err)
  | comparison (tokens : List Token) : StatementStep value tokens (value tokens)

private theorem statementStep_readStatement (stop : Nat) (value : Reader) (tokens : List Token) :
    StatementStep value tokens (readStatement stop value tokens) := by
  by_cases hlet : ∃ pos rest, tokens = ⟨.identifier declareWord, pos⟩ :: rest
  · obtain ⟨pos₁, rest, rfl⟩ := hlet
    rw [readStatement, if_pos rfl]
    rcases rest with _ | ⟨⟨lexeme, pos₂⟩, rest⟩
    · exact .misshapen (by simp)
    cases lexeme with
    | identifier name =>
      cases hname : isReserved name with
      | true =>
        rw [readDeclaration, if_pos hname]
        exact .misshapen (by simp)
      | false =>
        rw [readDeclaration, if_neg (by simp [hname])]
        rcases rest with _ | ⟨⟨lexeme, pos₃⟩, input⟩
        · exact .misshapen (by simp)
        · by_cases hassign : lexeme = .symbol .assign
          · subst hassign
            rcases hvalue : value input with err | ⟨e, rest⟩
            · simp only [readInit, if_true, hvalue]
              exact .undeclared pos₁ pos₂ pos₃ hname hvalue
            · simp only [readInit, if_true, hvalue]
              exact .declared pos₁ pos₂ pos₃ hname hvalue
          · cases lexeme <;> simp only [readInit, hassign, if_false] <;> exact .misshapen (by simp)
    | _ => exact .misshapen (by simp)
  · rw [readStatement_of_ne fun pos rest h => hlet ⟨pos, rest, h⟩]
    exact .comparison tokens

/-- **Soundness for statements.** -/
theorem readsStatement_of_parseStatementAt (hsize : input.length ≤ size)
    (h : parseStatementAt stop size limit input = .ok (e, rest)) :
    ReadsStatement Furthest input e rest := by
  have hstep : StatementStep _ input (parseStatementAt stop size limit input) :=
    statementStep_readStatement stop _ input
  rw [h] at hstep
  generalize hresult : Except.ok (e, rest) = result at hstep
  cases hstep with
  | declared pos₁ pos₂ pos₃ hname hvalue =>
    obtain ⟨rfl, rfl⟩ : e = _ ∧ rest = _ := by simpa using hresult
    simp only [List.length_cons] at hsize
    refine .declare (isReserved_eq_false_iff_notMem.mp hname) ?_
    exact reads_of_parseAt .comparison (by omega) hvalue
  | undeclared pos₁ pos₂ pos₃ hname hvalue => simp at hresult
  | misshapen herr => simp at hresult
  | comparison => exact .comparison (reads_of_parseAt .comparison hsize hresult.symm)

/-- A comparison does not start like a declaration, and no statement starts with a semicolon. -/
theorem Outline.readStatement_eq (h : Outline .comparison input rest) (stop : Nat)
    (value : Reader) : readStatement stop value input = value input := by
  refine readStatement_of_ne fun pos more heq => ?_
  obtain ⟨t, more', rfl, ht⟩ := h.exists_starts
  obtain ⟨rfl, -⟩ := List.cons.inj heq
  simp [Part.starts, Lexeme.isOperand] at ht

/-- **Completeness for statements.** -/
theorem gives_parseStatementAt (hsize : input.length ≤ size) (hrest : Stops rest)
    (h : ReadsStatement Furthest input e rest) :
    Gives (parseStatementAt stop size limit input) e rest := by
  cases h with
  | @declare name input rest e pos₁ pos₂ pos₃ hname h =>
    simp only [List.length_cons] at hsize
    have hname := isReserved_eq_false_iff_notMem.mpr hname
    have hvalue : Gives (parseAt stop size limit .comparison input) e rest :=
      (follows_of_reads h (by omega) (.stops hrest)).gives limit (hrest.avoids_covers _)
    rcases hvalue with herr | hok
    · exact .inl (readStatement_declare_of_error hname herr)
    · exact .inr (readStatement_declare_of_ok hname hok)
  | comparison h =>
    rw [parseStatementAt, Outline.readStatement_eq h.outline]
    exact (follows_of_reads h hsize (.stops hrest)).gives limit (hrest.avoids_covers _)

theorem ReadsStatement.exists_furthest {fits : List Token → List Token → Prop}
    (h : ReadsStatement fits input e rest) (hrest : Stops rest) :
    ∃ e', ReadsStatement Furthest input e' rest := by
  cases h with
  | declare hname h =>
    obtain ⟨e', he'⟩ := h.outline.exists_reads hrest
    exact ⟨_, .declare hname he'⟩
  | comparison h =>
    obtain ⟨e', he'⟩ := h.outline.exists_reads hrest
    exact ⟨e', .comparison he'⟩

/-- A statement starts with something other than a semicolon and leaves an ending of its tokens. -/
theorem ReadsStatement.exists_cons {fits : List Token → List Token → Prop}
    (h : ReadsStatement fits input e rest) :
    ∃ t more, input = t :: more ∧ t.lexeme ≠ .symbol .semicolon ∧ rest <:+ more := by
  cases h with
  | declare hname h =>
    refine ⟨_, _, rfl, by simp, h.outline.isSuffix.trans ?_⟩
    exact (List.suffix_cons _ _).trans (List.suffix_cons _ _)
  | comparison h =>
    obtain ⟨t, more, rfl, hmore⟩ := h.outline.exists_cons
    refine ⟨t, more, rfl, fun ht => ?_, hmore⟩
    obtain ⟨lexeme, pos⟩ := t
    subst ht
    exact h.outline.leading?_ne rfl rfl

private theorem parseStatementAt_ne_nestingTooDeep (h : 10 * tokens.length + 10 ≤ limit) :
    parseStatementAt stop size limit tokens ≠ .error .nestingTooDeep := by
  intro herr
  have hstep : StatementStep _ tokens (parseStatementAt stop size limit tokens) :=
    statementStep_readStatement stop _ tokens
  rw [herr] at hstep
  generalize hresult : Except.error ParseError.nestingTooDeep = result at hstep
  cases hstep with
  | declared pos₁ pos₂ pos₃ hname hvalue => simp at hresult
  | undeclared pos₁ pos₂ pos₃ hname hvalue =>
    rw [← hresult] at hvalue
    simp only [List.length_cons] at h
    exact parseAt_ne_nestingTooDeep (by simp only [Level.rank]; omega) hvalue
  | misshapen hne => exact hne (Except.error.inj hresult).symm
  | comparison => exact parseAt_ne_nestingTooDeep h hresult.symm

/-! ### Programs -/

/-- A statement can end in front of nothing else than a semicolon, as long as no end marker is
among the tokens. -/
theorem blockingToken?_eq_none_iff (h : ∀ t ∈ rest, t.isEnd = false) :
    blockingToken? rest = none ↔
      rest = [] ∨ ∃ pos more, rest = ⟨.symbol .semicolon, pos⟩ :: more := by
  rcases rest with _ | ⟨⟨lexeme, pos⟩, more⟩
  · simp [blockingToken?]
  · have hend : Token.isEnd ⟨lexeme, pos⟩ = false := h _ (List.mem_cons_self ..)
    simp [blockingToken?, hend]

section Statements

variable {statement : Reader} {fuel : Nat}

theorem readStatements_nil : readStatements statement fuel [] = .ok [] := by
  cases fuel <;> rfl

theorem readStatements_semicolon (pos : Nat) :
    readStatements statement (fuel + 1) (⟨.symbol .semicolon, pos⟩ :: rest) =
      readStatements statement fuel rest := by
  simp [readStatements]

theorem readStatements_of_error {t : Token} {err : ParseError}
    (ht : t.lexeme ≠ .symbol .semicolon) (h : statement (t :: rest) = .error err) :
    readStatements statement (fuel + 1) (t :: rest) = .error err := by
  simp [readStatements, ht, h]

theorem readStatements_of_more_ok {t : Token} {rest' : List Token} {es : List Expr}
    (ht : t.lexeme ≠ .symbol .semicolon) (h : statement (t :: rest) = .ok (e, rest'))
    (hend : blockingToken? rest' = none) (hmore : readStatements statement fuel rest' = .ok es) :
    readStatements statement (fuel + 1) (t :: rest) = .ok (e :: es) := by
  simp [readStatements, ht, h, hend, hmore]

theorem readStatements_of_more_error {t : Token} {rest' : List Token} {err : ParseError}
    (ht : t.lexeme ≠ .symbol .semicolon) (h : statement (t :: rest) = .ok (e, rest'))
    (hend : blockingToken? rest' = none)
    (hmore : readStatements statement fuel rest' = .error err) :
    readStatements statement (fuel + 1) (t :: rest) = .error err := by
  simp [readStatements, ht, h, hend, hmore]

end Statements

/-- What follows a semicolon is a program of its own. -/
theorem ReadsProgram.of_semicolon {fits : List Token → List Token → Prop} {es : List Expr}
    {pos : Nat} (h : ReadsProgram fits (⟨.symbol .semicolon, pos⟩ :: rest) es) :
    ReadsProgram fits rest es := by
  cases h with
  | skip h => exact h
  | last h | more h =>
    obtain ⟨t, more, heq, ht, -⟩ := h.exists_cons
    obtain ⟨rfl, -⟩ := List.cons.inj heq
    exact absurd rfl ht

theorem ReadsProgram.eq_nil {fits : List Token → List Token → Prop} {es : List Expr}
    (h : ReadsProgram fits [] es) : es = [] := by
  cases h with
  | nil => rfl
  | last h | more h =>
    obtain ⟨t, more, heq, -⟩ := h.exists_cons
    simp at heq

/-- A statement in front of the rest of a program. -/
theorem ReadsProgram.cons {fits : List Token → List Token → Prop} {es : List Expr}
    (h : ReadsStatement fits input e rest) (hrest : ReadsProgram fits rest es)
    (hends : ∀ t ∈ rest, t.isEnd = false) (hend : blockingToken? rest = none) :
    ReadsProgram fits input (e :: es) := by
  rcases (blockingToken?_eq_none_iff hends).mp hend with rfl | ⟨pos, more, rfl⟩
  · obtain rfl := hrest.eq_nil
    exact .last h
  · exact .more h hrest.of_semicolon

/-- **Soundness for programs.** -/
theorem readsProgram_of_readStatements {fuel : Nat} {es : List Expr}
    (hends : ∀ t ∈ tokens, t.isEnd = false) (hsize : tokens.length ≤ size)
    (hfuel : tokens.length ≤ fuel)
    (h : readStatements (parseStatementAt stop size limit) fuel tokens = .ok es) :
    ReadsProgram Furthest tokens es := by
  fun_induction readStatements (parseStatementAt stop size limit) fuel tokens generalizing es with
  | case1 tokens =>
    obtain rfl : tokens = [] := by simpa using hfuel
    obtain rfl : [] = es := by simpa using h
    exact .nil
  | case2 =>
    obtain rfl : [] = es := by simpa using h
    exact .nil
  | case3 fuel t rest ht ih =>
    obtain ⟨lexeme, pos⟩ := t
    subst ht
    simp only [List.length_cons] at hsize hfuel
    exact .skip (ih (fun t' ht' => hends t' (List.mem_cons_of_mem _ ht')) (by omega) (by omega) h)
  | case4 | case5 | case6 => simp at h
  | case7 fuel t rest ht e rest' hstatement hend es' hmore ih =>
    obtain rfl : e :: es' = es := by simpa using h
    have hreads := readsStatement_of_parseStatementAt hsize hstatement
    obtain ⟨t', more, heq, -, hsuffix⟩ := hreads.exists_cons
    obtain ⟨rfl, rfl⟩ := List.cons.inj heq
    have hle := hsuffix.length_le
    simp only [List.length_cons] at hsize hfuel
    have hends' : ∀ t' ∈ rest', t'.isEnd = false :=
      fun t' ht' => hends t' (List.mem_cons_of_mem _ (hsuffix.mem ht'))
    exact .cons hreads (ih hends' (by omega) (by omega) hmore) hends' hend

/-- **Completeness for programs.** -/
theorem readStatements_of_readsProgram {fuel : Nat} {es : List Expr}
    (hsize : tokens.length ≤ size) (hfuel : tokens.length ≤ fuel)
    (h : ReadsProgram Furthest tokens es) :
    readStatements (parseStatementAt stop size limit) fuel tokens = .error .nestingTooDeep ∨
      readStatements (parseStatementAt stop size limit) fuel tokens = .ok es := by
  induction h generalizing fuel with
  | nil => exact .inr readStatements_nil
  | skip h ih =>
    simp only [List.length_cons] at hsize hfuel
    obtain ⟨fuel, rfl⟩ : ∃ k, fuel = k + 1 := ⟨fuel - 1, by omega⟩
    rw [readStatements_semicolon]
    exact ih (by omega) (by omega)
  | last h =>
    obtain ⟨t, more, rfl, ht, -⟩ := h.exists_cons
    simp only [List.length_cons] at hfuel
    obtain ⟨fuel, rfl⟩ : ∃ k, fuel = k + 1 := ⟨fuel - 1, by omega⟩
    rcases gives_parseStatementAt hsize stops_nil h with herr | hok
    · exact .inl (readStatements_of_error ht herr)
    · exact .inr (readStatements_of_more_ok ht hok rfl readStatements_nil)
  | @more input rest e es pos h hrest ih =>
    obtain ⟨t, more, rfl, ht, hsuffix⟩ := h.exists_cons
    have hle := hsuffix.length_le
    simp only [List.length_cons] at hle hfuel
    obtain ⟨fuel, rfl⟩ : ∃ k, fuel = k + 2 := ⟨fuel - 2, by omega⟩
    rcases gives_parseStatementAt hsize (stops_semicolon pos rest) h with herr | hok
    · exact .inl (readStatements_of_error ht herr)
    · simp only [List.length_cons] at hsize
      rcases @ih fuel (by omega) (by omega) with herr | hes
      · rw [← readStatements_semicolon pos] at herr
        exact .inl (readStatements_of_more_error ht hok rfl herr)
      · rw [← readStatements_semicolon pos] at hes
        exact .inr (readStatements_of_more_ok ht hok rfl hes)

private theorem ReadsProgram.exists_furthest {fits : List Token → List Token → Prop}
    {es : List Expr}
    (h : ReadsProgram fits tokens es) : ∃ es', ReadsProgram Furthest tokens es' := by
  induction h with
  | nil => exact ⟨[], .nil⟩
  | skip _ ih =>
    obtain ⟨es', hes'⟩ := ih
    exact ⟨es', .skip hes'⟩
  | last h =>
    obtain ⟨e', he'⟩ := h.exists_furthest stops_nil
    exact ⟨[e'], .last he'⟩
  | more h _ ih =>
    obtain ⟨e', he'⟩ := h.exists_furthest (stops_semicolon _ _)
    obtain ⟨es', hes'⟩ := ih
    exact ⟨e' :: es', .more he' hes'⟩

private theorem readStatements_ne_nestingTooDeep {fuel : Nat} (hsize : tokens.length ≤ size)
    (hlimit : 10 * tokens.length + 10 ≤ limit) :
    readStatements (parseStatementAt stop size limit) fuel tokens ≠ .error .nestingTooDeep := by
  fun_induction readStatements (parseStatementAt stop size limit) fuel tokens with
  | case1 | case2 | case5 | case7 => simp
  | case3 fuel t rest ht ih =>
    simp only [List.length_cons] at hsize hlimit
    exact ih (by omega) (by omega)
  | case4 fuel t rest ht err hstatement =>
    rintro ⟨⟩
    exact parseStatementAt_ne_nestingTooDeep hlimit hstatement
  | case6 fuel t rest ht e rest' hstatement hend err hmore ih =>
    obtain ⟨t', more, heq, -, hsuffix⟩ :=
      (readsStatement_of_parseStatementAt hsize hstatement).exists_cons
    obtain ⟨rfl, rfl⟩ := List.cons.inj heq
    have hle := hsuffix.length_le
    simp only [List.length_cons] at hsize hlimit
    rw [hmore] at ih
    exact ih (by omega) (by omega)

/-! ### The grammar of the parser -/

theorem ReadsStatement.mono {fits fits' : List Token → List Token → Prop}
    (hfits : ∀ input rest, fits input rest → fits' input rest)
    (h : ReadsStatement fits input e rest) : ReadsStatement fits' input e rest := by
  cases h with
  | declare hname h => exact .declare hname (h.mono hfits)
  | comparison h => exact .comparison (h.mono hfits)

theorem ReadsProgram.mono {fits fits' : List Token → List Token → Prop}
    (hfits : ∀ input rest, fits input rest → fits' input rest) {es : List Expr}
    (h : ReadsProgram fits tokens es) : ReadsProgram fits' tokens es := by
  induction h with
  | nil => exact .nil
  | skip _ ih => exact .skip ih
  | last h => exact .last (h.mono hfits)
  | more h _ ih => exact .more (h.mono hfits) ih

variable {ts : List Token}

theorem parseProgramWithin_append_end (hends : ∀ t ∈ ts, t.isEnd = false) :
    parseProgramWithin limit (ts ++ [⟨.endOfInput, stop⟩]) =
      readStatements (parseStatementAt stop ts.length limit) ts.length ts := by
  simp [parseProgramWithin, ofTokens_append_end hends]

/-- Programs are read as derived, as long as there are enough levels. -/
theorem parseProgramWithin_eq_ok_iff (hends : ∀ t ∈ ts, t.isEnd = false)
    (hdeep : parseProgramWithin limit (ts ++ [⟨.endOfInput, stop⟩]) ≠ .error .nestingTooDeep)
    (es : List Expr) :
    parseProgramWithin limit (ts ++ [⟨.endOfInput, stop⟩]) = .ok es ↔
      ReadsProgram Furthest ts es := by
  rw [parseProgramWithin_append_end hends] at hdeep ⊢
  constructor
  · exact readsProgram_of_readStatements hends (Nat.le_refl _) (Nat.le_refl _)
  · intro h
    exact (readStatements_of_readsProgram (Nat.le_refl _) (Nat.le_refl _) h).resolve_left hdeep

/-- Behind a single statement stands at most one semicolon. -/
theorem parseWithin_eq_ok_iff_of_ok (hends : ∀ t ∈ ts, t.isEnd = false) {e' : Expr}
    (h : parseStatementAt stop ts.length limit ts = .ok (e', rest)) :
    parseWithin limit (ts ++ [⟨.endOfInput, stop⟩]) = .ok e ↔
      e' = e ∧ (rest = [] ∨ ∃ pos, rest = [⟨.symbol .semicolon, pos⟩]) := by
  obtain ⟨t, more, rfl, -, hsuffix⟩ :=
    (readsStatement_of_parseStatementAt (Nat.le_refl _) h).exists_cons
  have hends' : ∀ t' ∈ rest, t'.isEnd = false :=
    fun t' ht' => hends t' (List.mem_cons_of_mem _ (hsuffix.mem ht'))
  simp only [parseWithin, ofTokens_append_end hends, h]
  rcases hend : blockingToken? rest with _ | found
  · rcases (blockingToken?_eq_none_iff hends').mp hend with rfl | ⟨pos, more, rfl⟩
    · simp
    · cases more <;> simp
  · have hne : ¬(rest = [] ∨ ∃ pos, rest = [⟨.symbol .semicolon, pos⟩]) := by
      rintro (rfl | ⟨pos, rfl⟩) <;> simp [blockingToken?] at hend
    simp [hne]

/-- Running out of levels is running out of them in the statement. -/
theorem parseWithin_eq_nestingTooDeep_iff (hends : ∀ t ∈ ts, t.isEnd = false) :
    parseWithin limit (ts ++ [⟨.endOfInput, stop⟩]) = .error .nestingTooDeep ↔
      parseStatementAt stop ts.length limit ts = .error .nestingTooDeep := by
  rcases hresult : parseStatementAt stop ts.length limit ts with err | ⟨e', rest⟩
  · simp [parseWithin_of_error hends hresult]
  · simp only [parseWithin, ofTokens_append_end hends, hresult]
    repeat' split
    all_goals simp

private theorem stops_single (h : rest = [] ∨ ∃ pos, rest = [⟨.symbol .semicolon, pos⟩]) :
    Stops rest := by
  rcases h with rfl | ⟨pos, rfl⟩
  · exact stops_nil
  · exact stops_semicolon pos []

/-- Single statements are read as derived, as long as there are enough levels. -/
theorem parseWithin_eq_ok_iff (hends : ∀ t ∈ ts, t.isEnd = false)
    (hdeep : parseWithin limit (ts ++ [⟨.endOfInput, stop⟩]) ≠ .error .nestingTooDeep) (e : Expr) :
    parseWithin limit (ts ++ [⟨.endOfInput, stop⟩]) = .ok e ↔ ReadsSingle Furthest ts e := by
  rw [ne_eq, parseWithin_eq_nestingTooDeep_iff hends] at hdeep
  constructor
  · intro h
    rcases hread : parseStatementAt stop ts.length limit ts with err | ⟨e', rest⟩
    · simp [parseWithin_of_error hends hread] at h
    · obtain ⟨rfl, hrest⟩ := (parseWithin_eq_ok_iff_of_ok hends hread).mp h
      exact ⟨rest, readsStatement_of_parseStatementAt (Nat.le_refl _) hread, hrest⟩
  · rintro ⟨rest, hreads, hrest⟩
    have hread : parseStatementAt stop ts.length limit ts = .ok (e, rest) :=
      (gives_parseStatementAt (Nat.le_refl _) (stops_single hrest) hreads).resolve_left hdeep
    exact (parseWithin_eq_ok_iff_of_ok hends hread).mpr ⟨rfl, hrest⟩

private theorem ReadsSingle.exists_furthest {fits : List Token → List Token → Prop}
    (h : ReadsSingle fits ts e) : ∃ e', ReadsSingle Furthest ts e' := by
  obtain ⟨rest, hreads, hrest⟩ := h
  obtain ⟨e', he'⟩ := hreads.exists_furthest (stops_single hrest)
  exact ⟨e', rest, he', hrest⟩

/-- **The parser accepts its grammar.** On tokens with an end marker behind them, and as long as
there are enough levels, the parser for programs succeeds exactly on the programs of the grammar and
returns their trees with the furthest assignments; so does the parser for one statement and at most
one semicolon. Ten levels for every token, and ten more, are enough. -/
theorem parse_iff_grammar (limit : Nat) (ts : List Token) (stop : Nat)
    (hends : ∀ t ∈ ts, t.isEnd = false) :
    let source := ts ++ [⟨.endOfInput, stop⟩]
    (parseProgramWithin limit source ≠ .error .nestingTooDeep →
      ((∃ es, parseProgramWithin limit source = .ok es) ↔ ∃ es, ReadsProgram Anywhere ts es) ∧
      ∀ es, parseProgramWithin limit source = .ok es ↔ ReadsProgram Furthest ts es) ∧
    (parseWithin limit source ≠ .error .nestingTooDeep →
      ((∃ e, parseWithin limit source = .ok e) ↔ ∃ e, ReadsSingle Anywhere ts e) ∧
      ∀ e, parseWithin limit source = .ok e ↔ ReadsSingle Furthest ts e) ∧
    (10 * ts.length + 10 ≤ limit →
      parseProgramWithin limit source ≠ .error .nestingTooDeep ∧
      parseWithin limit source ≠ .error .nestingTooDeep) := by
  have hanywhere : ∀ input rest, Furthest input rest → Anywhere input rest := fun _ _ _ => trivial
  refine ⟨fun hdeep => ?_, fun hdeep => ?_, fun hlimit => ?_⟩
  · have hiff := parseProgramWithin_eq_ok_iff hends hdeep
    refine ⟨⟨fun ⟨es, hes⟩ => ?_, fun ⟨es, hes⟩ => ?_⟩, hiff⟩
    · exact ⟨es, ((hiff es).mp hes).mono hanywhere⟩
    · obtain ⟨es', hes'⟩ := hes.exists_furthest
      exact ⟨es', (hiff es').mpr hes'⟩
  · have hiff := parseWithin_eq_ok_iff hends hdeep
    refine ⟨⟨fun ⟨e, he⟩ => ?_, fun ⟨e, he⟩ => ?_⟩, hiff⟩
    · obtain ⟨rest, hreads, hrest⟩ := (hiff e).mp he
      exact ⟨e, rest, hreads.mono hanywhere, hrest⟩
    · obtain ⟨e', he'⟩ := he.exists_furthest
      exact ⟨e', (hiff e').mpr he'⟩
  · rw [parseProgramWithin_append_end hends, ne_eq (parseWithin _ _),
      parseWithin_eq_nestingTooDeep_iff hends]
    exact ⟨readStatements_ne_nestingTooDeep (Nat.le_refl _) hlimit,
      parseStatementAt_ne_nestingTooDeep hlimit⟩

/-- At `a + x = b + c;`, which is not `(a + (x = b)) + c`. -/
theorem parse_iff_grammar_assign :
    let ts : List Token := [⟨.identifier "a", 0⟩, ⟨.symbol .plus, 2⟩, ⟨.identifier "x", 4⟩,
      ⟨.symbol .assign, 6⟩, ⟨.identifier "b", 8⟩, ⟨.symbol .plus, 10⟩, ⟨.identifier "c", 12⟩,
      ⟨.symbol .semicolon, 13⟩]
    ReadsSingle Furthest ts (.binary .plus (.access "a")
      (.assign "x" (.binary .plus (.access "b") (.access "c")))) ∧
    ¬ReadsSingle Furthest ts (.binary .plus (.binary .plus (.access "a")
      (.assign "x" (.access "b"))) (.access "c")) := by
  intro ts
  have hgrammar := parse_iff_grammar nestingLimit ts 14 (by decide)
  have hreads := (hgrammar.2.1 (hgrammar.2.2 (by decide)).2).2
  have hparse : parseWithin nestingLimit (ts ++ [⟨.endOfInput, 14⟩]) = .ok (.binary .plus
      (.access "a") (.assign "x" (.binary .plus (.access "b") (.access "c")))) := rfl
  refine ⟨(hreads _).mp hparse, fun h => ?_⟩
  have hother := (hreads _).mpr h
  simp [hparse] at hother

end Expr

end Reckon
