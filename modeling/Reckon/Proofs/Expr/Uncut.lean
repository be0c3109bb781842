import Reckon.Proofs.Expr.Rounds

/-!
# Tokens that are not cut off

The parser cuts its tokens off at the first end marker before it reads them. This is for convenience
only: tokens behind the marker do not matter, and a missing marker is one at the position of the
last token, whether or not anything is cut off (`Expr.parse_ends_at_marker`).

For tokens that are cut off that is a fact about `ParseInput.ofTokens`. For tokens that are not, it
is one about every stage of the parser: the readers stop at a marker
(`Expr.heeds_parseStatementAt`), and so do what is done behind a single statement
(`Expr.endStatement`) and the loop over the statements of a program (`Expr.programStep`). -/

namespace Reckon

namespace Expr

variable {tokens tail : List Token}

/-! ### One statement -/

/-- What is done behind the one statement of an input: the statement has to end there, a semicolon
is passed, and then the input has to end. -/
def endStatement (e : Expr) (rest : List Token) : Except ParseError Expr :=
  match blockingToken? rest with
  | some found => .error (.unexpected .statementEnd found.lexeme found.pos)
  | none =>
    match (if leading? rest = some .semicolon then rest.tail else rest).head? with
    | none => .ok e
    | some found =>
      if found.isEnd then .ok e else .error (.unexpected .inputEnd found.lexeme found.pos)

/-- The one statement of tokens that are not cut off. -/
def parseUncut (stop size limit : Nat) (ts : List Token) : Except ParseError Expr :=
  match parseStatementAt stop size limit ts with
  | .error err => .error err
  | .ok (e, rest) => endStatement e rest

/-- Behind a statement, a tail that starts with an end marker is like no tokens. -/
theorem endStatement_append (htail : ∀ t ∈ tail.head?, t.isEnd) (e : Expr) (tokens : List Token) :
    endStatement e (tokens ++ tail) = endStatement e tokens := by
  have hmarker : endStatement e tail = .ok e := by
    rcases tail with _ | ⟨⟨lexeme, pos⟩, after⟩
    · rfl
    · obtain rfl : lexeme = .endOfInput := by simpa [Token.isEnd] using htail
      rfl
  rcases tokens with _ | ⟨⟨lexeme, pos⟩, rest⟩
  · exact hmarker
  rw [List.cons_append, endStatement, endStatement]
  by_cases hsemicolon : lexeme = .symbol .semicolon
  · subst hsemicolon
    rcases rest with _ | ⟨found, more⟩
    · rcases tail with _ | ⟨t, after⟩
      · rfl
      · have hend : t.isEnd := htail t rfl
        simp [blockingToken?, leading?, hend]
    · simp [blockingToken?, leading?]
  · have hleading (more : List Token) : leading? (⟨lexeme, pos⟩ :: more) ≠ some .semicolon := by
      cases lexeme <;> simp_all [leading?]
    simp [hleading, blockingToken?]

section Input

variable {ts ts' : List Token} {stop stop' limit : Nat}

/-- Of tokens that hold no marker nothing is cut off. -/
theorem parseUncut_eq (hinput : ParseInput.ofTokens ts' = ⟨ts, stop⟩) (hts : Unended ts) :
    parseUncut stop ts.length limit ts = parseWithin limit ts' := by
  rw [parseUncut, parseWithin, hinput]
  dsimp only
  rcases hread : parseStatementAt stop ts.length limit ts with err | ⟨e, rest⟩
  · rfl
  obtain ⟨used, hused, -⟩ := advances_parseStatementAt stop ts.length limit _ _ _
    List.findIdx_le_length hread
  have hrest : Unended rest := (List.forall_mem_append.mp (hused ▸ hts)).2
  dsimp only
  rw [endStatement]
  cases hblocking : blockingToken? rest with
  | some found => rfl
  | none =>
    rcases rest with _ | ⟨⟨lexeme, pos⟩, more⟩
    · rfl
    obtain ⟨hend, hmore⟩ := unended_cons_iff.mp hrest
    obtain rfl : lexeme = .symbol .semicolon := by simpa [blockingToken?, hend] using hblocking
    rcases more with _ | ⟨found, more⟩
    · rfl
    · simp [leading?, (unended_cons_iff.mp hmore).1]

/-- Uncut tokens hold the statement that is in front of the tail. -/
theorem parseUncut_append (hinput : ParseInput.ofTokens ts' = ⟨ts, stop'⟩) (hts : Unended ts)
    (htail : ∀ t ∈ tail.head?, t.isEnd)
    (hstops : StopsAt tail (parseStatementAt stop ts.length limit)
      (parseStatementAt stop' ts.length limit)) :
    parseUncut stop ts.length limit (ts ++ tail) = parseWithin limit ts' := by
  rw [← parseUncut_eq hinput hts, parseUncut, parseUncut, hstops ts hts]
  rcases parseStatementAt stop' ts.length limit ts with err | ⟨e, rest⟩
  · rfl
  · exact endStatement_append htail e rest

/-- On uncut tokens the loop over statements leads to the program in front of the tail. -/
theorem loops_program_append (hinput : ParseInput.ofTokens ts' = ⟨ts, stop'⟩) (hts : Unended ts)
    (htail : ∀ t ∈ tail.head?, t.isEnd)
    (hstops : StopsAt tail (parseStatementAt stop ts.length limit)
      (parseStatementAt stop' ts.length limit)) :
    ∃ n ≤ ts.length, Loops (programStep (parseStatementAt stop ts.length limit)) n
      ([], ts ++ tail) (parseProgramWithin limit ts') := by
  have hloops := (advances_parseStatementAt stop' ts.length limit).loops_program hstops htail hts
    (Nat.le_refl _) (Nat.le_refl _) []
  have hprogram : parseProgramWithin limit ts' =
      (readStatements (parseStatementAt stop' ts.length limit) ts.length ts).map ([] ++ ·) := by
    rw [parseProgramWithin, hinput]
    simp only [List.nil_append]
    cases readStatements _ _ _ <;> rfl
  rwa [hprogram]

end Input

/-- The parsers see a list of tokens through the input it holds. -/
theorem parse_congr (limit : Nat) {ts ts' : List Token}
    (h : ParseInput.ofTokens ts = ParseInput.ofTokens ts') :
    parseWithin limit ts = parseWithin limit ts' ∧
      parseProgramWithin limit ts = parseProgramWithin limit ts' := by
  simp only [parseWithin, parseProgramWithin, h, and_self]

/-- **The first end marker ends the input.** Let `ts` be tokens without an end marker. Whether one
statement is read or a program, tokens behind a marker do not matter, and to leave the marker out is
to put it at the position of the last token. The outcome is the same to the letter: the trees, or
the error and where it is.

Nor does this hang on cutting the tokens off at the marker. A statement read from the uncut tokens
is the one that is read in front of the marker, or the error is, and the marker is left over with
all that stands behind it; and reading one statement to the end of the input, or looping over the
statements of a program, leads on uncut tokens to the same outcome, whatever end the readers are
told if there is a marker, and with the position of the last token if there is none. -/
theorem parse_ends_at_marker (limit : Nat) (ts : List Token) (hts : ∀ t ∈ ts, t.isEnd = false)
    (pos : Nat) (rest : List Token) :
    (parseWithin limit (ts ++ ⟨.endOfInput, pos⟩ :: rest) =
        parseWithin limit (ts ++ [⟨.endOfInput, pos⟩]) ∧
      parseProgramWithin limit (ts ++ ⟨.endOfInput, pos⟩ :: rest) =
        parseProgramWithin limit (ts ++ [⟨.endOfInput, pos⟩])) ∧
    (parseWithin limit ts = parseWithin limit (ts ++ [⟨.endOfInput, lastPos ts⟩]) ∧
      parseProgramWithin limit ts = parseProgramWithin limit (ts ++ [⟨.endOfInput, lastPos ts⟩])) ∧
    (∀ stop size, parseStatementAt stop size limit (ts ++ ⟨.endOfInput, pos⟩ :: rest) =
      (parseStatementAt pos size limit ts).map
        fun (e, left) => (e, left ++ ⟨.endOfInput, pos⟩ :: rest)) ∧
    (∀ stop, parseUncut stop ts.length limit (ts ++ ⟨.endOfInput, pos⟩ :: rest) =
        parseWithin limit (ts ++ [⟨.endOfInput, pos⟩]) ∧
      ∃ n ≤ ts.length, Loops (programStep (parseStatementAt stop ts.length limit)) n
        ([], ts ++ ⟨.endOfInput, pos⟩ :: rest)
        (parseProgramWithin limit (ts ++ [⟨.endOfInput, pos⟩]))) ∧
    parseUncut (lastPos ts) ts.length limit ts = parseWithin limit ts ∧
      ∃ n ≤ ts.length, Loops (programStep (parseStatementAt (lastPos ts) ts.length limit)) n
        ([], ts) (parseProgramWithin limit ts) := by
  have hmarker : ∀ t ∈ (marker pos rest).head?, t.isEnd := by simp [marker, Token.isEnd]
  have hstops (stop : Nat) : StopsAt (marker pos rest) (parseStatementAt stop ts.length limit)
      (parseStatementAt pos ts.length limit) :=
    fun tokens htokens => (heeds_parseStatementAt stop ts.length limit).eq_map htokens
  have hended : ParseInput.ofTokens (ts ++ [⟨.endOfInput, pos⟩]) = ⟨ts, pos⟩ :=
    ofTokens_append_end hts pos []
  have hunended : ParseInput.ofTokens ts = ⟨ts, lastPos ts⟩ := ofTokens_of_unended hts
  -- Tokens without a marker are the case of an empty tail, where readers stop anyway.
  have hnone := stopsAt_nil (parseStatementAt (lastPos ts) ts.length limit)
  refine ⟨parse_congr limit ?_, parse_congr limit ?_, fun stop size => ?_, fun stop => ⟨?_, ?_⟩,
    ?_, ?_⟩
  · rw [ofTokens_append_end hts, ofTokens_append_end hts]
  · rw [hunended, ofTokens_append_end hts]
  · exact (heeds_parseStatementAt stop size limit).eq_map hts
  · exact parseUncut_append hended hts hmarker (hstops stop)
  · exact loops_program_append hended hts hmarker (hstops stop)
  · simpa using parseUncut_append hunended hts (by simp) hnone
  · simpa using loops_program_append hunended hts (by simp) hnone

/-- At an open parenthesis, with a marker at 7 and the closing one behind it, and without a marker;
and at no tokens at all in front of a marker and a token. -/
theorem parse_ends_at_marker_group :
    let ts : List Token := [⟨.symbol .openParen, 0⟩, ⟨.identifier "a", 3⟩]
    let after : List Token := [⟨.symbol .closeParen, 9⟩]
    parse (ts ++ ⟨.endOfInput, 7⟩ :: after) = .error (.unclosedGroup 7) ∧
    parseProgram ts = .error (.unclosedGroup 3) ∧
    parseProgram ([] ++ ⟨.endOfInput, 5⟩ :: after) = .ok [] ∧
    parse [] = .error (.inputEnded .operand 0) ∧
    parseStatementAt 99 10 nestingLimit (ts ++ ⟨.endOfInput, 7⟩ :: after) =
      .error (.unclosedGroup 7) ∧
    parseUncut 99 2 nestingLimit (ts ++ ⟨.endOfInput, 7⟩ :: after) = .error (.unclosedGroup 7) := by
  intro ts after
  obtain ⟨⟨hsingle, -⟩, ⟨-, hprogram⟩, hplace, huncut, -⟩ :=
    parse_ends_at_marker nestingLimit ts (by decide) 7 after
  obtain ⟨⟨-, hempty⟩, ⟨hnone, -⟩, -⟩ :=
    parse_ends_at_marker nestingLimit [] (by decide) 5 after
  exact ⟨hsingle, hprogram, hempty, hnone, hplace 99 10, (huncut 99).1⟩

end Expr

end Reckon
