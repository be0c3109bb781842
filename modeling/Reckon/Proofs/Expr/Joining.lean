import Reckon.Proofs.Expr.Completion
import Reckon.Proofs.Expr.Placement
import Reckon.Proofs.Session.Errors

/-!
# Programs joined by a semicolon

A semicolon cuts a program in two. If what stands in front of it is a program, then the whole has
its statements and, behind them, what comes of the rest alone: the statements of the rest or, to the
letter, its error (`Expr.parseProgram_append_semicolon`).

This needs more than reading on. The parser is handed the number of its tokens as a bound for its
loops, and that number is another one for the whole; so it is shown first that the bounds do not
matter as long as they are large enough (`Expr.parseAt_size`, `Expr.readStatements_bounds`).

A program of one statement is what the parser for single statements reads, if no semicolon stands in
front of it and at most one behind (`Expr.parseWithin_eq_ok_iff_program`).
-/

namespace Reckon

namespace Expr

variable {stop stop' size size' depth limit : Nat} {tokens : List Token}

/-! ### Bounds on loops -/

private theorem readChain_congr {joins : Symbol → Bool} {operand operand' : Reader}
    (hshortens : Shortens operand)
    (hoperand : ∀ input, input.length < tokens.length → operand input = operand' input)
    (fuel : Nat) (left : Expr) :
    readChain joins operand fuel left tokens = readChain joins operand' fuel left tokens := by
  induction fuel generalizing left tokens with
  | zero => rfl
  | succ fuel ih =>
    rcases avoids_or_exists joins tokens with havoids | ⟨s, pos, input, hs, rfl⟩
    · rw [readChain_of_avoids havoids, readChain_of_avoids havoids]
    have hinput := hoperand input (by simp)
    rcases hop : operand input with err | ⟨right, rest⟩
    · rw [readChain_of_error hs hop, readChain_of_error hs (hinput ▸ hop)]
    · have hlt := hshortens _ _ _ hop
      rw [readChain_of_ok hs hop, readChain_of_ok hs (hinput ▸ hop)]
      refine ih (fun mid hmid => hoperand mid ?_) _
      simp only [List.length_cons]
      omega

private theorem readPower_congr {exponent exponent' : Reader}
    (h : ∀ input, input.length < tokens.length → exponent input = exponent' input) (base : Expr) :
    readPower exponent base tokens = readPower exponent' base tokens := by
  by_cases hpower : leading? tokens = some .power
  · obtain ⟨pos, input, rfl⟩ := exists_of_leading? hpower
    simp [readPower, h input (by simp)]
  · rw [readPower_of_ne hpower, readPower_of_ne hpower]

private theorem readAtom_congr {inner inner' : Reader}
    (h : ∀ input, input.length < tokens.length → inner input = inner' input) :
    readAtom stop inner tokens = readAtom stop inner' tokens := by
  rcases tokens with _ | ⟨⟨lexeme, pos⟩, input⟩
  · rfl
  cases lexeme with
  | identifier name =>
    simp only [readAtom]
    by_cases hassign : leading? input = some .assign
    · obtain ⟨pos', more, rfl⟩ := exists_of_leading? hassign
      simp [readIdentifier, h more (by simp only [List.length_cons]; omega)]
    · rw [readIdentifier_of_ne hassign, readIdentifier_of_ne hassign]
  | symbol s => simp [readAtom, h input (by simp)]
  | _ => rfl

/-- **Bounds on operands.** Any number that is not less than that of the tokens will do. -/
theorem parseAt_size (level : Level) (hsize : tokens.length ≤ size)
    (hsize' : tokens.length ≤ size') :
    parseAt stop size depth level tokens = parseAt stop size' depth level tokens := by
  induction depth generalizing level tokens with
  | zero => rfl
  | succ depth ih =>
    have hstep := levelStep_parseAt stop size depth level tokens
    generalize parseAt stop size (depth + 1) level tokens = result at hstep ⊢
    cases hstep with
    | bang pos input =>
      rw [parseAt_bang, readUnary, readUnary,
        ih .comparison (Nat.le_of_succ_le hsize) (Nat.le_of_succ_le hsize')]
    | chain hchain hbang =>
      have hshortens := shortens_parseAt stop size depth level.tighter
      have hfirst := ih level.tighter hsize hsize'
      rw [parseAt_chain hchain hbang]
      rcases hop : parseAt stop size depth level.tighter tokens with err | ⟨left, rest⟩
      · rw [readJoined_of_error hop, readJoined_of_error (hfirst ▸ hop)]
      · have hlt := hshortens _ _ _ hop
        rw [readJoined_of_ok hop, readJoined_of_ok (hfirst ▸ hop)]
        rw [readChain_fuel hshortens left (by omega) (Nat.le_of_lt (Nat.lt_of_lt_of_le hlt hsize'))]
        exact readChain_congr hshortens
          (fun input hinput => ih level.tighter (by omega) (by omega)) _ left
    | sign hop pos input =>
      rw [parseAt_sign hop, readUnary, readUnary,
        ih .signed (Nat.le_of_succ_le hsize) (Nat.le_of_succ_le hsize')]
    | unsigned hplus hminus =>
      rw [parseAt_unsigned hplus hminus]
      exact ih .power hsize hsize'
    | noBase hbase =>
      rw [ih .atom hsize hsize'] at hbase
      rw [parseAt_power_of_error hbase]
    | @power _ rest base hbase =>
      have hlt := shortens_parseAt _ _ _ _ _ _ _ hbase
      rw [ih .atom hsize hsize'] at hbase
      rw [parseAt_power_of_ok hbase]
      exact readPower_congr (fun input hinput => ih .signed (by omega) (by omega)) base
    | atom =>
      rw [parseAt_atom]
      exact readAtom_congr fun input hinput => ih .comparison (by omega) (by omega)

private theorem readStatement_congr {value value' : Reader}
    (h : ∀ input, input.length ≤ tokens.length → value input = value' input) :
    readStatement stop value tokens = readStatement stop value' tokens := by
  by_cases hlet : ∃ pos rest, tokens = ⟨.identifier declareWord, pos⟩ :: rest
  · obtain ⟨pos, rest, rfl⟩ := hlet
    simp only [readStatement, if_true]
    rcases rest with _ | ⟨⟨lexeme, pos'⟩, rest⟩
    · rfl
    cases lexeme with
    | identifier name =>
      rcases rest with _ | ⟨⟨lexeme, pos''⟩, input⟩
      · rfl
      · have hinput := h input (by simp only [List.length_cons]; omega)
        cases lexeme <;> simp only [readDeclaration, readInit, hinput]
    | _ => rfl
  · have hne (pos : Nat) (rest : List Token) : tokens ≠ ⟨.identifier declareWord, pos⟩ :: rest :=
      fun heq => hlet ⟨pos, rest, heq⟩
    rw [readStatement_of_ne hne, readStatement_of_ne hne]
    exact h tokens (Nat.le_refl _)

/-- **Bounds on programs.** The same of all loops of a program. -/
theorem readStatements_bounds {fuel fuel' : Nat} (hsize : tokens.length ≤ size)
    (hsize' : tokens.length ≤ size') (hfuel : tokens.length ≤ fuel)
    (hfuel' : tokens.length ≤ fuel') :
    readStatements (parseStatementAt stop size limit) fuel tokens =
      readStatements (parseStatementAt stop size' limit) fuel' tokens := by
  induction fuel generalizing tokens fuel' with
  | zero =>
    obtain rfl : tokens = [] := by simpa using hfuel
    rw [readStatements_nil, readStatements_nil]
  | succ fuel ih =>
    rcases tokens with _ | ⟨⟨lexeme, pos⟩, rest⟩
    · rw [readStatements_nil, readStatements_nil]
    simp only [List.length_cons] at hfuel hfuel'
    obtain ⟨fuel', rfl⟩ : ∃ k, fuel' = k + 1 := ⟨fuel' - 1, by omega⟩
    by_cases hlexeme : lexeme = .symbol .semicolon
    · subst hlexeme
      rw [readStatements_semicolon, readStatements_semicolon]
      exact ih (Nat.le_of_succ_le hsize) (Nat.le_of_succ_le hsize') (by omega) (by omega)
    have hstatement : parseStatementAt stop size limit (⟨lexeme, pos⟩ :: rest) =
        parseStatementAt stop size' limit (⟨lexeme, pos⟩ :: rest) :=
      readStatement_congr fun input hinput => parseAt_size .comparison (by omega) (by omega)
    simp only [readStatements, hlexeme, if_false, ← hstatement]
    rcases hread : parseStatementAt stop size limit (⟨lexeme, pos⟩ :: rest) with err | ⟨e, rest'⟩
    · rfl
    · have hlt := length_lt_of_parseStatementAt hsize hread
      simp only [List.length_cons] at hsize hsize' hlt
      have hbehind := @ih rest' fuel' (by omega) (by omega) (by omega) (by omega)
      simp only [hbehind]

/-! ### Programs in front of a semicolon -/

/-- Of readers that keep to their tokens, reading on leaves the same tokens over and those that came
behind. -/
theorem Extended.append_of_ok {result result' : Except ParseError (Expr × List Token)} {e : Expr}
    {rest more : List Token} (h : Extended (more.map Token.lexeme) result result')
    (hconfined : Confined stop tokens result) (hconfined' : Confined stop' (tokens ++ more) result')
    (hresult : result = .ok (e, rest)) (hmore : rest = [] → Halts (more.map Token.lexeme)) :
    result' = .ok (e, rest ++ more) := by
  obtain ⟨rest', hresult', hextends⟩ := h.ok e rest hresult hmore
  rw [hresult] at hconfined
  rw [hresult'] at hconfined'
  have hsuffix : rest ++ more <:+ tokens ++ more := by
    obtain ⟨used, rfl⟩ := hconfined
    exact ⟨used, by simp⟩
  -- Endings of one list are told apart by their lengths.
  have hlength : rest'.length = (rest ++ more).length := by
    simpa using congrArg List.length hextends
  have hle := List.suffix_of_suffix_length_le hconfined' hsuffix (Nat.le_of_eq hlength)
  rw [hresult', hle.eq_of_length hlength]

/-- **Statements in front of other tokens.** A statement is read again, and everything behind it is
left over. -/
theorem parseStatementAt_append {e : Expr} {rest more : List Token} (hsize : tokens.length ≤ size)
    (hsize' : (tokens ++ more).length ≤ size')
    (h : parseStatementAt stop size limit tokens = .ok (e, rest))
    (hmore : rest = [] → Halts (more.map Token.lexeme)) :
    parseStatementAt stop' size' limit (tokens ++ more) = .ok (e, rest ++ more) := by
  have hne : tokens ≠ [] := List.ne_nil_of_length_pos
    (Nat.lt_of_le_of_lt (Nat.zero_le _) (length_lt_of_parseStatementAt hsize h))
  have hextended : Extended (more.map Token.lexeme) (parseStatementAt stop size limit tokens)
      (parseStatementAt stop' size' limit (tokens ++ more)) :=
    extended_parseStatementAt hne hsize hsize' (extends_append tokens more)
  exact hextended.append_of_ok (confines_parseStatementAt stop size limit tokens)
    (confines_parseStatementAt stop' size' limit _) h hmore

/-- A semicolon in front of a program, which has no statements of its own. -/
theorem readStatements_semicolon_eq {fuel fuel' pos : Nat} (hsize : tokens.length ≤ size)
    (hfuel : tokens.length < fuel) (hfuel' : tokens.length ≤ fuel') :
    readStatements (parseStatementAt stop size limit) fuel (⟨.symbol .semicolon, pos⟩ :: tokens) =
      (readStatements (parseStatementAt stop size limit) fuel' tokens).map ([] ++ ·) := by
  obtain ⟨fuel, rfl⟩ : ∃ k, fuel = k + 1 := ⟨fuel - 1, by omega⟩
  have hbounds := @readStatements_bounds stop size size limit tokens fuel fuel' hsize hsize
    (by omega) hfuel'
  rw [readStatements_semicolon, hbounds]
  cases readStatements (parseStatementAt stop size limit) fuel' tokens <;> rfl

/-- **Programs in front of a semicolon.** The statements are read again, and then the rest is read
as if it stood alone. -/
theorem readStatements_append {fuel fuel' fuel'' pos : Nat} {es : List Expr} {more : List Token}
    (hsize : tokens.length ≤ size) (hsize' : tokens.length + more.length < size')
    (hfuel : tokens.length ≤ fuel) (hfuel' : tokens.length + more.length < fuel')
    (hfuel'' : more.length ≤ fuel'')
    (h : readStatements (parseStatementAt stop size limit) fuel tokens = .ok es) :
    readStatements (parseStatementAt stop' size' limit) fuel'
        (tokens ++ ⟨.symbol .semicolon, pos⟩ :: more) =
      (readStatements (parseStatementAt stop' size' limit) fuel'' more).map (es ++ ·) := by
  fun_induction readStatements (parseStatementAt stop size limit) fuel tokens
    generalizing fuel' es with
  | case1 tokens =>
    obtain rfl : tokens = [] := by simpa using hfuel
    obtain rfl : [] = es := by simpa using h
    exact readStatements_semicolon_eq (by omega) (by omega) hfuel''
  | case2 =>
    obtain rfl : [] = es := by simpa using h
    exact readStatements_semicolon_eq (by omega) (by omega) hfuel''
  | case3 fuel t rest ht ih =>
    obtain ⟨lexeme, pos'⟩ := t
    subst ht
    simp only [List.length_cons] at hsize hsize' hfuel hfuel'
    obtain ⟨fuel', rfl⟩ : ∃ k, fuel' = k + 1 := ⟨fuel' - 1, by omega⟩
    rw [List.cons_append, readStatements_semicolon]
    exact ih (by omega) (by omega) (by omega) (by omega) h
  | case4 | case5 | case6 => simp at h
  | case7 fuel t rest ht e rest₁ hstatement hend es' hmore ih =>
    obtain rfl : e :: es' = es := by simpa using h
    have hlt := length_lt_of_parseStatementAt hsize hstatement
    simp only [List.length_cons] at hsize hsize' hfuel hfuel' hlt
    obtain ⟨fuel', rfl⟩ : ∃ k, fuel' = k + 1 := ⟨fuel' - 1, by omega⟩
    have hstatement' : parseStatementAt stop' size' limit
        (t :: rest ++ ⟨.symbol .semicolon, pos⟩ :: more) =
          .ok (e, rest₁ ++ ⟨.symbol .semicolon, pos⟩ :: more) := by
      refine parseStatementAt_append hsize ?_ hstatement fun _ => halts_of_semicolon rfl
      simp only [List.length_append, List.length_cons]
      omega
    have hend' : blockingToken? (rest₁ ++ ⟨.symbol .semicolon, pos⟩ :: more) = none := by
      cases rest₁ with
      | nil => rfl
      | cons t' rest₁ => exact hend
    have hread := @ih fuel' es' (by omega) (by omega) (by omega) (by omega) hmore
    rcases hbehind : readStatements (parseStatementAt stop' size' limit) fuel'' more with err | es₁
    · rw [hbehind] at hread
      exact readStatements_of_more_error ht hstatement' hend' hread
    · rw [hbehind] at hread
      exact readStatements_of_more_ok ht hstatement' hend' hread

/-! ### Single statements -/

/-- What is read ends with an operand or a closing parenthesis, and so with no semicolon. -/
theorem Outline.exists_last {part : Part} {input rest : List Token}
    (h : Outline part input rest) :
    ∃ used t, input = used ++ t :: rest ∧ t.lexeme ≠ .symbol .semicolon := by
  induction h with
  | bang _ ih | sign _ _ ih =>
    obtain ⟨used, t, rfl, ht⟩ := ih
    exact ⟨_ :: used, t, rfl, ht⟩
  | row _ ih | unsigned _ ih | last _ ih => exact ih
  | more _ _ _ ih ihmid =>
    obtain ⟨used, t, rfl, -⟩ := ih
    obtain ⟨used', t', rfl, ht'⟩ := ihmid
    exact ⟨used ++ t :: _ :: used', t', by rw [List.append_assoc]; rfl, ht'⟩
  | assign _ _ ih =>
    obtain ⟨used, t, rfl, ht⟩ := ih
    exact ⟨_ :: _ :: used, t, rfl, ht⟩
  | @single t ht rest =>
    refine ⟨[], t, rfl, fun hlexeme => ?_⟩
    simp [hlexeme, Lexeme.isOperand] at ht
  | @group input rest pos pos' h ih =>
    obtain ⟨used, t, rfl, -⟩ := ih
    exact ⟨⟨.symbol .openParen, pos⟩ :: used ++ [t], ⟨.symbol .closeParen, pos'⟩, by simp, by simp⟩

private theorem ReadsStatement.exists_last {fits : List Token → List Token → Prop} {e : Expr}
    {input rest : List Token} (h : ReadsStatement fits input e rest) :
    ∃ used t, input = used ++ t :: rest ∧ t.lexeme ≠ .symbol .semicolon := by
  cases h with
  | declare hname h =>
    obtain ⟨used, t, rfl, ht⟩ := h.outline.exists_last
    exact ⟨_ :: _ :: _ :: used, t, rfl, ht⟩
  | comparison h => exact h.outline.exists_last

/-- A program without statements holds nothing but semicolons. -/
theorem readStatements_eq_nil_iff {statement : Reader} {fuel : Nat} (hfuel : tokens.length ≤ fuel) :
    readStatements statement fuel tokens = .ok [] ↔
      ∀ t ∈ tokens, t.lexeme = .symbol .semicolon := by
  fun_induction readStatements statement fuel tokens with
  | case1 tokens =>
    obtain rfl : tokens = [] := by simpa using hfuel
    simp
  | case2 => simp
  | case3 fuel t rest ht ih =>
    rw [ih (Nat.le_of_succ_le_succ hfuel), List.forall_mem_cons, and_iff_right ht]
  | case4 fuel t rest ht | case5 fuel t rest ht | case6 fuel t rest ht | case7 fuel t rest ht =>
    simp [ht]

/-- How many semicolons stand at the end. -/
def trailingSemicolons (tokens : List Token) : Nat :=
  (tokens.reverse.takeWhile (·.lexeme == .symbol .semicolon)).length

theorem trailingSemicolons_append {used rest : List Token} {t : Token}
    (ht : t.lexeme ≠ .symbol .semicolon) (hrest : ∀ t' ∈ rest, t'.lexeme = .symbol .semicolon) :
    trailingSemicolons (used ++ t :: rest) = rest.length := by
  have hsplit : (used ++ t :: rest).reverse = rest.reverse ++ t :: used.reverse := by simp
  rw [trailingSemicolons, hsplit, List.takeWhile_append_of_pos (by simpa using hrest),
    List.takeWhile_cons_of_neg (by simpa using ht), List.append_nil, List.length_reverse]

/-- Only the tokens in front of the first end marker count, and where it is. -/
theorem parseWithin_ofTokens (limit : Nat) (ts : List Token) :
    parseWithin limit ts = parseWithin limit
      ((ParseInput.ofTokens ts).tokens ++ [⟨.endOfInput, (ParseInput.ofTokens ts).stop⟩]) := by
  simp only [parseWithin, ofTokens_append_end fun _ => isEnd_of_mem_ofTokens]

theorem leading?_ofTokens {s : Symbol} {ts : List Token} :
    leading? (ParseInput.ofTokens ts).tokens = some s ↔ leading? ts = some s := by
  rcases ts with _ | ⟨⟨lexeme, pos⟩, rest⟩
  · rfl
  · cases lexeme <;> simp [ParseInput.ofTokens, Token.isEnd, leading?]

/-- A statement is a program of its own if nothing but semicolons stand behind it. -/
theorem readStatements_eq_singleton_iff {fuel : Nat} {e e' : Expr} {t : Token}
    {rest rest' : List Token} (hsize : (t :: rest).length ≤ size)
    (hfuel : (t :: rest).length ≤ fuel) (ht : t.lexeme ≠ .symbol .semicolon)
    (h : parseStatementAt stop size limit (t :: rest) = .ok (e', rest')) :
    readStatements (parseStatementAt stop size limit) fuel (t :: rest) = .ok [e] ↔
      e' = e ∧ ∀ t' ∈ rest', t'.lexeme = .symbol .semicolon := by
  have hlt := length_lt_of_parseStatementAt hsize h
  rw [List.length_cons] at hlt hfuel
  obtain ⟨fuel, rfl⟩ : ∃ k, fuel = k + 1 := ⟨fuel - 1, by omega⟩
  have hnil := @readStatements_eq_nil_iff rest' (parseStatementAt stop size limit) fuel (by omega)
  constructor
  · intro hread
    simp only [readStatements, ht, if_false, h] at hread
    repeat' split at hread
    all_goals simp only [Except.ok.injEq, reduceCtorEq, List.cons.injEq] at hread
    next es hmore =>
      obtain ⟨rfl, rfl⟩ := hread
      exact ⟨rfl, hnil.mp hmore⟩
  · rintro ⟨rfl, hrest⟩
    refine readStatements_of_more_ok ht h ?_ (hnil.mpr hrest)
    cases rest' with
    | nil => rfl
    | cons t' rest' => simp [blockingToken?, hrest t' (List.mem_cons_self ..)]

/-- **Single statements.** The parser for one statement reads exactly the programs of one statement
that have no semicolon in front and at most one behind. -/
theorem parseWithin_eq_ok_iff_program {ts : List Token} {e : Expr} :
    parseWithin limit ts = .ok e ↔
      parseProgramWithin limit ts = .ok [e] ∧ leading? ts ≠ some .semicolon ∧
        trailingSemicolons (ParseInput.ofTokens ts).tokens ≤ 1 := by
  rw [parseWithin_ofTokens, ne_eq, ← leading?_ofTokens, parseProgramWithin]
  have hends : ∀ t ∈ (ParseInput.ofTokens ts).tokens, t.isEnd = false :=
    fun _ => isEnd_of_mem_ofTokens
  generalize ParseInput.ofTokens ts = input at hends ⊢
  obtain ⟨tokens, stop⟩ := input
  simp only
  rcases hread : parseStatementAt stop tokens.length limit tokens with err | ⟨e', rest⟩
  · rw [parseWithin_of_error hends hread]
    refine ⟨fun h => by simp at h, ?_⟩
    rintro ⟨hprogram, hlead, -⟩
    -- Without a semicolon in front, the error of the statement is one of the program.
    rcases tokens with _ | ⟨⟨lexeme, pos⟩, more⟩
    · simp [readStatements_nil] at hprogram
    · have hlexeme : lexeme ≠ .symbol .semicolon := by
        rintro rfl
        exact hlead rfl
      have herror := (readStatements_of_error hlexeme hread).symm.trans hprogram
      simp at herror
  · have hreads := readsStatement_of_parseStatementAt (Nat.le_refl _) hread
    obtain ⟨used, last, htokens, hlast⟩ := hreads.exists_last
    obtain ⟨⟨lexeme, pos⟩, more, rfl, ht, -⟩ := hreads.exists_cons
    have hlead : leading? (⟨lexeme, pos⟩ :: more) ≠ some .semicolon := by
      intro hlead
      obtain ⟨pos', more', heq⟩ := exists_of_leading? hlead
      exact ht (congrArg Token.lexeme (List.cons.inj heq).1)
    rw [parseWithin_eq_ok_iff_of_ok hends hread,
      readStatements_eq_singleton_iff (Nat.le_refl _) (Nat.le_refl _) ht hread]
    constructor
    · rintro ⟨rfl, hrest⟩
      have hsemicolons : ∀ t' ∈ rest, t'.lexeme = .symbol .semicolon := by
        rcases hrest with rfl | ⟨pos', rfl⟩ <;> simp
      refine ⟨⟨rfl, hsemicolons⟩, hlead, ?_⟩
      rw [htokens, trailingSemicolons_append hlast hsemicolons]
      rcases hrest with rfl | ⟨pos', rfl⟩ <;> simp
    · rintro ⟨⟨rfl, hsemicolons⟩, -, htrailing⟩
      rw [htokens, trailingSemicolons_append hlast hsemicolons] at htrailing
      refine ⟨rfl, ?_⟩
      rcases rest with _ | ⟨⟨lexeme', pos'⟩, rest⟩
      · exact .inl rfl
      · obtain rfl : rest = [] := by simpa using htrailing
        obtain rfl : lexeme' = .symbol .semicolon := hsemicolons _ (List.mem_cons_self ..)
        exact .inr ⟨pos', rfl⟩

/-! ### Programs -/

/-- What stands behind tokens without an end marker decides where the input ends, if it is not
empty. -/
theorem ofTokens_append_semicolon {a b : List Token} (ha : ∀ t ∈ a, t.isEnd = false) (pos : Nat)
    (hb : b ≠ []) :
    ParseInput.ofTokens (a ++ ⟨.symbol .semicolon, pos⟩ :: b) =
      ⟨a ++ ⟨.symbol .semicolon, pos⟩ :: (ParseInput.ofTokens b).tokens,
        (ParseInput.ofTokens b).stop⟩ := by
  have hplain : Token.isEnd ⟨.symbol .semicolon, pos⟩ = false := rfl
  have hfind : a.find? Token.isEnd = none := List.find?_eq_none.mpr fun t ht => by simp [ha t ht]
  have hlast : (a ++ ⟨.symbol .semicolon, pos⟩ :: b).getLast? = b.getLast? := by
    obtain ⟨t, rest, rfl⟩ := List.exists_cons_of_ne_nil hb
    simp [List.getLast?_append, List.getLast?_cons]
  simp only [ParseInput.ofTokens, List.find?_append, hfind, List.find?_cons, hplain, hlast,
    Option.none_or, ParseInput.mk.injEq, and_true]
  rw [List.takeWhile_append_of_pos (fun t ht => by simp [ha t ht]), List.takeWhile_cons_of_pos]
  rfl

theorem ofTokens_of_forall {a : List Token} (ha : ∀ t ∈ a, t.isEnd = false) :
    (ParseInput.ofTokens a).tokens = a :=
  List.takeWhile_eq_self_iff.mpr fun t ht => by simp [ha t ht]

theorem parseProgramWithin_append_semicolon {a : List Token} {es : List Expr}
    (ha : ∀ t ∈ a, t.isEnd = false) (h : parseProgramWithin limit a = .ok es) (b : List Token)
    (pos : Nat) :
    parseProgramWithin limit (a ++ ⟨.symbol .semicolon, pos⟩ :: b) =
      (parseProgramWithin limit b).map (es ++ ·) := by
  simp only [parseProgramWithin, ofTokens_of_forall ha] at h
  by_cases hb : b = []
  · subst hb
    have hends : ∀ t ∈ a ++ [⟨.symbol .semicolon, pos⟩], t.isEnd = false := by
      simpa [or_imp, forall_and, Token.isEnd] using ha
    simp only [parseProgramWithin, ofTokens_of_forall hends]
    refine (readStatements_append (Nat.le_refl _) ?_ (Nat.le_refl _) ?_ (Nat.le_refl 0) h).trans rfl
    · simp
    · simp
  · simp only [parseProgramWithin, ofTokens_append_semicolon ha pos hb]
    generalize ParseInput.ofTokens b = input
    have hlength : (a ++ ⟨.symbol .semicolon, pos⟩ :: input.tokens).length =
        a.length + input.tokens.length + 1 := by
      simp only [List.length_append, List.length_cons]
      omega
    rw [hlength, readStatements_append (Nat.le_refl _) (Nat.lt_succ_self _) (Nat.le_refl _)
      (Nat.lt_succ_self _) (Nat.le_refl _) h]
    refine congrArg (Except.map (es ++ ·)) (readStatements_bounds ?_ (Nat.le_refl _)
      (Nat.le_refl _) (Nat.le_refl _))
    omega

/-- **Programs are joined by semicolons.** Let some tokens without an end marker be a program. Then
with a semicolon and any other tokens behind them they are one exactly if the others are, and the
statements follow each other; otherwise the error is the error of the others.

And a program of one statement is what the parser for single statements reads, if no semicolon
stands in front of it and at most one behind; it reads nothing else. -/
theorem parseProgram_append_semicolon (limit : Nat) :
    (∀ a b pos es, (∀ t ∈ a, t.isEnd = false) → parseProgramWithin limit a = .ok es →
      parseProgramWithin limit (a ++ ⟨.symbol .semicolon, pos⟩ :: b) =
        (parseProgramWithin limit b).map (es ++ ·)) ∧
    ∀ ts e, parseWithin limit ts = .ok e ↔
      parseProgramWithin limit ts = .ok [e] ∧ leading? ts ≠ some .semicolon ∧
        trailingSemicolons (ParseInput.ofTokens ts).tokens ≤ 1 :=
  ⟨fun _ b pos _ ha h => parseProgramWithin_append_semicolon ha h b pos,
    fun _ _ => parseWithin_eq_ok_iff_program⟩

/-- At `a` in front of a program with empty statements, in front of tokens that are no program, and
with one semicolon and then two behind it. -/
theorem parseProgram_append_semicolon_access :
    let a : List Token := [⟨.identifier "a", 0⟩]
    parseProgramWithin nestingLimit (a ++ ⟨.symbol .semicolon, 1⟩ :: [⟨.symbol .semicolon, 2⟩,
      ⟨.number .one, 3⟩]) = .ok [.access "a", .literal (.number .one)] ∧
    parseProgramWithin nestingLimit (a ++ ⟨.symbol .semicolon, 1⟩ :: [⟨.symbol .closeParen, 2⟩,
      ⟨.endOfInput, 3⟩]) = .error (.unexpected .expression (.symbol .closeParen) 2) ∧
    parseWithin nestingLimit (a ++ [⟨.symbol .semicolon, 1⟩]) = .ok (.access "a") ∧
    parseWithin nestingLimit (a ++ [⟨.symbol .semicolon, 1⟩, ⟨.symbol .semicolon, 2⟩]) ≠
      .ok (.access "a") := by
  intro a
  obtain ⟨hjoin, hsingle⟩ := parseProgram_append_semicolon nestingLimit
  have hends : ∀ t ∈ a, t.isEnd = false := by decide
  have ha : parseProgramWithin nestingLimit a = .ok [.access "a"] := rfl
  refine ⟨hjoin a _ 1 _ hends ha, hjoin a _ 1 _ hends ha, (hsingle _ _).mpr ?_,
    fun h => absurd ((hsingle _ _).mp h).2.2 (by decide)⟩
  exact ⟨hjoin a [] 1 _ hends ha, by decide, by decide⟩

end Expr

end Reckon
