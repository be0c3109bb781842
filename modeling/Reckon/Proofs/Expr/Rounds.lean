import Reckon.Proofs.Expr.Culprit
import Reckon.Proofs.Expr.Progress

/-!
# Loops of the parser

The readers of chains and of programs are told how many rounds they may make. Here their loops are
written without such a bound, and `Expr.Loops` says that one of them comes to its end. Every round
takes a token in front of the first end marker, so there are no more rounds than such tokens, and
the loops lead to what the bounded readers return.
-/

namespace Reckon

namespace Expr

variable {tokens used rest : List Token} {e : Expr} {reader operand : Reader} {level tight : Level}
  {size : Nat}

/-! ### Loops -/

/-- Rounds of `step`, from `s` on, come to an end after `n` of them and lead to `r`. -/
inductive Loops {σ ρ : Type} (step : σ → σ ⊕ ρ) : Nat → σ → ρ → Prop where
  | done {s : σ} {r : ρ} (h : step s = .inr r) : Loops step 0 s r
  | round {n : Nat} {s s' : σ} {r : ρ} (h : step s = .inl s') (hmore : Loops step n s' r) :
      Loops step (n + 1) s r

theorem Loops.congr {σ ρ : Type} {step : σ → σ ⊕ ρ} {n : Nat} {s s' : σ} {r : ρ}
    (h : Loops step n s r) (hstep : step s' = step s) : Loops step n s' r := by
  cases h with
  | done h => exact .done (hstep.trans h)
  | round h hmore => exact .round (hstep.trans h) hmore

/-- One round of the loop over the operands of a level: `left` was read so far. -/
def chainStep (joins : Symbol → Bool) (operand : Reader) :
    Expr × List Token → Expr × List Token ⊕ Except ParseError (Expr × List Token)
  | (left, ⟨.symbol s, pos⟩ :: rest) =>
    if joins s then
      match operand rest with
      | .error err => .inr (.error err)
      | .ok (right, rest') => .inl (.binary s left right, rest')
    else
      .inr (.ok (left, ⟨.symbol s, pos⟩ :: rest))
  | (left, tokens) => .inr (.ok (left, tokens))

private theorem chainStep_of_avoids {joins : Symbol → Bool} (h : Avoids joins tokens)
    (left : Expr) : chainStep joins operand (left, tokens) = .inr (.ok (left, tokens)) := by
  rcases tokens with _ | ⟨⟨lexeme, pos⟩, rest⟩
  · rfl
  · cases lexeme with
    | symbol s => simp [chainStep, h s rfl]
    | _ => rfl

/-- **The loop over operands ends.** -/
theorem Advances.loops_chain (hoperand : Advances size tight operand) (joins : Symbol → Bool)
    {fuel : Nat} (hsize : reach tokens ≤ size) (hfuel : reach tokens ≤ fuel) (left : Expr) :
    ∃ n ≤ reach tokens, Loops (chainStep joins operand) n (left, tokens)
      (readChain joins operand fuel left tokens) := by
  induction fuel generalizing tokens left with
  | zero =>
    have havoids := avoids_of_reach_eq_zero (Nat.le_zero.mp hfuel) joins
    exact ⟨0, Nat.zero_le _, .done (chainStep_of_avoids havoids left)⟩
  | succ fuel ih =>
    rcases avoids_or_exists joins tokens with havoids | ⟨s, pos, input, hs, rfl⟩
    · rw [readChain_of_avoids havoids]
      exact ⟨0, Nat.zero_le _, .done (chainStep_of_avoids havoids left)⟩
    rw [reach_cons rfl] at hsize hfuel ⊢
    rcases hop : operand input with err | ⟨right, rest⟩
    · rw [readChain_of_error hs hop]
      exact ⟨0, Nat.zero_le _, .done (by simp [chainStep, hs, hop])⟩
    · obtain ⟨used, rfl, htakes⟩ := hoperand _ _ _ (by omega) hop
      have hlt := htakes.reach_lt
      have hsize' : reach rest ≤ size := by omega
      have hfuel' : reach rest ≤ fuel := by omega
      obtain ⟨n, hn, hloops⟩ := ih hsize' hfuel' (.binary s left right)
      rw [readChain_of_ok hs hop]
      exact ⟨n + 1, by omega, .round (by simp [chainStep, hs, hop]) hloops⟩

/-- The token separates statements. -/
def isSeparator (t : Token) : Bool := t.lexeme = .symbol .semicolon

/-- One round of the loop that skips empty statements. -/
def skipStep : List Token → List Token ⊕ List Token
  | [] => .inr []
  | t :: rest => if isSeparator t then .inl rest else .inr (t :: rest)

/-- **The loop over empty statements ends.** -/
theorem loops_skip (tokens : List Token) :
    ∃ n ≤ reach tokens, Loops skipStep n tokens (tokens.dropWhile isSeparator) := by
  induction tokens with
  | nil => exact ⟨0, Nat.zero_le _, .done rfl⟩
  | cons t rest ih =>
    cases ht : isSeparator t with
    | false =>
      rw [List.dropWhile_cons_of_neg (by simp [ht])]
      exact ⟨0, Nat.zero_le _, .done (by simp [skipStep, ht])⟩
    | true =>
      obtain ⟨n, hn, hloops⟩ := ih
      have hlexeme : t.lexeme = .symbol .semicolon := by simpa [isSeparator] using ht
      have hend : t.isEnd = false := by simp [Token.isEnd, hlexeme]
      rw [List.dropWhile_cons_of_pos ht, reach_cons hend]
      exact ⟨n + 1, by omega, .round (by simp [skipStep, ht]) hloops⟩

/-- One round of the loop over the statements of a program, of which `es` were read so far: empty
statements are skipped, and then the tokens end or a statement is read. -/
def programStep (statement : Reader) :
    List Expr × List Token → List Expr × List Token ⊕ Except ParseError (List Expr)
  | (es, tokens) =>
    match tokens.dropWhile isSeparator with
    | [] => .inr (.ok es)
    | t :: rest =>
      if t.isEnd then
        .inr (.ok es)
      else
        match statement (t :: rest) with
        | .error err => .inr (.error err)
        | .ok (e, rest') =>
          match blockingToken? rest' with
          | some found => .inr (.error (.unexpected .statementEnd found.lexeme found.pos))
          | none => .inl (es ++ [e], rest')

section Program

variable {statement : Reader} {t : Token} {es : List Expr} {tail : List Token}

private theorem programStep_of_isSeparator (h : isSeparator t) (es : List Expr)
    (rest : List Token) :
    programStep statement (es, t :: rest) = programStep statement (es, rest) := by
  rw [programStep, List.dropWhile_cons_of_pos h, programStep]

private theorem programStep_of_not (statement : Reader) (h : isSeparator t = false)
    (hend : t.isEnd = false) (es : List Expr) (rest : List Token) :
    programStep statement (es, t :: rest) =
      match statement (t :: rest) with
      | .error err => .inr (.error err)
      | .ok (e, rest') =>
        match blockingToken? rest' with
        | some found => .inr (.error (.unexpected .statementEnd found.lexeme found.pos))
        | none => .inl (es ++ [e], rest') := by
  rw [programStep, List.dropWhile_cons_of_neg (by simp [h])]
  simp [hend]

private theorem programStep_of_end (h : ∀ t ∈ tail.head?, t.isEnd) :
    programStep statement (es, tail) = .inr (.ok es) := by
  rcases tail with _ | ⟨t, after⟩
  · rfl
  · have hend : t.isEnd := h t rfl
    have hlexeme : t.lexeme = .endOfInput := by simpa [Token.isEnd] using hend
    have hseparator : isSeparator t = false := by simp [isSeparator, hlexeme]
    rw [programStep, List.dropWhile_cons_of_neg (by simp [hseparator])]
    simp [hend]

private theorem blockingToken?_append (h : ∀ t ∈ tail.head?, t.isEnd) (rest : List Token) :
    blockingToken? (rest ++ tail) = blockingToken? rest := by
  rcases rest with _ | ⟨t, rest⟩
  · rcases tail with _ | ⟨t, after⟩
    · rfl
    · have hend : t.isEnd := h t rfl
      simp [blockingToken?, hend]
  · rfl

/-- The first reader stops at the tail and leaves it over, and in front of it reads as the second
one does in front of nothing. -/
def StopsAt (tail : List Token) (marked plain : Reader) : Prop :=
  ∀ tokens, Unended tokens →
    marked (tokens ++ tail) = (plain tokens).map fun (e, left) => (e, left ++ tail)

private theorem loops_program_nil {marked : Reader} (htail : ∀ t ∈ tail.head?, t.isEnd) (fuel : Nat)
    (es : List Expr) :
    Loops (programStep marked) 0 (es, tail)
      ((readStatements statement fuel []).map (es ++ ·)) := by
  rw [readStatements_nil, Except.map, List.append_nil]
  exact .done (programStep_of_end htail)

/-- **The loop over statements ends.** -/
theorem Advances.loops_program {marked : Reader} (hstatement : Advances size level statement)
    (hstops : StopsAt tail marked statement) (htail : ∀ t ∈ tail.head?, t.isEnd) {fuel : Nat}
    (htokens : Unended tokens) (hsize : tokens.length ≤ size) (hfuel : tokens.length ≤ fuel)
    (es : List Expr) :
    ∃ n ≤ tokens.length, Loops (programStep marked) n (es, tokens ++ tail)
      ((readStatements statement fuel tokens).map (es ++ ·)) := by
  induction fuel generalizing tokens es with
  | zero =>
    obtain rfl : tokens = [] := List.length_eq_zero_iff.mp (Nat.le_zero.mp hfuel)
    exact ⟨0, Nat.zero_le _, loops_program_nil htail 0 es⟩
  | succ fuel ih =>
    rcases tokens with _ | ⟨t, input⟩
    · exact ⟨0, Nat.zero_le _, loops_program_nil htail (fuel + 1) es⟩
    obtain ⟨hend, hinput⟩ := unended_cons_iff.mp htokens
    have hreach : reach (t :: input) ≤ size := Nat.le_trans List.findIdx_le_length hsize
    simp only [List.length_cons] at hsize hfuel ⊢
    by_cases hsemicolon : t.lexeme = .symbol .semicolon
    · -- An empty statement is skipped in the same round as what comes after it.
      have hseparator : isSeparator t := by simpa [isSeparator] using hsemicolon
      obtain ⟨n, hn, hloops⟩ := ih hinput (by omega) (by omega) es
      have hskip : readStatements statement (fuel + 1) (t :: input) =
          readStatements statement fuel input := by simp [readStatements, hsemicolon]
      rw [hskip]
      exact ⟨n, by omega, hloops.congr (programStep_of_isSeparator hseparator es (input ++ tail))⟩
    have hseparator : isSeparator t = false := by simpa [isSeparator] using hsemicolon
    have hstep := programStep_of_not marked hseparator hend es (input ++ tail)
    rw [← List.cons_append, hstops _ htokens] at hstep
    rcases hread : statement (t :: input) with err | ⟨e, rest⟩
    · rw [hread] at hstep
      rw [readStatements_of_error hsemicolon hread]
      exact ⟨0, Nat.zero_le _, .done hstep⟩
    simp only [hread, Except.map, blockingToken?_append htail] at hstep
    -- A statement takes a token at least, so the rounds left are enough for the tokens left.
    rcases hblocking : blockingToken? rest with _ | found
    · obtain ⟨used, heq, htakes⟩ := hstatement _ _ _ hreach hread
      have hlength := congrArg List.length heq
      have hpos := List.length_pos_iff.mpr htakes.ne_nil
      rw [List.length_cons, List.length_append] at hlength
      have hrest : Unended rest := (List.forall_mem_append.mp (heq ▸ htokens)).2
      obtain ⟨n, hn, hloops⟩ := ih hrest (by omega) (by omega) (es ++ [e])
      rw [hblocking] at hstep
      refine ⟨n + 1, by omega, .round hstep ?_⟩
      have hmap : ((readStatements statement fuel rest).map (e :: ·)).map (es ++ ·) =
          (readStatements statement fuel rest).map (es ++ [e] ++ ·) := by
        cases readStatements statement fuel rest <;> simp [Except.map]
      rwa [readStatements_eq_map hsemicolon hread hblocking, hmap]
    · rw [hblocking] at hstep
      refine ⟨0, Nat.zero_le _, .done ?_⟩
      simp only [hstep, readStatements, hsemicolon, if_false, hread, hblocking, Except.map]

theorem stopsAt_nil (reader : Reader) : StopsAt [] reader reader := by
  intro tokens _
  rw [List.append_nil]
  rcases reader tokens with err | ⟨e, left⟩ <;> simp [Except.map]

end Program

/-! ### The whole parser -/

/-- Tokens have no end marker, or they go up to the first one. -/
theorem exists_unended (ts : List Token) :
    ∃ body, Unended body ∧ (ts = body ∨ ∃ pos after, ts = body ++ marker pos after) := by
  refine ⟨ts.takeWhile (!·.isEnd), fun t ht => by simpa using List.mem_takeWhile_imp ht, ?_⟩
  have hsplit : ts = ts.takeWhile (!·.isEnd) ++ ts.dropWhile (!·.isEnd) :=
    List.takeWhile_append_dropWhile.symm
  have hhead := List.head?_dropWhile_not (!·.isEnd) ts
  rcases hdrop : ts.dropWhile (!·.isEnd) with _ | ⟨⟨lexeme, pos⟩, after⟩
  · rw [hdrop, List.append_nil] at hsplit
    exact .inl hsplit
  · rw [hdrop] at hsplit hhead
    obtain rfl : lexeme = .endOfInput := by simpa [Token.isEnd] using hhead
    exact .inr ⟨pos, after, hsplit⟩

/-- The parser cuts tokens off at the first end marker. The rest of them does not matter to a
statement. -/
private theorem exists_tail (ts : List Token) :
    ∃ tail, ts = (ParseInput.ofTokens ts).tokens ++ tail ∧
      Unended (ParseInput.ofTokens ts).tokens ∧ (∀ t ∈ tail.head?, t.isEnd) ∧
      ∀ size limit, StopsAt tail (parseStatementAt (ParseInput.ofTokens ts).stop size limit)
        (parseStatementAt (ParseInput.ofTokens ts).stop size limit) := by
  obtain ⟨body, hbody, rfl | ⟨pos, after, rfl⟩⟩ := exists_unended ts
  · rw [ofTokens_of_unended hbody]
    exact ⟨[], (List.append_nil _).symm, hbody, by simp, fun size limit => stopsAt_nil _⟩
  · rw [marker, ofTokens_append_end hbody]
    refine ⟨marker pos after, rfl, hbody, by simp [marker, Token.isEnd], fun size limit => ?_⟩
    intro tokens htokens
    exact (heeds_parseStatementAt pos size limit).eq_map htokens

theorem length_ofTokens (ts : List Token) : (ParseInput.ofTokens ts).tokens.length = reach ts := by
  obtain ⟨tail, hts, hunended, htail, -⟩ := exists_tail ts
  have hreach := reach_append hunended tail
  rw [← hts] at hreach
  have hzero : reach tail = 0 := by
    rcases tail with _ | ⟨t, after⟩
    · rfl
    · rw [reach, List.findIdx_cons, htail t rfl, cond_true]
  omega

/-- The routines of the parser: one for statements, and one for every level of expressions. -/
inductive Routine where
  | statement
  | expression (level : Level)

namespace Routine

/-- The loosest level that the routine reads. -/
def loosest : Routine → Level
  | statement => .comparison
  | expression level => level

/-- The routine on the tokens `ts`, when `limit` levels may still be opened. It is run on what `ts`
holds from the cursor on. -/
def run (ts : List Token) (limit : Nat) : Routine → Reader
  | statement => parseStatementAt (ParseInput.ofTokens ts).stop (reach ts) limit
  | expression level => parseAt (ParseInput.ofTokens ts).stop (reach ts) limit level

theorem advances (ts : List Token) (limit : Nat) (routine : Routine) :
    Advances (reach ts) routine.loosest (routine.run ts limit) := by
  cases routine with
  | statement => exact advances_parseStatementAt _ _ _
  | expression level => exact advances_parseAt _ _ _ level

end Routine

/-- **The loop over statements leads to the program.** -/
theorem loops_parseProgramWithin (limit : Nat) (ts : List Token) :
    ∃ n ≤ reach ts, Loops (programStep (Routine.statement.run ts limit)) n ([], ts)
      (parseProgramWithin limit ts) := by
  obtain ⟨tail, hts, hunended, htail, hstops⟩ := exists_tail ts
  have hlength := length_ofTokens ts
  have hle := Nat.le_of_eq hlength
  obtain ⟨n, hn, hloops⟩ := (Routine.advances ts limit .statement).loops_program
    (hstops (reach ts) limit) htail hunended hle hle []
  have hprogram : parseProgramWithin limit ts =
      (readStatements (Routine.statement.run ts limit) (reach ts)
        (ParseInput.ofTokens ts).tokens).map ([] ++ ·) := by
    rw [parseProgramWithin]
    simp only [hlength, Routine.run, List.nil_append]
    cases readStatements _ _ _ <;> rfl
  rw [← hts, ← hprogram] at hloops
  exact ⟨n, by omega, hloops⟩

/-- The reader was started at the token `i` of `ts`, has made `e` of the tokens and stands at the
token `j`. -/
structure Moved (reader : Reader) (level : Level) (ts : List Token) (i j : Nat) (e : Expr) :
    Prop where
  lt : i < j
  le_reach : j ≤ reach ts
  le_length : j ≤ ts.length
  /-- No operator of the level or of a tighter one comes next. -/
  operators : ∀ s, leading? (ts.drop j) = some s → ∀ tight : Level, level.rank ≤ tight.rank →
    tight.joins s = false
  power : level ≠ .atom → leading? (ts.drop j) ≠ some .power
  /-- A name that was read last is not assigned to. -/
  names : ∀ name pos, ts[j - 1]? = some ⟨.identifier name, pos⟩ →
    leading? (ts.drop j) ≠ some .assign
  /-- Whatever stands behind the next token, `e` ends in front of it. -/
  settled : ∀ other, other.head? = (ts.drop j).head? →
    reader ((ts.drop i).take (j - i) ++ other) = .ok (e, other)

private theorem Level.joins_eq_false {s : Symbol} (h : level.covers s = false)
    (hrank : level.rank ≤ tight.rank) : tight.joins s = false := by
  have htight := covers_eq_false_of_rank_le hrank h
  by_cases hchain : tight.isChain
  · rw [covers_eq_of_isChain hchain, Bool.or_eq_false_iff] at htight
    exact htight.1
  · cases tight <;> simp [isChain] at hchain <;> rfl

private theorem Level.covers_power_of_ne_atom (h : level ≠ .atom) : level.covers .power := by
  cases level <;> first | rfl | exact absurd rfl h

theorem Takes.moved {ts : List Token} {i : Nat} (h : Takes reader level used e rest)
    (hi : i ≤ reach ts) (hts : ts.drop i = used ++ rest) :
    ∃ j, rest = ts.drop j ∧ Moved reader level ts i j e := by
  have hreach := reach_drop hi
  rw [hts, reach_append h.unended] at hreach
  have hpos := List.length_pos_iff.mpr h.ne_nil
  have hle : i + used.length ≤ reach ts := by omega
  have hrest : rest = ts.drop (i + used.length) := by rw [← List.drop_drop, hts, List.drop_left]
  refine ⟨i + used.length, hrest, ?_⟩
  exact {
    lt := by omega
    le_reach := hle
    le_length := Nat.le_trans hle List.findIdx_le_length
    operators := fun s hs tight hrank => by
      rw [← hrest] at hs
      exact Level.joins_eq_false (h.covers s hs) hrank
    power := fun hatom hpower => by
      rw [← hrest] at hpower
      have hcovers := h.covers .power hpower
      rw [Level.covers_power_of_ne_atom hatom] at hcovers
      simp at hcovers
    names := fun name pos hlast => by
      rw [← hrest]
      refine h.names name pos ?_
      have hplace : i + used.length - 1 = i + (used.length - 1) := by omega
      rwa [hplace, ← List.getElem?_drop, hts, List.getElem?_append_left (by omega),
        ← List.getLast?_eq_getElem?] at hlast
    settled := fun other hother => by
      rw [← hrest] at hother
      rw [Nat.add_sub_cancel_left, hts, List.take_left]
      exact h.settled other hother }

/-- **Progress.** A routine that is started at a cursor in front of the first end marker, or at it,
and returns a tree has moved the cursor forward, not past the marker, and stands at a token that
cannot extend what it read. So all loops of the parser end: those over the operands of a level,
those over empty statements and the one over statements, which leads to the program. -/
theorem parser_advances (limit : Nat) (ts : List Token) :
    (∀ (routine : Routine) (i : Nat) (e : Expr) (rest : List Token), i ≤ reach ts →
      routine.run ts limit (ts.drop i) = .ok (e, rest) →
      ∃ j, rest = ts.drop j ∧ Moved (routine.run ts limit) routine.loosest ts i j e) ∧
    (∀ (level : Level) (left : Expr) (i : Nat), i ≤ reach ts →
      let operand := (Routine.expression level.tighter).run ts limit
      ∃ n ≤ reach ts - i, Loops (chainStep level.joins operand) n (left, ts.drop i)
        (readChain level.joins operand (reach ts) left (ts.drop i))) ∧
    (∀ i ≤ reach ts, ∃ n ≤ reach ts - i,
      Loops skipStep n (ts.drop i) ((ts.drop i).dropWhile isSeparator)) ∧
    ∃ n ≤ reach ts, Loops (programStep (Routine.statement.run ts limit)) n ([], ts)
      (parseProgramWithin limit ts) := by
  refine ⟨?_, ?_, ?_, ?_⟩
  · intro routine i e rest hi h
    have hreach := reach_drop hi
    obtain ⟨used, hts, htakes⟩ := routine.advances ts limit _ _ _ (by omega) h
    exact htakes.moved hi hts
  · intro level left i hi operand
    have hreach := reach_drop hi
    have hle : reach (ts.drop i) ≤ reach ts := by omega
    obtain ⟨n, hn, hloops⟩ := (Routine.advances ts limit (.expression level.tighter)).loops_chain
      level.joins hle hle left
    exact ⟨n, by omega, hloops⟩
  · intro i hi
    have hreach := reach_drop hi
    obtain ⟨n, hn, hloops⟩ := loops_skip (ts.drop i)
    exact ⟨n, by omega, hloops⟩
  · exact loops_parseProgramWithin limit ts

/-- Behind a power whose exponent assigns a sum, in front of an end marker and a parenthesis. -/
theorem parser_advances_assigned_exponent :
    let ts : List Token := [⟨.identifier "a", 0⟩, ⟨.symbol .power, 2⟩, ⟨.identifier "b", 5⟩,
      ⟨.symbol .assign, 7⟩, ⟨.identifier "c", 9⟩, ⟨.symbol .plus, 11⟩, ⟨.identifier "d", 13⟩,
      ⟨.endOfInput, 14⟩, ⟨.symbol .closeParen, 15⟩]
    let e : Expr := .binary .power (.access "a")
      (.assign "b" (.binary .plus (.access "c") (.access "d")))
    ∃ j, ts.drop 7 = ts.drop j ∧
      Moved ((Routine.expression .power).run ts 20) .power ts 0 j e := by
  intro ts e
  exact (parser_advances 20 ts).1 (.expression .power) 0 e (ts.drop 7) (by decide) rfl

end Expr

end Reckon
