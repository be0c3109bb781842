import Reckon.Proofs.Expr.Joining

/-!
# End markers

The end of an input can be marked by a token or by there being no more tokens. The readers of
statements make no difference between the two: each of them stops in front of a marker as it stops
at the end of the tokens, and then the end it reports is the position of the marker, not the one it
was told (`Expr.heeds_parseStatementAt`). So the step lemmas below compare a reader on tokens with a
marker behind them to the reader that ends at the marker, on the same tokens without it.
-/

namespace Reckon

namespace Expr

variable {stop pos : Nat} {after tokens : List Token}

/-! ### Results in front of a marker -/

/-- None of the tokens marks the end. -/
def Unended (tokens : List Token) : Prop := ∀ t ∈ tokens, t.isEnd = false

theorem unended_cons_iff {t : Token} : Unended (t :: tokens) ↔ t.isEnd = false ∧ Unended tokens :=
  List.forall_mem_cons

/-- An end marker at `pos` and whatever stands behind it. -/
def marker (pos : Nat) (after : List Token) : List Token := ⟨.endOfInput, pos⟩ :: after

/-- The first symbol in front of a marker is not changed by it. -/
theorem leading?_append_marker (pos : Nat) (after tokens : List Token) :
    leading? (tokens ++ marker pos after) = leading? tokens := by
  rcases tokens with _ | ⟨⟨lexeme, pos'⟩, rest⟩
  · rfl
  · cases lexeme <;> rfl

private theorem avoids_append_marker_iff {test : Symbol → Bool} :
    Avoids test (tokens ++ marker pos after) ↔ Avoids test tokens := by
  rw [Avoids, Avoids, leading?_append_marker]

/-- The result `marked` is the result `plain` with the marker behind the tokens left over. -/
def Marked (pos : Nat) (after : List Token) (marked plain : Except ParseError (Expr × List Token)) :
    Prop :=
  match plain with
  | .error err => marked = .error err
  | .ok (e, rest) => marked = .ok (e, rest ++ marker pos after) ∧ Unended rest

/-- In front of a marker, the first reader reads as the second does in front of nothing. -/
def Heeds (pos : Nat) (after : List Token) (marked plain : Reader) : Prop :=
  ∀ tokens, Unended tokens → Marked pos after (marked (tokens ++ marker pos after)) (plain tokens)

variable {marked plain : Reader}

theorem Heeds.of_error (h : Heeds pos after marked plain) (htokens : Unended tokens)
    {err : ParseError} (herr : plain tokens = .error err) :
    marked (tokens ++ marker pos after) = .error err := by
  have hmarked := h tokens htokens
  rwa [herr] at hmarked

theorem Heeds.of_ok (h : Heeds pos after marked plain) (htokens : Unended tokens) {e : Expr}
    {rest : List Token} (hok : plain tokens = .ok (e, rest)) :
    marked (tokens ++ marker pos after) = .ok (e, rest ++ marker pos after) ∧ Unended rest := by
  have hmarked := h tokens htokens
  rwa [hok] at hmarked

theorem Heeds.eq_map (h : Heeds pos after marked plain) (htokens : Unended tokens) :
    marked (tokens ++ marker pos after) =
      (plain tokens).map fun (e, left) => (e, left ++ marker pos after) := by
  rcases hplain : plain tokens with err | ⟨e, rest⟩
  · exact h.of_error htokens hplain
  · exact (h.of_ok htokens hplain).1

/-! ### Readers -/

theorem Heeds.readUnary (h : Heeds pos after marked plain) (op : Symbol) :
    Heeds pos after (readUnary op marked) (readUnary op plain) := by
  intro tokens htokens
  rcases hplain : plain tokens with err | ⟨e, rest⟩
  · simp [Expr.readUnary, hplain, h.of_error htokens hplain, Marked]
  · obtain ⟨hmarked, hrest⟩ := h.of_ok htokens hplain
    simp [Expr.readUnary, hplain, hmarked, hrest, Marked]

/-- A chain ends at a marker, since a marker joins nothing. -/
theorem Heeds.readChain (h : Heeds pos after marked plain) (joins : Symbol → Bool) (fuel : Nat)
    (left : Expr) :
    Heeds pos after (readChain joins marked fuel left) (readChain joins plain fuel left) := by
  induction fuel generalizing left with
  | zero =>
    intro tokens htokens
    exact ⟨rfl, htokens⟩
  | succ fuel ih =>
    intro tokens htokens
    rcases avoids_or_exists joins tokens with havoids | ⟨s, pos', input, hs, rfl⟩
    · rw [readChain_of_avoids havoids, readChain_of_avoids (avoids_append_marker_iff.mpr havoids)]
      exact ⟨rfl, htokens⟩
    obtain ⟨-, hinput⟩ := unended_cons_iff.mp htokens
    rw [List.cons_append]
    rcases hplain : plain input with err | ⟨right, rest⟩
    · rw [readChain_of_error hs hplain, readChain_of_error hs (h.of_error hinput hplain)]
      rfl
    · obtain ⟨hmarked, hrest⟩ := h.of_ok hinput hplain
      rw [readChain_of_ok hs hplain, readChain_of_ok hs hmarked]
      exact ih _ rest hrest

theorem Heeds.readJoined (h : Heeds pos after marked plain) (size : Nat) (joins : Symbol → Bool) :
    Heeds pos after (readJoined size joins marked) (readJoined size joins plain) := by
  intro tokens htokens
  rcases hplain : plain tokens with err | ⟨left, rest⟩
  · rw [readJoined_of_error hplain, readJoined_of_error (h.of_error htokens hplain)]
    rfl
  · obtain ⟨hmarked, hrest⟩ := h.of_ok htokens hplain
    rw [readJoined_of_ok hplain, readJoined_of_ok hmarked]
    exact h.readChain joins size left rest hrest

theorem Heeds.readPower (h : Heeds pos after marked plain) (base : Expr) :
    Heeds pos after (readPower marked base) (readPower plain base) := by
  intro tokens htokens
  by_cases hpower : leading? tokens = some .power
  · obtain ⟨pos', input, rfl⟩ := exists_of_leading? hpower
    obtain ⟨-, hinput⟩ := unended_cons_iff.mp htokens
    rw [List.cons_append]
    rcases hplain : plain input with err | ⟨e, rest⟩
    · rw [readPower_of_error hplain, readPower_of_error (h.of_error hinput hplain)]
      rfl
    · obtain ⟨hmarked, hrest⟩ := h.of_ok hinput hplain
      rw [readPower_of_ok hplain, readPower_of_ok hmarked]
      exact ⟨rfl, hrest⟩
  · have hpower' : leading? (tokens ++ marker pos after) ≠ some .power := by
      rwa [leading?_append_marker]
    rw [readPower_of_ne hpower, readPower_of_ne hpower']
    exact ⟨rfl, htokens⟩

theorem Heeds.readIdentifier (h : Heeds pos after marked plain) (name : String) (pos' : Nat) :
    Heeds pos after (readIdentifier marked name pos') (readIdentifier plain name pos') := by
  intro tokens htokens
  by_cases hassign : leading? tokens = some .assign
  · obtain ⟨pos'', input, rfl⟩ := exists_of_leading? hassign
    obtain ⟨-, hinput⟩ := unended_cons_iff.mp htokens
    rw [List.cons_append]
    cases hname : isReserved name with
    | true => simp [Expr.readIdentifier, hname, Marked]
    | false =>
      rcases hplain : plain input with err | ⟨e, rest⟩
      · rw [readIdentifier_assign_of_error hname hplain,
          readIdentifier_assign_of_error hname (h.of_error hinput hplain)]
        rfl
      · obtain ⟨hmarked, hrest⟩ := h.of_ok hinput hplain
        rw [readIdentifier_assign_of_ok hname hplain, readIdentifier_assign_of_ok hname hmarked]
        exact ⟨rfl, hrest⟩
  · have hassign' : leading? (tokens ++ marker pos after) ≠ some .assign := by
      rwa [leading?_append_marker]
    rw [readIdentifier_of_ne hassign, readIdentifier_of_ne hassign']
    cases constant? name with
    | some v => exact ⟨rfl, htokens⟩
    | none =>
      by_cases hlet : name = declareWord
      · simp [hlet, Marked]
      · simp [hlet, htokens, Marked]

/-- The end is where the marker is, also for a parenthesis that is not closed. -/
private theorem heeds_readClose (stop : Nat) (e : Expr) :
    Heeds pos after (readClose stop e) (readClose pos e) := by
  intro tokens htokens
  rcases tokens with _ | ⟨⟨lexeme, pos'⟩, rest⟩
  · rfl
  obtain ⟨hlexeme, hrest⟩ := unended_cons_iff.mp htokens
  by_cases hclose : lexeme = .symbol .closeParen
  · subst hclose
    exact ⟨rfl, hrest⟩
  · cases lexeme with
    | endOfInput => simp [Token.isEnd] at hlexeme
    | _ => simp [readClose, hclose, Marked]

theorem Heeds.readAtom (h : Heeds pos after marked plain) (stop : Nat) :
    Heeds pos after (readAtom stop marked) (readAtom pos plain) := by
  intro tokens htokens
  rcases tokens with _ | ⟨⟨lexeme, pos'⟩, input⟩
  · rfl
  obtain ⟨hlexeme, hinput⟩ := unended_cons_iff.mp htokens
  rw [List.cons_append]
  cases lexeme with
  | endOfInput => simp [Token.isEnd] at hlexeme
  | number x => exact ⟨rfl, hinput⟩
  | string s => exact ⟨rfl, hinput⟩
  | char c => exact ⟨rfl, hinput⟩
  | identifier name => exact h.readIdentifier name pos' input hinput
  | symbol s =>
    by_cases hs : s = .openParen
    · subst hs
      rcases hplain : plain input with err | ⟨e, rest⟩
      · simp [Expr.readAtom, hplain, h.of_error hinput hplain, Marked]
      · obtain ⟨hmarked, hrest⟩ := h.of_ok hinput hplain
        simp only [Expr.readAtom, if_true, hplain, hmarked]
        exact heeds_readClose stop e rest hrest
    · simp [Expr.readAtom, hs, Marked]

/-- **Levels stop at a marker.** In front of an end marker a level is read as if the tokens ended
there, whatever end the reader was told. -/
theorem heeds_parseAt (stop size depth : Nat) (level : Level) :
    Heeds pos after (parseAt stop size depth level) (parseAt pos size depth level) := by
  induction depth generalizing level with
  | zero =>
    intro tokens htokens
    rfl
  | succ depth ih =>
    intro tokens htokens
    have hstep := levelStep_parseAt pos size depth level tokens
    generalize parseAt pos size (depth + 1) level tokens = result at hstep ⊢
    -- No stage chooses by the marker: it is no operator, and all that it can begin is an error.
    cases hstep with
    | bang pos' input =>
      rw [List.cons_append, parseAt_bang]
      exact (ih .comparison).readUnary .bang input (unended_cons_iff.mp htokens).2
    | chain hchain hbang =>
      have hbang' : level = .comparison → leading? (tokens ++ marker pos after) ≠ some .bang := by
        rwa [leading?_append_marker]
      rw [parseAt_chain hchain hbang']
      exact (ih level.tighter).readJoined size level.joins tokens htokens
    | sign hop pos' input =>
      rw [List.cons_append, parseAt_sign hop]
      exact (ih .signed).readUnary _ input (unended_cons_iff.mp htokens).2
    | unsigned hplus hminus =>
      rw [← leading?_append_marker pos after] at hplus hminus
      rw [parseAt_unsigned hplus hminus]
      exact ih .power tokens htokens
    | noBase hbase => exact parseAt_power_of_error ((ih .atom).of_error htokens hbase)
    | @power _ rest base hbase =>
      obtain ⟨hmarked, hrest⟩ := (ih .atom).of_ok htokens hbase
      rw [parseAt_power_of_ok hmarked]
      exact (ih .signed).readPower base rest hrest
    | atom =>
      rw [parseAt_atom]
      exact (ih .comparison).readAtom stop tokens htokens

/-! ### Statements -/

theorem Heeds.readInit (h : Heeds pos after marked plain) (stop : Nat) (name : String) :
    Heeds pos after (readInit stop marked name) (readInit pos plain name) := by
  intro tokens htokens
  rcases tokens with _ | ⟨⟨lexeme, pos'⟩, input⟩
  · rfl
  obtain ⟨hlexeme, hinput⟩ := unended_cons_iff.mp htokens
  rw [List.cons_append]
  by_cases hassign : lexeme = .symbol .assign
  · subst hassign
    rcases hplain : plain input with err | ⟨e, rest⟩
    · simp [Expr.readInit, hplain, h.of_error hinput hplain, Marked]
    · obtain ⟨hmarked, hrest⟩ := h.of_ok hinput hplain
      simp [Expr.readInit, hplain, hmarked, hrest, Marked]
  · cases lexeme with
    | endOfInput => simp [Token.isEnd] at hlexeme
    | _ => simp [Expr.readInit, hassign, Marked]

theorem Heeds.readDeclaration (h : Heeds pos after marked plain) (stop : Nat) :
    Heeds pos after (readDeclaration stop marked) (readDeclaration pos plain) := by
  intro tokens htokens
  rcases tokens with _ | ⟨⟨lexeme, pos'⟩, input⟩
  · rfl
  obtain ⟨hlexeme, hinput⟩ := unended_cons_iff.mp htokens
  rw [List.cons_append]
  cases lexeme with
  | endOfInput => simp [Token.isEnd] at hlexeme
  | identifier name =>
    cases hname : isReserved name with
    | true => simp [Expr.readDeclaration, hname, Marked]
    | false =>
      simp only [Expr.readDeclaration, hname, Bool.false_eq_true, if_false]
      exact h.readInit stop name input hinput
  | _ => rfl

theorem Heeds.readStatement (h : Heeds pos after marked plain) (stop : Nat) :
    Heeds pos after (readStatement stop marked) (readStatement pos plain) := by
  intro tokens htokens
  by_cases hlet : ∃ pos' rest, tokens = ⟨.identifier declareWord, pos'⟩ :: rest
  · obtain ⟨pos', rest, rfl⟩ := hlet
    rw [List.cons_append, Expr.readStatement, if_pos rfl, Expr.readStatement, if_pos rfl]
    exact h.readDeclaration stop rest (unended_cons_iff.mp htokens).2
  · have hne : ∀ pos' rest,
        tokens ++ marker pos after ≠ ⟨.identifier declareWord, pos'⟩ :: rest := by
      intro pos' rest heq
      rcases List.append_eq_cons_iff.mp heq with ⟨-, hmarker⟩ | ⟨front, htokens, -⟩
      · simp [marker] at hmarker
      · exact hlet ⟨pos', front, htokens⟩
    rw [readStatement_of_ne hne, readStatement_of_ne fun pos' rest heq => hlet ⟨pos', rest, heq⟩]
    exact h tokens htokens

theorem heeds_parseStatementAt (stop size limit : Nat) :
    Heeds pos after (parseStatementAt stop size limit) (parseStatementAt pos size limit) :=
  (heeds_parseAt stop size limit .comparison).readStatement stop

/-! ### Inputs -/

/-- The position of the last token, and `0` when there is none. -/
def lastPos (tokens : List Token) : Nat := (tokens.getLast?.map Token.pos).getD 0

/-- Tokens without a marker end where the last of them starts. -/
theorem ofTokens_of_unended (htokens : Unended tokens) :
    ParseInput.ofTokens tokens = ⟨tokens, lastPos tokens⟩ := by
  have hfind : tokens.find? Token.isEnd = none :=
    List.find?_eq_none.mpr fun t ht => by simp [htokens t ht]
  have htake := ofTokens_of_forall htokens
  simp only [ParseInput.ofTokens, hfind] at htake ⊢
  rw [htake, lastPos]

end Expr

end Reckon
