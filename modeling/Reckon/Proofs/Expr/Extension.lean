import Reckon.Proofs.Expr.Sentence

/-!
# Reading on

What the parser makes of some tokens settles a good deal of what it makes of the same tokens with
others behind them. `Expr.Extended` says how much:

* a result that leaves tokens over stays as it is, because the parser has seen where to stop; a
  result that leaves nothing over stays as it is in front of anything that carries no expression on;
* an error that is no complaint about the end of the input is there for good, though it can become
  another one: `1 + let` is a misplaced word, and `1 + let = 2` a reserved one;
* a complaint about the end of the input turns into another error in front of a semicolon.

The parser never looks at positions, so the tokens in question are compared by what they say only
(`Expr.Extends`). The relation is shown of every level, where it is carried through the depth, and
then of statements and programs.
-/

namespace Reckon

namespace Expr

/-! ### Tokens with others behind them -/

/-- `tokens'` says what `tokens` says, and then `us`. -/
def Extends (us : List Lexeme) (tokens tokens' : List Token) : Prop :=
  tokens'.map Token.lexeme = tokens.map Token.lexeme ++ us

/-- No expression is carried on by what `us` starts with. -/
def Halts (us : List Lexeme) : Prop :=
  ∀ s, us.head? = some (.symbol s) → Level.comparison.continues s = false

variable {us : List Lexeme} {tokens tokens' : List Token}

theorem extends_append (tokens more : List Token) :
    Extends (more.map Token.lexeme) tokens (tokens ++ more) := List.map_append

theorem extends_nil_iff : Extends us [] tokens' ↔ tokens'.map Token.lexeme = us := Iff.rfl

theorem extends_cons_iff {lexeme : Lexeme} {pos : Nat} :
    Extends us (⟨lexeme, pos⟩ :: tokens) tokens' ↔
      ∃ pos' more, tokens' = ⟨lexeme, pos'⟩ :: more ∧ Extends us tokens more := by
  constructor
  · intro h
    obtain ⟨⟨_, pos'⟩, more, rfl, rfl, hmore⟩ := List.map_eq_cons_iff.mp h
    exact ⟨pos', more, rfl, hmore⟩
  · rintro ⟨pos', more, rfl, hmore⟩
    exact congrArg (lexeme :: ·) hmore

theorem extends_nil_cons_iff {lexeme : Lexeme} :
    Extends (lexeme :: us) [] tokens' ↔
      ∃ pos rest, tokens' = ⟨lexeme, pos⟩ :: rest ∧ Extends us [] rest := by
  constructor
  · intro h
    obtain ⟨⟨_, pos⟩, rest, rfl, rfl, hrest⟩ := List.map_eq_cons_iff.mp h
    exact ⟨pos, rest, rfl, hrest⟩
  · rintro ⟨pos, rest, rfl, hrest⟩
    exact congrArg (lexeme :: ·) hrest

/-- The first symbol is where it was. -/
theorem Extends.leading?_eq (h : Extends us tokens tokens') (hne : tokens ≠ []) :
    leading? tokens' = leading? tokens := by
  obtain ⟨⟨lexeme, pos⟩, rest, rfl⟩ := List.exists_cons_of_ne_nil hne
  obtain ⟨pos', more, rfl, -⟩ := extends_cons_iff.mp h
  cases lexeme <;> rfl

theorem Halts.stops (hhalts : Halts us) (h : Extends us [] tokens') : Stops tokens' := by
  intro s hs
  obtain ⟨pos, rest, rfl⟩ := exists_of_leading? hs
  rw [extends_nil_iff] at h
  subst h
  exact hhalts s rfl

theorem halts_nil : Halts [] := by
  intro s hs
  simp at hs

theorem halts_of_semicolon (h : us.head? = some (.symbol .semicolon)) : Halts us := by
  intro s hs
  obtain rfl : Symbol.semicolon = s := by simpa [h] using hs
  rfl

private theorem Extends.exists_semicolon (h : Extends us [] tokens')
    (hus : us.head? = some (.symbol .semicolon)) :
    ∃ pos rest, tokens' = ⟨.symbol .semicolon, pos⟩ :: rest := by
  rw [extends_nil_iff] at h
  subst h
  rcases tokens' with _ | ⟨⟨lexeme, pos⟩, rest⟩
  · simp at hus
  · obtain rfl : lexeme = .symbol .semicolon := by simpa using hus
    exact ⟨pos, rest, rfl⟩

theorem avoids_beq_iff {s : Symbol} : Avoids (· == s) tokens ↔ leading? tokens ≠ some s := by
  constructor
  · intro h hs
    simpa using h s hs
  · intro h s' hs'
    rw [beq_eq_false_iff_ne]
    rintro rfl
    exact h hs'

/-- A symbol that would carry the expression on is seen where it was not there before only if all
tokens are used up and `us` starts with one. -/
theorem Extends.avoids {test : Symbol → Bool} (h : Extends us tokens tokens')
    (htest : ∀ s, test s → Level.comparison.continues s) (havoids : Avoids test tokens) :
    Avoids test tokens' ∨ (tokens = [] ∧ ¬Halts us) := by
  by_cases hne : tokens = []
  · subst hne
    by_cases hhalts : Halts us
    · refine .inl ((hhalts.stops h).imp fun s hs => ?_)
      rw [Bool.eq_false_iff]
      intro hpass
      simp [htest s hpass] at hs
    · exact .inr ⟨rfl, hhalts⟩
  · refine .inl fun s hs => havoids s ?_
    rwa [← h.leading?_eq hne]

/-! ### Results with more tokens behind -/

/-- How a result on some tokens bears on the result on the same tokens with `us` behind them. -/
structure Extended (us : List Lexeme) (result result' : Except ParseError (Expr × List Token)) :
    Prop where
  /-- What was read with tokens left over, or in front of something that halts, is read again. -/
  ok : ∀ e rest, result = .ok (e, rest) → (rest = [] → Halts us) →
    ∃ rest', result' = .ok (e, rest') ∧ Extends us rest rest'
  /-- What more tokens could not mend, they do not mend. -/
  final : ∀ err, result = .error err → err.isIncomplete = false →
    ∃ err', result' = .error err' ∧ err'.isIncomplete = false
  /-- A semicolon mends nothing. -/
  refused : ∀ err, result = .error err → us.head? = some (.symbol .semicolon) →
    ∃ err', result' = .error err'

/-- Nothing is settled by the result: all tokens were read, or they ended too soon. -/
def Unsettled (result : Except ParseError (Expr × List Token)) : Prop :=
  (∃ e, result = .ok (e, [])) ∨ ∃ err, result = .error err ∧ err.isIncomplete

namespace Extended

variable {result result' first first' : Except ParseError (Expr × List Token)}
  {e : Expr} {rest rest' : List Token} {err err' : ParseError}

theorem of_ok (h : Extends us rest rest') : Extended us (.ok (e, rest)) (.ok (e, rest')) where
  ok e' more heq _ := by
    obtain ⟨rfl, rfl⟩ : e = e' ∧ rest = more := by simpa using heq
    exact ⟨rest', rfl, h⟩
  final err heq := by simp at heq
  refused err heq := by simp at heq

private theorem of_final (h : err'.isIncomplete = false) :
    Extended us (.error err) (.error err') where
  ok e more heq := by simp at heq
  final _ _ _ := ⟨err', rfl, h⟩
  refused _ _ _ := ⟨err', rfl⟩

/-- After a complaint about the end of the input, only a semicolon has to be looked at. -/
theorem of_incomplete (h : err.isIncomplete)
    (hrefused : us.head? = some (.symbol .semicolon) → ∃ err', result' = .error err') :
    Extended us (.error err) result' where
  ok e more heq := by simp at heq
  final err' heq hfinal := by
    obtain rfl : err = err' := by simpa using heq
    simp [h] at hfinal
  refused _ _ := hrefused

/-- Where `us` carries on, an unsettled result says nothing. -/
theorem of_unsettled (h : Unsettled result) (hhalts : ¬Halts us) : Extended us result result' := by
  rcases h with ⟨e, rfl⟩ | ⟨err, rfl, herr⟩
  · refine ⟨fun e' more heq hrest => ?_, fun err heq => ?_, fun err heq => ?_⟩
    · obtain ⟨rfl, rfl⟩ : e = e' ∧ [] = more := by simpa using heq
      exact absurd (hrest rfl) hhalts
    · simp at heq
    · simp at heq
  · exact of_incomplete herr fun hus => absurd (halts_of_semicolon hus) hhalts

theorem error (h : Extended us (.error err) result')
    (hus : err.isIncomplete = false ∨ us.head? = some (.symbol .semicolon)) :
    ∃ err', result' = .error err' ∧ (err.isIncomplete = false → err'.isIncomplete = false) := by
  cases hfinal : err.isIncomplete with
  | false =>
    obtain ⟨err', herr', hfinal'⟩ := h.final err rfl hfinal
    exact ⟨err', herr', fun _ => hfinal'⟩
  | true =>
    obtain ⟨err', herr'⟩ := h.refused err rfl (hus.resolve_left (by simp [hfinal]))
    exact ⟨err', herr', fun hfalse => by simp at hfalse⟩

/-- **Sequencing.** A result that is made from a first one: its errors are passed on, what it read
is carried further, and if it read everything then nothing is settled afterwards either. -/
theorem andThen (h : Extended us first first')
    (herror : ∀ err, first = .error err → result = .error err)
    (herror' : ∀ err, first' = .error err → result' = .error err)
    (hok : ∀ e rest rest', first = .ok (e, rest) → first' = .ok (e, rest') →
      Extends us rest rest' → Extended us result result')
    (hlast : ∀ e, first = .ok (e, []) → Unsettled result) : Extended us result result' := by
  rcases hfirst : first with err | ⟨e, rest⟩
  · rw [herror err hfirst]
    refine ⟨fun e rest heq => by simp at heq, fun err₁ heq hfinal => ?_, fun err₁ heq hus => ?_⟩
    · obtain rfl : err = err₁ := by simpa using heq
      obtain ⟨err', herr', hfinal'⟩ := h.final err hfirst hfinal
      exact ⟨err', herror' err' herr', hfinal'⟩
    · obtain ⟨err', herr'⟩ := h.refused err hfirst hus
      exact ⟨err', herror' err' herr'⟩
  · by_cases hrest : rest = [] → Halts us
    · obtain ⟨rest', hfirst', hextends⟩ := h.ok e rest hfirst hrest
      exact hok e rest rest' hfirst hfirst' hextends
    · obtain ⟨rfl, hhalts⟩ : rest = [] ∧ ¬Halts us := by simpa using hrest
      exact of_unsettled (hlast e hfirst) hhalts

theorem readUnary {operand operand' : Reader} (op : Symbol)
    (h : Extended us (operand tokens) (operand' tokens')) :
    Extended us (readUnary op operand tokens) (readUnary op operand' tokens') := by
  refine h.andThen (fun _ => readUnary_eq_error_iff.mpr) (fun _ => readUnary_eq_error_iff.mpr)
    (fun e rest rest' hok hok' hextends => ?_) fun e hok => ?_
  · rw [readUnary_eq_ok_iff.mpr ⟨e, hok, rfl⟩, readUnary_eq_ok_iff.mpr ⟨e, hok', rfl⟩]
    exact of_ok hextends
  · exact .inl ⟨_, readUnary_eq_ok_iff.mpr ⟨e, hok, rfl⟩⟩

end Extended

/-! ### Readers -/

variable {stop stop' size size' depth : Nat}

/-- Chains: each operand is read again, and the chain ends where it did unless a symbol that joins
has come in behind it. -/
private theorem extended_readChain {joins : Symbol → Bool} {operand operand' : Reader}
    (hjoins : ∀ s, joins s → Level.comparison.continues s) (hshortens : Shortens operand)
    (hshortens' : Shortens operand') {fuel fuel' : Nat} {left : Expr}
    (hoperand : ∀ input input', input.length < tokens.length → input'.length < tokens'.length →
      Extends us input input' → Extended us (operand input) (operand' input'))
    (hfuel : tokens.length ≤ fuel) (hfuel' : tokens'.length ≤ fuel')
    (h : Extends us tokens tokens') :
    Extended us (readChain joins operand fuel left tokens)
      (readChain joins operand' fuel' left tokens') := by
  induction fuel generalizing left tokens tokens' fuel' with
  | zero =>
    obtain rfl : tokens = [] := by simpa using hfuel
    rw [readChain_of_avoids (avoids_nil _)]
    rcases h.avoids hjoins (avoids_nil _) with havoids | ⟨-, hhalts⟩
    · rw [readChain_of_avoids havoids]
      exact .of_ok h
    · exact .of_unsettled (.inl ⟨left, rfl⟩) hhalts
  | succ fuel ih =>
    rcases avoids_or_exists joins tokens with havoids | ⟨s, pos, input, hs, rfl⟩
    · rw [readChain_of_avoids havoids]
      rcases h.avoids hjoins havoids with havoids' | ⟨rfl, hhalts⟩
      · rw [readChain_of_avoids havoids']
        exact .of_ok h
      · exact .of_unsettled (.inl ⟨left, rfl⟩) hhalts
    · obtain ⟨pos', input', rfl, hinput⟩ := extends_cons_iff.mp h
      simp only [List.length_cons] at hfuel hfuel' hoperand
      obtain ⟨fuel', rfl⟩ : ∃ k, fuel' = k + 1 := ⟨fuel' - 1, by omega⟩
      have hfirst := hoperand input input' (by omega) (by omega) hinput
      refine hfirst.andThen (fun _ herr => readChain_of_error hs herr fuel pos)
        (fun _ herr => readChain_of_error hs herr fuel' pos')
        (fun right rest rest' hok hok' hrest => ?_) fun right hok => ?_
      · rw [readChain_of_ok hs hok, readChain_of_ok hs hok']
        have hlt := hshortens _ _ _ hok
        have hlt' := hshortens' _ _ _ hok'
        exact ih (fun mid mid' hmid hmid' => hoperand mid mid' (by omega) (by omega)) (by omega)
          (by omega) hrest
      · rw [readChain_of_ok hs hok, readChain_of_avoids (avoids_nil _)]
        exact .inl ⟨_, rfl⟩

private theorem extended_readPower {exponent exponent' : Reader} {base : Expr}
    (hexponent : ∀ input input', input.length < tokens.length → input'.length < tokens'.length →
      Extends us input input' → Extended us (exponent input) (exponent' input'))
    (h : Extends us tokens tokens') :
    Extended us (readPower exponent base tokens) (readPower exponent' base tokens') := by
  by_cases hpower : leading? tokens = some .power
  · obtain ⟨pos, input, rfl⟩ := exists_of_leading? hpower
    obtain ⟨pos', input', rfl, hinput⟩ := extends_cons_iff.mp h
    refine (hexponent input input' (by simp) (by simp) hinput).andThen
      (fun _ herr => readPower_of_error herr pos) (fun _ herr => readPower_of_error herr pos')
      (fun e rest rest' hok hok' hrest => ?_) fun e hok => ?_
    · rw [readPower_of_ok hok, readPower_of_ok hok']
      exact .of_ok hrest
    · exact .inl ⟨_, readPower_of_ok hok pos⟩
  · have hcontinues : ∀ s : Symbol, s == .power → Level.comparison.continues s := by
      simp [Level.continues, Level.covers_comparison, Symbol.level?]
    rw [readPower_of_ne hpower]
    rcases h.avoids hcontinues (avoids_beq_iff.mpr hpower) with havoids' | ⟨rfl, hhalts⟩
    · rw [readPower_of_ne (avoids_beq_iff.mp havoids')]
      exact .of_ok h
    · exact .of_unsettled (.inl ⟨base, rfl⟩) hhalts

/-- Behind an identifier, a `=` that comes in late makes a target of it. A constant or the word
`let` is none, but the latter was an error before. -/
private theorem extended_readIdentifier {value value' : Reader} {name : String} {pos pos' : Nat}
    (hvalue : ∀ input input', input.length < tokens.length → input'.length < tokens'.length →
      Extends us input input' → Extended us (value input) (value' input'))
    (h : Extends us tokens tokens') :
    Extended us (readIdentifier value name pos tokens)
      (readIdentifier value' name pos' tokens') := by
  by_cases hassign : leading? tokens = some .assign
  · obtain ⟨pos₁, input, rfl⟩ := exists_of_leading? hassign
    obtain ⟨pos₂, input', rfl, hinput⟩ := extends_cons_iff.mp h
    cases hname : isReserved name with
    | true =>
      simp only [readIdentifier, hname, if_true]
      exact .of_final rfl
    | false =>
      refine (hvalue input input' (by simp) (by simp) hinput).andThen
        (fun _ herr => readIdentifier_assign_of_error hname herr)
        (fun _ herr => readIdentifier_assign_of_error hname herr)
        (fun e rest rest' hok hok' hrest => ?_) fun e hok => ?_
      · rw [readIdentifier_assign_of_ok hname hok, readIdentifier_assign_of_ok hname hok']
        exact .of_ok hrest
      · exact .inl ⟨_, readIdentifier_assign_of_ok hname hok⟩
  · have hcontinues : ∀ s : Symbol, s == .assign → Level.comparison.continues s := by
      simp [Level.continues]
    rw [readIdentifier_of_ne hassign]
    rcases h.avoids hcontinues (avoids_beq_iff.mpr hassign) with havoids' | ⟨rfl, hhalts⟩
    · rw [readIdentifier_of_ne (avoids_beq_iff.mp havoids')]
      cases constant? name with
      | some v => exact .of_ok h
      | none =>
        by_cases hlet : name = declareWord
        · simp only [if_pos hlet]
          exact .of_final rfl
        · simp only [if_neg hlet]
          exact .of_ok h
    · cases hword : constant? name with
      | some v => exact .of_unsettled (.inl ⟨_, rfl⟩) hhalts
      | none =>
        by_cases hlet : name = declareWord
        · -- The word is misplaced, and reserved if a `=` follows it. There is no way out.
          subst hlet
          simp only [if_true]
          by_cases hassign' : leading? tokens' = some .assign
          · obtain ⟨pos₂, input', rfl⟩ := exists_of_leading? hassign'
            exact .of_final rfl
          · rw [readIdentifier_of_ne hassign', hword]
            exact .of_final rfl
        · simp only [if_neg hlet]
          exact .of_unsettled (.inl ⟨_, rfl⟩) hhalts

private theorem extended_readClose {e : Expr} (h : Extends us tokens tokens') :
    Extended us (readClose stop e tokens) (readClose stop' e tokens') := by
  rcases tokens with _ | ⟨⟨lexeme, pos⟩, rest⟩
  · refine .of_incomplete rfl fun hus => ?_
    obtain ⟨pos, rest, rfl⟩ := h.exists_semicolon hus
    exact ⟨_, rfl⟩
  · obtain ⟨pos', rest', rfl, hrest⟩ := extends_cons_iff.mp h
    by_cases hclose : lexeme = .symbol .closeParen
    · subst hclose
      exact .of_ok hrest
    · cases lexeme with
      | endOfInput => exact .of_incomplete rfl fun _ => ⟨_, rfl⟩
      | _ =>
        simp only [readClose, if_neg hclose]
        exact .of_final rfl

private theorem extended_readAtom {inner inner' : Reader}
    (hinner : ∀ input input', input.length < tokens.length → input'.length < tokens'.length →
      Extends us input input' → Extended us (inner input) (inner' input'))
    (h : Extends us tokens tokens') :
    Extended us (readAtom stop inner tokens) (readAtom stop' inner' tokens') := by
  rcases tokens with _ | ⟨⟨lexeme, pos⟩, input⟩
  · refine .of_incomplete rfl fun hus => ?_
    obtain ⟨pos, rest, rfl⟩ := h.exists_semicolon hus
    exact ⟨_, rfl⟩
  · obtain ⟨pos', input', rfl, hinput⟩ := extends_cons_iff.mp h
    simp only [List.length_cons] at hinner
    cases lexeme with
    | endOfInput => exact .of_incomplete rfl fun _ => ⟨_, rfl⟩
    | number x => exact .of_ok hinput
    | string s => exact .of_ok hinput
    | char c => exact .of_ok hinput
    | identifier name =>
      refine extended_readIdentifier (fun more more' hlt hlt' => ?_) hinput
      exact hinner more more' (by omega) (by omega)
    | symbol s =>
      by_cases hs : s = .openParen
      · subst hs
        refine (hinner input input' (by omega) (by omega) hinput).andThen
          (fun err herr => by simp [readAtom, herr]) (fun err herr => by simp [readAtom, herr])
          (fun e rest rest' hok hok' hrest => ?_) fun e hok => ?_
        · simp only [readAtom, if_true, hok, hok']
          exact extended_readClose hrest
        · -- The group ends with the tokens, so the parenthesis is what is missing.
          simp only [readAtom, if_true, hok]
          exact .inr ⟨_, rfl, rfl⟩
      · simp only [readAtom, if_neg hs]
        exact .of_final rfl

/-! ### Levels -/

/-- From any level it takes all levels down to the atoms to read anything. -/
theorem parseAt_of_lt {level : Level} (h : depth + level.rank < 10) :
    parseAt stop size depth level tokens = .error .nestingTooDeep := by
  induction depth generalizing level tokens with
  | zero => rfl
  | succ depth ih =>
    have hstep := levelStep_parseAt stop size depth level tokens
    generalize parseAt stop size (depth + 1) level tokens = result at hstep ⊢
    cases hstep with
    | bang pos input => exact readUnary_eq_error_iff.mpr (ih (by omega))
    | chain hchain hbang =>
      refine readJoined_of_error (ih ?_)
      rw [Level.rank_tighter (Level.ne_atom_of_isChain hchain)]
      omega
    | sign hop pos input => exact readUnary_eq_error_iff.mpr (ih (by omega))
    | unsigned hplus hminus => exact ih (by simp only [Level.rank] at h ⊢; omega)
    | noBase hbase => rw [← hbase, ih (by simp only [Level.rank] at h ⊢; omega)]
    | power hbase =>
      rw [ih (by simp only [Level.rank] at h ⊢; omega)] at hbase
      simp at hbase
    | atom =>
      simp only [Level.rank] at h
      omega

/-- With that many levels, an input that has ended is an operand that is missing. -/
theorem parseAt_nil {level : Level} (h : 10 ≤ depth + level.rank) :
    parseAt stop size depth level [] = .error (.inputEnded .operand stop) := by
  induction depth generalizing level with
  | zero =>
    have := level.rank_le
    omega
  | succ depth ih =>
    have hstep := levelStep_parseAt stop size depth level []
    generalize parseAt stop size (depth + 1) level [] = result at hstep ⊢
    cases hstep with
    | chain hchain hbang =>
      refine readJoined_of_error (ih ?_)
      rw [Level.rank_tighter (Level.ne_atom_of_isChain hchain)]
      omega
    | unsigned hplus hminus => exact ih (by simp only [Level.rank] at h ⊢; omega)
    | noBase hbase => rw [← hbase, ih (by simp only [Level.rank] at h ⊢; omega)]
    | power hbase =>
      rw [ih (by simp only [Level.rank] at h ⊢; omega)] at hbase
      simp at hbase
    | atom => rfl

private theorem exists_parseAt_semicolon {level : Level} {pos : Nat} {rest : List Token}
    (hsize : rest.length < size) :
    ∃ err, parseAt stop size depth level (⟨.symbol .semicolon, pos⟩ :: rest) = .error err := by
  rcases hread : parseAt stop size depth level (⟨.symbol .semicolon, pos⟩ :: rest) with
    err | ⟨e, rest'⟩
  · exact ⟨err, rfl⟩
  · -- What is read has an outline, and no outline starts with a semicolon.
    have houtline := (reads_of_parseAt level hsize hread).outline
    have hstarts : level.phrase.part.starts (.symbol .semicolon) = false := by cases level <;> rfl
    exact absurd rfl (houtline.leading?_ne hstarts)

/-- Where no tokens are left the levels differ in what they look at next, but not in how deep they
have to go. -/
private theorem extended_parseAt_nil (level : Level) (hsize' : tokens'.length ≤ size')
    (h : Extends us [] tokens') :
    Extended us (parseAt stop size depth level []) (parseAt stop' size' depth level tokens') := by
  by_cases hdepth : 10 ≤ depth + level.rank
  · rw [parseAt_nil hdepth]
    refine .of_incomplete rfl fun hus => ?_
    obtain ⟨pos, rest, rfl⟩ := h.exists_semicolon hus
    exact exists_parseAt_semicolon hsize'
  · rw [parseAt_of_lt (by omega), parseAt_of_lt (by omega)]
    exact .of_final rfl

private theorem Level.continues_of_joins {level : Level} (hchain : level.isChain) {s : Symbol}
    (hs : level.joins s) : Level.comparison.continues s := by
  simp [Level.continues, Level.covers_comparison, (Level.joins_iff hchain).mp hs]

/-- **Reading on.** On every level, and with the same number of levels to open, the result on some
tokens settles what it settles about the same tokens with others behind them. -/
theorem extended_parseAt (level : Level) (hsize : tokens.length ≤ size)
    (hsize' : tokens'.length ≤ size') (h : Extends us tokens tokens') :
    Extended us (parseAt stop size depth level tokens)
      (parseAt stop' size' depth level tokens') := by
  -- On the depth. The level takes the same step on both sides, since it looks at one token only.
  induction depth generalizing level tokens tokens' with
  | zero => exact .of_final rfl
  | succ depth ih =>
    by_cases hne : tokens = []
    · subst hne
      exact extended_parseAt_nil level hsize' h
    have hlead := h.leading?_eq hne
    have hstep := levelStep_parseAt stop size depth level tokens
    generalize parseAt stop size (depth + 1) level tokens = result at hstep ⊢
    cases hstep with
    | bang pos input =>
      obtain ⟨pos', input', rfl, hinput⟩ := extends_cons_iff.mp h
      rw [parseAt_bang]
      exact (ih .comparison (Nat.le_of_succ_le hsize) (Nat.le_of_succ_le hsize') hinput).readUnary _
    | chain hchain hbang =>
      rw [parseAt_chain hchain (by rwa [hlead])]
      have hshortens := shortens_parseAt stop size depth level.tighter
      have hshortens' := shortens_parseAt stop' size' depth level.tighter
      refine (ih level.tighter hsize hsize' h).andThen (fun _ => readJoined_of_error)
        (fun _ => readJoined_of_error) (fun e rest rest' hok hok' hrest => ?_) fun e hok => ?_
      · rw [readJoined_of_ok hok, readJoined_of_ok hok']
        have hlt := hshortens _ _ _ hok
        have hlt' := hshortens' _ _ _ hok'
        refine extended_readChain (fun s => Level.continues_of_joins hchain) hshortens hshortens'
          (fun mid mid' hmid hmid' => ?_) (by omega) (by omega) hrest
        exact ih level.tighter (by omega) (by omega)
      · rw [readJoined_of_ok hok, readChain_of_avoids (avoids_nil _)]
        exact .inl ⟨e, rfl⟩
    | sign hop pos input =>
      obtain ⟨pos', input', rfl, hinput⟩ := extends_cons_iff.mp h
      rw [parseAt_sign hop]
      exact (ih .signed (Nat.le_of_succ_le hsize) (Nat.le_of_succ_le hsize') hinput).readUnary _
    | unsigned hplus hminus =>
      rw [parseAt_unsigned (by rwa [hlead]) (by rwa [hlead])]
      exact ih .power hsize hsize' h
    | noBase hbase =>
      have hatom := ih .atom hsize hsize' h
      rw [hbase] at hatom
      refine hatom.andThen (fun _ herr => herr) (fun _ => parseAt_power_of_error)
        (fun e rest rest' hok => ?_) fun e hok => ?_
      · simp at hok
      · simp at hok
    | @power _ rest base hbase =>
      have hlt := shortens_parseAt _ _ _ _ _ _ _ hbase
      refine (ih .atom hsize hsize' h).andThen (fun _ herr => ?_)
        (fun _ => parseAt_power_of_error) (fun e more more' hok hok' hmore => ?_) fun e hok => ?_
      · simp [hbase] at herr
      · obtain ⟨rfl, rfl⟩ : base = e ∧ rest = more := by simpa [hbase] using hok
        have hlt' := shortens_parseAt _ _ _ _ _ _ _ hok'
        rw [parseAt_power_of_ok hok']
        refine extended_readPower (fun mid mid' hmid hmid' => ?_) hmore
        exact ih .signed (by omega) (by omega)
      · obtain ⟨rfl, rfl⟩ : base = e ∧ rest = [] := by simpa [hbase] using hok
        exact .inl ⟨base, readPower_of_ne (by simp)⟩
    | atom =>
      rw [parseAt_atom]
      exact extended_readAtom (fun input input' hlt hlt' =>
        ih .comparison (by omega) (by omega)) h

/-! ### Statements -/

variable {limit : Nat}

private theorem extended_readInit {value value' : Reader} {name : String}
    (hvalue : ∀ input input', input.length < tokens.length → input'.length < tokens'.length →
      Extends us input input' → Extended us (value input) (value' input'))
    (h : Extends us tokens tokens') :
    Extended us (readInit stop value name tokens) (readInit stop' value' name tokens') := by
  rcases tokens with _ | ⟨⟨lexeme, pos⟩, input⟩
  · refine .of_incomplete rfl fun hus => ?_
    obtain ⟨pos, rest, rfl⟩ := h.exists_semicolon hus
    exact ⟨_, rfl⟩
  · obtain ⟨pos', input', rfl, hinput⟩ := extends_cons_iff.mp h
    by_cases hassign : lexeme = .symbol .assign
    · subst hassign
      refine (hvalue input input' (by simp) (by simp) hinput).andThen
        (fun err herr => by simp [readInit, herr]) (fun err herr => by simp [readInit, herr])
        (fun e rest rest' hok hok' hrest => ?_) fun e hok => ?_
      · simp only [readInit, if_true, hok, hok']
        exact .of_ok hrest
      · simp only [readInit, if_true, hok]
        exact .inl ⟨_, rfl⟩
    · cases lexeme with
      | endOfInput => exact .of_incomplete rfl fun _ => ⟨_, rfl⟩
      | _ =>
        simp only [readInit, if_neg hassign]
        exact .of_final rfl

private theorem extended_readDeclaration {value value' : Reader}
    (hvalue : ∀ input input', input.length < tokens.length → input'.length < tokens'.length →
      Extends us input input' → Extended us (value input) (value' input'))
    (h : Extends us tokens tokens') :
    Extended us (readDeclaration stop value tokens) (readDeclaration stop' value' tokens') := by
  rcases tokens with _ | ⟨⟨lexeme, pos⟩, input⟩
  · refine .of_incomplete rfl fun hus => ?_
    obtain ⟨pos, rest, rfl⟩ := h.exists_semicolon hus
    exact ⟨_, rfl⟩
  · obtain ⟨pos', input', rfl, hinput⟩ := extends_cons_iff.mp h
    simp only [List.length_cons] at hvalue
    cases lexeme with
    | endOfInput => exact .of_incomplete rfl fun _ => ⟨_, rfl⟩
    | identifier name =>
      cases hname : isReserved name with
      | true =>
        simp only [readDeclaration, hname, if_true]
        exact .of_final rfl
      | false =>
        simp only [readDeclaration, hname, Bool.false_eq_true, if_false]
        refine extended_readInit (fun more more' hlt hlt' => ?_) hinput
        exact hvalue more more' (by omega) (by omega)
    | _ => exact .of_final rfl

/-- **Reading on in statements.** There has to be a token, since the word that starts a declaration
could come in otherwise. -/
theorem extended_parseStatementAt (hne : tokens ≠ []) (hsize : tokens.length ≤ size)
    (hsize' : tokens'.length ≤ size') (h : Extends us tokens tokens') :
    Extended us (parseStatementAt stop size limit tokens)
      (parseStatementAt stop' size' limit tokens') := by
  unfold parseStatementAt
  obtain ⟨⟨lexeme, pos⟩, input, rfl⟩ := List.exists_cons_of_ne_nil hne
  obtain ⟨pos', input', rfl, hinput⟩ := extends_cons_iff.mp h
  by_cases hlet : lexeme = .identifier declareWord
  · subst hlet
    simp only [List.length_cons] at hsize hsize'
    simp only [readStatement, if_true]
    refine extended_readDeclaration (fun more more' hlt hlt' => ?_) hinput
    exact extended_parseAt .comparison (by omega) (by omega)
  · have hplain (pos : Nat) (input : List Token) (pos₁ : Nat) (rest : List Token) :
        (⟨lexeme, pos⟩ :: input : List Token) ≠ ⟨.identifier declareWord, pos₁⟩ :: rest := by
      intro heq
      obtain ⟨⟨rfl, -⟩, -⟩ : (lexeme = .identifier declareWord ∧ pos = pos₁) ∧ input = rest := by
        simpa using heq
      exact hlet rfl
    rw [readStatement_of_ne (hplain pos input), readStatement_of_ne (hplain pos' input')]
    exact extended_parseAt .comparison hsize hsize' h

theorem length_lt_of_parseStatementAt {e : Expr} {rest : List Token} (hsize : tokens.length ≤ size)
    (h : parseStatementAt stop size limit tokens = .ok (e, rest)) :
    rest.length < tokens.length := by
  obtain ⟨t, more, rfl, -, hsuffix⟩ := (readsStatement_of_parseStatementAt hsize h).exists_cons
  exact Nat.lt_succ_of_le hsuffix.length_le

/-! ### Programs -/

/-- What blocks the end of a statement does so by what it says. -/
theorem Extends.blockingToken?_eq_none_iff (h : Extends us tokens tokens') (hne : tokens ≠ []) :
    blockingToken? tokens' = none ↔ blockingToken? tokens = none := by
  obtain ⟨⟨lexeme, pos⟩, rest, rfl⟩ := List.exists_cons_of_ne_nil hne
  obtain ⟨pos', more, rfl, -⟩ := extends_cons_iff.mp h
  simp [blockingToken?, Token.isEnd]

private theorem blockingToken?_of_head? (h : Extends us [] tokens')
    (hus : us = [] ∨ us.head? = some (.symbol .semicolon)) : blockingToken? tokens' = none := by
  rcases hus with rfl | hus
  · obtain rfl : tokens' = [] := by simpa [extends_nil_iff] using h
    rfl
  · obtain ⟨pos, rest, rfl⟩ := h.exists_semicolon hus
    rfl

/-- A statement in front of which the program was not at its end is read again, and so is the end
behind it. -/
theorem exists_parseStatementAt_extends (stop' : Nat) {t : Token} {rest rest₁ : List Token}
    {e : Expr} (hsize : (t :: rest).length ≤ size) (hsize' : tokens'.length ≤ size')
    (h : Extends us (t :: rest) tokens')
    (hstatement : parseStatementAt stop size limit (t :: rest) = .ok (e, rest₁))
    (hus : rest₁ = [] → us = [] ∨ us.head? = some (.symbol .semicolon)) :
    ∃ t' rest' rest₁', tokens' = t' :: rest' ∧ t'.lexeme = t.lexeme ∧
      parseStatementAt stop' size' limit (t' :: rest') = .ok (e, rest₁') ∧
      Extends us rest₁ rest₁' ∧ rest₁'.length ≤ rest'.length ∧
      (blockingToken? rest₁' = none ↔ blockingToken? rest₁ = none) := by
  obtain ⟨lexeme, pos⟩ := t
  obtain ⟨pos', rest', rfl, -⟩ := extends_cons_iff.mp h
  have hextended : Extended us (parseStatementAt stop size limit (⟨lexeme, pos⟩ :: rest))
      (parseStatementAt stop' size' limit (⟨lexeme, pos'⟩ :: rest')) :=
    extended_parseStatementAt (by simp) hsize hsize' h
  have hhalts (hnil : rest₁ = []) : Halts us := by
    rcases hus hnil with rfl | hus
    · exact halts_nil
    · exact halts_of_semicolon hus
  obtain ⟨rest₁', hstatement', hrest₁⟩ := hextended.ok e rest₁ hstatement hhalts
  have hlt := length_lt_of_parseStatementAt hsize' hstatement'
  refine ⟨_, rest', rest₁', rfl, rfl, hstatement', hrest₁, Nat.le_of_lt_succ hlt, ?_⟩
  by_cases hnil : rest₁ = []
  · subst hnil
    rw [blockingToken?_of_head? hrest₁ (hus rfl)]
    rfl
  · exact hrest₁.blockingToken?_eq_none_iff hnil

/-- **Errors of programs.** A program that cannot be mended is not mended by more tokens, and none
is mended by a semicolon. -/
theorem exists_error_of_readStatements {fuel fuel' : Nat} {err : ParseError}
    (hsize : tokens.length ≤ size) (hsize' : tokens'.length ≤ size')
    (hfuel' : tokens'.length ≤ fuel') (h : Extends us tokens tokens')
    (herr : readStatements (parseStatementAt stop size limit) fuel tokens = .error err)
    (hus : err.isIncomplete = false ∨ us.head? = some (.symbol .semicolon)) :
    ∃ err', readStatements (parseStatementAt stop' size' limit) fuel' tokens' = .error err' ∧
      (err.isIncomplete = false → err'.isIncomplete = false) := by
  fun_induction readStatements (parseStatementAt stop size limit) fuel tokens
    generalizing tokens' fuel' with
  | case1 | case2 | case7 => simp at herr
  | case3 fuel t rest ht ih =>
    obtain ⟨lexeme, pos⟩ := t
    subst ht
    obtain ⟨pos', rest', rfl, hrest⟩ := extends_cons_iff.mp h
    simp only [List.length_cons] at hsize hsize' hfuel'
    obtain ⟨fuel', rfl⟩ : ∃ k, fuel' = k + 1 := ⟨fuel' - 1, by omega⟩
    rw [readStatements_semicolon]
    exact ih (by omega) (by omega) (by omega) hrest herr
  | case4 fuel t rest ht err₁ hstatement =>
    obtain rfl : err₁ = err := by simpa using herr
    have hextended : Extended us (parseStatementAt stop size limit (t :: rest))
        (parseStatementAt stop' size' limit tokens') :=
      extended_parseStatementAt (by simp) hsize hsize' h
    obtain ⟨lexeme, pos⟩ := t
    obtain ⟨pos', rest', rfl, -⟩ := extends_cons_iff.mp h
    simp only [List.length_cons] at hfuel'
    obtain ⟨fuel', rfl⟩ : ∃ k, fuel' = k + 1 := ⟨fuel' - 1, by omega⟩
    rw [hstatement] at hextended
    obtain ⟨err', herr', hfinal⟩ := hextended.error hus
    exact ⟨err', readStatements_of_error ht herr', hfinal⟩
  | case5 fuel t rest ht e rest₁ hstatement found hfound =>
    -- Something stands behind the statement that does not belong there, and it still does.
    have hne : rest₁ = [] → us = [] ∨ us.head? = some (.symbol .semicolon) := by
      rintro rfl
      simp [blockingToken?] at hfound
    obtain ⟨t', rest', rest₁', rfl, hlexeme, hstatement', -, -, hend⟩ :=
      exists_parseStatementAt_extends stop' hsize hsize' h hstatement hne
    simp only [List.length_cons] at hfuel'
    obtain ⟨fuel', rfl⟩ : ∃ k, fuel' = k + 1 := ⟨fuel' - 1, by omega⟩
    rw [hfound] at hend
    obtain ⟨found', hfound'⟩ := Option.ne_none_iff_exists'.mp (by simpa using hend)
    rw [← hlexeme] at ht
    refine ⟨.unexpected .statementEnd found'.lexeme found'.pos, ?_, fun _ => rfl⟩
    simp [readStatements, ht, hstatement', hfound']
  | case6 fuel t rest ht e rest₁ hstatement hend err₁ hmore ih =>
    -- The statement is read again, and the error is one of the statements behind it.
    obtain rfl : err₁ = err := by simpa using herr
    have hne : rest₁ = [] → us = [] ∨ us.head? = some (.symbol .semicolon) := by
      rintro rfl
      simp [readStatements_nil] at hmore
    have hlt := length_lt_of_parseStatementAt hsize hstatement
    obtain ⟨t', rest', rest₁', rfl, hlexeme, hstatement', hrest₁, hle, hend'⟩ :=
      exists_parseStatementAt_extends stop' hsize hsize' h hstatement hne
    simp only [List.length_cons] at hsize hsize' hfuel' hlt
    obtain ⟨fuel', rfl⟩ : ∃ k, fuel' = k + 1 := ⟨fuel' - 1, by omega⟩
    rw [← hlexeme] at ht
    obtain ⟨err', herr', hfinal⟩ := @ih rest₁' fuel' (by omega) (by omega) (by omega) hrest₁ hmore
    exact ⟨err', readStatements_of_more_error ht hstatement' (hend'.mpr hend) herr', hfinal⟩

private theorem map_nil_append (result : Except ParseError (List Expr)) :
    result.map ([] ++ ·) = result := by
  cases result <;> rfl

/-- **Programs in front of others.** The statements of a program are read again in front of a
semicolon, and then what stands there is read. -/
theorem exists_readStatements_extends {fuel fuel' : Nat} {es : List Expr}
    (hsize : tokens.length ≤ size) (hsize' : tokens'.length ≤ size')
    (hfuel : tokens.length ≤ fuel) (hfuel' : tokens'.length ≤ fuel')
    (h : Extends us tokens tokens')
    (hok : readStatements (parseStatementAt stop size limit) fuel tokens = .ok es)
    (hus : us = [] ∨ us.head? = some (.symbol .semicolon)) :
    ∃ rest' fuel'', Extends us [] rest' ∧ rest'.length ≤ fuel'' ∧ rest'.length ≤ tokens'.length ∧
      readStatements (parseStatementAt stop' size' limit) fuel' tokens' =
        (readStatements (parseStatementAt stop' size' limit) fuel'' rest').map (es ++ ·) := by
  fun_induction readStatements (parseStatementAt stop size limit) fuel tokens
    generalizing tokens' fuel' es with
  | case1 tokens =>
    obtain rfl : tokens = [] := by simpa using hfuel
    obtain rfl : [] = es := by simpa using hok
    refine ⟨tokens', fuel', h, hfuel', Nat.le_refl _, ?_⟩
    exact (map_nil_append _).symm
  | case2 =>
    obtain rfl : [] = es := by simpa using hok
    refine ⟨tokens', fuel', h, hfuel', Nat.le_refl _, ?_⟩
    exact (map_nil_append _).symm
  | case3 fuel t rest ht ih =>
    obtain ⟨lexeme, pos⟩ := t
    subst ht
    obtain ⟨pos', rest', rfl, hrest⟩ := extends_cons_iff.mp h
    simp only [List.length_cons] at hsize hsize' hfuel hfuel'
    obtain ⟨fuel', rfl⟩ : ∃ k, fuel' = k + 1 := ⟨fuel' - 1, by omega⟩
    rw [readStatements_semicolon]
    obtain ⟨more, fuel'', hmore, hle, hle', hread⟩ :=
      @ih rest' fuel' es (by omega) (by omega) (by omega) (by omega) hrest hok
    exact ⟨more, fuel'', hmore, hle, Nat.le_succ_of_le hle', hread⟩
  | case4 | case5 | case6 => simp at hok
  | case7 fuel t rest ht e rest₁ hstatement hend es' hmore ih =>
    obtain rfl : e :: es' = es := by simpa using hok
    have hlt := length_lt_of_parseStatementAt hsize hstatement
    obtain ⟨t', rest', rest₁', rfl, hlexeme, hstatement', hrest₁, hle, hend'⟩ :=
      exists_parseStatementAt_extends stop' hsize hsize' h hstatement fun _ => hus
    simp only [List.length_cons] at hsize hsize' hfuel hfuel' hlt
    obtain ⟨fuel', rfl⟩ : ∃ k, fuel' = k + 1 := ⟨fuel' - 1, by omega⟩
    obtain ⟨more, fuel'', hextends, hle'', hle', hread⟩ :=
      @ih rest₁' fuel' es' (by omega) (by omega) (by omega) (by omega) hrest₁ hmore
    rw [← hlexeme] at ht
    refine ⟨more, fuel'', hextends, hle'', by simp only [List.length_cons]; omega, ?_⟩
    -- What comes of the tokens behind is passed on, whether it is statements or an error.
    rcases hbehind : readStatements (parseStatementAt stop' size' limit) fuel'' more with err | es₁
    · rw [hbehind] at hread
      exact readStatements_of_more_error ht hstatement' (hend'.mpr hend) hread
    · rw [hbehind] at hread
      exact readStatements_of_more_ok ht hstatement' (hend'.mpr hend) hread

end Expr

end Reckon
