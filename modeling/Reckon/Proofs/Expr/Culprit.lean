import Mathlib.Order.Bounds.Basic
import Reckon.Proofs.Expr.Joining
import Reckon.Proofs.Token.Tiling

/-!
# The first token that cannot continue

A parser that looks one token ahead can complain as soon as no program starts like the tokens it has
seen. The main result, `Expr.parseProgram_error_located`, says that this one does, and that it names
the right token: the token it does not expect is the first one with which the tokens stop being the
beginning of a program.

Let the tokens be cut in two. `Expr.Continued` relates the result on the first part to the result on
the whole:

* an error that is no complaint about the end of the input is the error of the whole, except that a
  misplaced `let` is a reserved name once `=` follows it;
* if the first part ended too soon, or was read to its end, then the token that the whole complains
  about is one of the second part.

Cut in front of the culprit the tokens begin a program, since an input that has ended too soon can
be completed; cut behind it they do not, since the error is there already.
-/

namespace Reckon

/-- The error that an error becomes when more tokens follow. -/
def ParseError.Becomes (err err' : ParseError) : Prop :=
  err' = err ∨ ∃ pos, err = .misplacedLet pos ∧ err' = .reserved Expr.declareWord pos

private theorem ParseError.culprit?_of_isIncomplete {err : ParseError} (h : err.isIncomplete) :
    err.culprit? = none := by
  cases err <;> simp only [isIncomplete, Bool.false_eq_true] at h <;> rfl

namespace Expr

variable {stop stop' size size' depth limit : Nat} {tokens more : List Token}

/-! ### Cut inputs -/

/-- Only `more` is still in question: what is left over is an ending of it, and a token that cannot
stand where it does is one of it. -/
def Ahead (more : List Token) : Except ParseError (Expr × List Token) → Prop
  | .ok (_, rest) => rest <:+ more
  | .error err => ∀ t, err.culprit? = some t → t ∈ more

/-- How a result on some tokens bears on the result on the same tokens with `more` behind them, as
far as errors go. -/
structure Continued (more : List Token) (result result' : Except ParseError (Expr × List Token)) :
    Prop where
  /-- What more tokens could not mend is complained about again. -/
  final : ∀ err, result = .error err → err.isIncomplete = false →
    ∃ err', result' = .error err' ∧ err.Becomes err'
  /-- As long as nothing is settled, no token has been found fault with. -/
  later : Unsettled result → Ahead more result'

section Results

variable {result result' first first' : Except ParseError (Expr × List Token)} {e : Expr}
  {rest : List Token} {err : ParseError}

private theorem Confined.ahead (h : Confined stop tokens result) (hsuffix : tokens <:+ more) :
    Ahead more result := by
  rcases result with err | ⟨e, rest⟩
  · exact fun t ht => hsuffix.subset (h.mem_of_culprit? ht)
  · exact List.IsSuffix.trans h hsuffix

private theorem Confines.ahead {reader : Reader} (h : Confines stop reader) (more : List Token) :
    Ahead more (reader more) := (h more).ahead (List.suffix_refl more)

theorem Ahead.andThen (h : Ahead more first)
    (herror : ∀ err, first = .error err → result = .error err)
    (hok : ∀ e rest, first = .ok (e, rest) → rest <:+ more → Ahead more result) :
    Ahead more result := by
  rcases hfirst : first with err | ⟨e, rest⟩
  · rw [hfirst] at h
    rw [herror err hfirst]
    exact h
  · rw [hfirst] at h
    exact hok e rest hfirst h

theorem Unsettled.isIncomplete (h : Unsettled result) (herr : result = .error err) :
    err.isIncomplete := by
  subst herr
  rcases h with ⟨e, heq⟩ | ⟨err', heq, hincomplete⟩
  · simp at heq
  · obtain rfl : err = err' := by simpa using heq
    exact hincomplete

namespace Continued

theorem of_ok (h : rest = [] → Ahead more result') :
    Continued more (.ok (e, rest)) result' where
  final err heq := by simp at heq
  later hunsettled := by
    rcases hunsettled with ⟨e', heq⟩ | ⟨err, heq, -⟩
    · obtain ⟨-, hnil⟩ : e = e' ∧ rest = [] := by simpa using heq
      exact h hnil
    · simp at heq

private theorem of_rest : Continued more (.ok (e, rest)) (.ok (e, rest ++ more)) := by
  refine of_ok fun hnil => ?_
  subst hnil
  exact List.suffix_refl more

theorem of_error (err : ParseError) : Continued more (.error err) (.error err) where
  final err' heq _ := ⟨err, rfl, .inl (by simpa using heq)⟩
  later hunsettled := by
    intro t ht
    simp [ParseError.culprit?_of_isIncomplete (hunsettled.isIncomplete rfl)] at ht

theorem of_unsettled (hunsettled : Unsettled result) (h : Ahead more result') :
    Continued more result result' where
  final err heq hfinal := by simp [hunsettled.isIncomplete heq] at hfinal
  later _ := h

theorem of_incomplete (herr : err.isIncomplete) (h : Ahead more result') :
    Continued more (.error err) result' :=
  of_unsettled (.inr ⟨err, rfl, herr⟩) h

/-- What is read may be put into a larger expression. -/
theorem map (h : Continued more first first') (f : Expr → Expr) :
    Continued more (first.map (Prod.map f id)) (first'.map (Prod.map f id)) := by
  have hahead (hfirst' : Ahead more first') : Ahead more (first'.map (Prod.map f id)) := by
    rcases first' with err' | ⟨e', rest'⟩ <;> exact hfirst'
  rcases first with err | ⟨e, rest⟩
  · refine ⟨fun err₁ heq hfinal => ?_, fun hunsettled => hahead (h.later ?_)⟩
    · obtain rfl : err = err₁ := by simpa [Except.map] using heq
      obtain ⟨err', rfl, hbecomes⟩ := h.final err rfl hfinal
      exact ⟨err', rfl, hbecomes⟩
    · exact .inr ⟨err, rfl, hunsettled.isIncomplete rfl⟩
  · refine of_ok fun hnil => hahead (h.later (.inl ⟨e, ?_⟩))
    obtain rfl : rest = [] := hnil
    rfl

/-- **Sequencing.** A result that is made from a first one. What the first one read with tokens left
over is read again; if it read everything then nothing is settled, and from what it reads beyond its
tokens the result goes on in `more`. -/
theorem andThen (h : Continued more first first')
    (hagain : ∀ e rest, first = .ok (e, rest) → rest ≠ [] → first' = .ok (e, rest ++ more))
    (herror : ∀ err, first = .error err → result = .error err)
    (herror' : ∀ err, first' = .error err → result' = .error err)
    (hok : ∀ e rest, first = .ok (e, rest) → first' = .ok (e, rest ++ more) →
      Continued more result result')
    (hlast : ∀ e, first = .ok (e, []) → Unsettled result)
    (hahead : ∀ e rest, first' = .ok (e, rest) → rest <:+ more → Ahead more result') :
    Continued more result result' := by
  have hlater (hunsettled : Unsettled first) : Ahead more result' :=
    (h.later hunsettled).andThen herror' hahead
  rcases hfirst : first with err | ⟨e, rest⟩
  · rw [herror err hfirst]
    refine ⟨fun err₁ heq hfinal => ?_, fun hunsettled => hlater ?_⟩
    · obtain rfl : err = err₁ := by simpa using heq
      obtain ⟨err', herr', hbecomes⟩ := h.final err hfirst hfinal
      exact ⟨err', herror' err' herr', hbecomes⟩
    · exact .inr ⟨err, hfirst, hunsettled.isIncomplete rfl⟩
  · by_cases hrest : rest = []
    · subst hrest
      exact of_unsettled (hlast e hfirst) (hlater (.inl ⟨e, hfirst⟩))
    · exact hok e rest hfirst (hagain e rest hfirst hrest)

end Continued

end Results

/-! ### Readers -/

private theorem readUnary_eq_map (op : Symbol) (operand : Reader) (tokens : List Token) :
    readUnary op operand tokens = (operand tokens).map (Prod.map (.unary op) id) := by
  rcases hop : operand tokens with err | ⟨e, rest⟩ <;> simp [readUnary, hop, Except.map]

private theorem readPower_eq_map (exponent : Reader) (base : Expr) (pos : Nat)
    (input : List Token) :
    readPower exponent base (⟨.symbol .power, pos⟩ :: input) =
      (exponent input).map (Prod.map (.binary .power base) id) := by
  rcases hop : exponent input with err | ⟨e, rest⟩ <;> simp [readPower, hop, Except.map]

private theorem readIdentifier_eq_map {name : String} (hname : isReserved name = false)
    (value : Reader) (pos pos' : Nat) (input : List Token) :
    readIdentifier value name pos (⟨.symbol .assign, pos'⟩ :: input) =
      (value input).map (Prod.map (.assign name) id) := by
  rcases hop : value input with err | ⟨e, rest⟩ <;> simp [readIdentifier, hname, hop, Except.map]

private theorem readInit_eq_map (stop : Nat) (value : Reader) (name : String) (pos : Nat)
    (input : List Token) :
    readInit stop value name (⟨.symbol .assign, pos⟩ :: input) =
      (value input).map (Prod.map (.declare name) id) := by
  rcases hop : value input with err | ⟨e, rest⟩ <;> simp [readInit, hop, Except.map]

/-- An expression with tokens behind it is read again, with more tokens behind those. -/
theorem parseAt_append {level : Level} {e : Expr} {rest : List Token} (hsize : tokens.length ≤ size)
    (hsize' : tokens.length + more.length ≤ size')
    (h : parseAt stop size depth level tokens = .ok (e, rest)) (hne : rest ≠ []) :
    parseAt stop' size' depth level (tokens ++ more) = .ok (e, rest ++ more) := by
  have hextended : Extended (more.map Token.lexeme) (parseAt stop size depth level tokens)
      (parseAt stop' size' depth level (tokens ++ more)) :=
    extended_parseAt level hsize (by rwa [List.length_append]) (extends_append tokens more)
  exact hextended.append_of_ok (confines_parseAt stop size depth level tokens)
    (confines_parseAt stop' size' depth level _) h fun hnil => absurd hnil hne

/-- Reading a level is continued on all inputs that are shorter than the tokens. -/
def ContinuedBelow (stop size stop' size' depth : Nat) (more : List Token) (level : Level)
    (tokens : List Token) : Prop :=
  ∀ input, input.length < tokens.length → Continued more (parseAt stop size depth level input)
    (parseAt stop' size' depth level (input ++ more))

theorem Continued.readUnary {operand operand' : Reader} (op : Symbol)
    (h : Continued more (operand tokens) (operand' (tokens ++ more))) :
    Continued more (readUnary op operand tokens) (readUnary op operand' (tokens ++ more)) := by
  rw [readUnary_eq_map, readUnary_eq_map]
  exact h.map _

/-- Chains: what the chain was waiting for, or where it would have ended, is for `more` to say. -/
private theorem continued_readChain {level : Level} {fuel fuel' : Nat} {left : Expr}
    (hoperand : ContinuedBelow stop size stop' size' depth more level.tighter tokens)
    (hsize : tokens.length ≤ size) (hsize' : tokens.length + more.length ≤ size')
    (hfuel' : tokens.length + more.length ≤ fuel') :
    Continued more
      (readChain level.joins (parseAt stop size depth level.tighter) fuel left tokens)
      (readChain level.joins (parseAt stop' size' depth level.tighter) fuel' left
        (tokens ++ more)) := by
  have hconfines := confines_parseAt stop' size' depth level.tighter
  induction fuel generalizing left tokens fuel' with
  | zero =>
    refine .of_ok fun hnil => ?_
    subst hnil
    exact (hconfines.readChain fuel' left).ahead more
  | succ fuel ih =>
    rcases avoids_or_exists level.joins tokens with havoids | ⟨s, pos, input, hs, rfl⟩
    · rw [readChain_of_avoids havoids]
      refine .of_ok fun hnil => ?_
      subst hnil
      exact (hconfines.readChain fuel' left).ahead more
    simp only [List.length_cons] at hsize hsize' hfuel'
    obtain ⟨fuel', rfl⟩ : ∃ k, fuel' = k + 1 := ⟨fuel' - 1, by omega⟩
    rw [List.cons_append]
    refine (hoperand input (by simp)).andThen
      (fun _ _ => parseAt_append (by omega) (by omega))
      (fun _ herr => readChain_of_error hs herr fuel pos)
      (fun _ herr => readChain_of_error hs herr fuel' pos) (fun right rest hok hok' => ?_)
      (fun right hok => ?_) fun right rest hok' hsuffix => ?_
    · rw [readChain_of_ok hs hok, readChain_of_ok hs hok']
      have hlt := shortens_parseAt _ _ _ _ _ _ _ hok
      refine ih (fun mid hmid => hoperand mid ?_) (by omega) (by omega) (by omega)
      simp only [List.length_cons]
      omega
    · rw [readChain_of_ok hs hok, readChain_of_avoids (avoids_nil _)]
      exact .inl ⟨_, rfl⟩
    · rw [readChain_of_ok hs hok']
      exact (hconfines.readChain fuel' _ rest).ahead hsuffix

private theorem continued_readPower {base : Expr}
    (hexponent : ContinuedBelow stop size stop' size' depth more .signed tokens) :
    Continued more (readPower (parseAt stop size depth .signed) base tokens)
      (readPower (parseAt stop' size' depth .signed) base (tokens ++ more)) := by
  by_cases hpower : leading? tokens = some .power
  · obtain ⟨pos, input, rfl⟩ := exists_of_leading? hpower
    rw [List.cons_append, readPower_eq_map, readPower_eq_map]
    exact (hexponent input (by simp)).map _
  · rw [readPower_of_ne hpower]
    refine .of_ok fun hnil => ?_
    subst hnil
    exact ((confines_parseAt stop' size' depth .signed).readPower base).ahead more

/-- Behind an identifier that is not `let`, only what follows can be found fault with, unless the
identifier is a reserved name. -/
private theorem ahead_readIdentifier {value : Reader} (hvalue : Confines stop value) {name : String}
    (hname : name ≠ declareWord) (pos : Nat) (more : List Token) :
    Ahead more (readIdentifier value name pos more) := by
  by_cases hassign : leading? more = some .assign
  · obtain ⟨pos', input, rfl⟩ := exists_of_leading? hassign
    cases hreserved : isReserved name with
    | true =>
      simp only [readIdentifier, hreserved, if_true]
      intro t ht
      simp [ParseError.culprit?] at ht
    | false =>
      refine ((hvalue input).ahead (List.suffix_cons _ _)).andThen
        (fun _ => readIdentifier_assign_of_error hreserved) fun e rest hok hsuffix => ?_
      rw [readIdentifier_assign_of_ok hreserved hok]
      exact hsuffix
  · rw [readIdentifier_of_ne hassign, if_neg hname]
    cases constant? name <;> exact List.suffix_refl more

private theorem continued_readIdentifier {name : String} {pos : Nat}
    (hvalue : ContinuedBelow stop size stop' size' depth more .comparison tokens) :
    Continued more (readIdentifier (parseAt stop size depth .comparison) name pos tokens)
      (readIdentifier (parseAt stop' size' depth .comparison) name pos (tokens ++ more)) := by
  by_cases hassign : leading? tokens = some .assign
  · obtain ⟨pos', input, rfl⟩ := exists_of_leading? hassign
    rw [List.cons_append]
    cases hname : isReserved name with
    | true =>
      simp only [readIdentifier, hname, if_true]
      exact .of_error _
    | false =>
      rw [readIdentifier_eq_map hname, readIdentifier_eq_map hname]
      exact (hvalue input (by simp)).map _
  · by_cases hlet : name = declareWord
    · -- The word is misplaced here, and it is a reserved name if `more` starts with `=`.
      subst hlet
      have hmisplaced (value : Reader) {tokens : List Token}
          (hassign : leading? tokens ≠ some .assign) :
          readIdentifier value declareWord pos tokens = .error (.misplacedLet pos) := by
        rw [readIdentifier_of_ne hassign]
        rfl
      rw [hmisplaced _ hassign]
      by_cases hassign' : leading? (tokens ++ more) = some .assign
      · obtain ⟨pos', input, heq⟩ := exists_of_leading? hassign'
        rw [heq]
        refine ⟨fun err herr _ => ⟨_, rfl, .inr ⟨pos, ?_, rfl⟩⟩, fun hunsettled => ?_⟩
        · simpa using herr.symm
        · simpa [ParseError.isIncomplete] using hunsettled.isIncomplete rfl
      · rw [hmisplaced _ hassign']
        exact .of_error _
    · have hok : ∃ e, readIdentifier (parseAt stop size depth .comparison) name pos tokens =
          .ok (e, tokens) := by
        rw [readIdentifier_of_ne hassign, if_neg hlet]
        cases constant? name <;> exact ⟨_, rfl⟩
      obtain ⟨e, hok⟩ := hok
      rw [hok]
      refine .of_ok fun hnil => ?_
      subst hnil
      exact ahead_readIdentifier (confines_parseAt stop' size' depth .comparison) hlet pos more

private theorem continued_readClose {e : Expr} :
    Continued more (readClose stop e tokens) (readClose stop' e (tokens ++ more)) := by
  rcases tokens with _ | ⟨⟨lexeme, pos⟩, rest⟩
  · exact .of_incomplete rfl ((confines_readClose stop' e).ahead more)
  · rw [List.cons_append]
    by_cases hclose : lexeme = .symbol .closeParen
    · subst hclose
      refine .of_ok fun hnil => ?_
      subst hnil
      exact List.suffix_refl more
    · cases lexeme with
      | endOfInput => exact .of_error _
      | _ =>
        simp only [readClose, if_neg hclose]
        exact .of_error _

private theorem continued_readAtom (hsize : tokens.length ≤ size)
    (hsize' : tokens.length + more.length ≤ size')
    (hinner : ContinuedBelow stop size stop' size' depth more .comparison tokens) :
    Continued more (readAtom stop (parseAt stop size depth .comparison) tokens)
      (readAtom stop' (parseAt stop' size' depth .comparison) (tokens ++ more)) := by
  have hconfines := confines_parseAt stop' size' depth .comparison
  rcases tokens with _ | ⟨⟨lexeme, pos⟩, input⟩
  · exact .of_incomplete rfl (hconfines.readAtom.ahead more)
  simp only [List.length_cons] at hsize hsize'
  rw [List.cons_append]
  cases lexeme with
  | endOfInput => exact .of_error _
  | number x => exact .of_rest
  | string s => exact .of_rest
  | char c => exact .of_rest
  | identifier name =>
    refine continued_readIdentifier fun mid hmid => hinner mid ?_
    simp only [List.length_cons]
    omega
  | symbol s =>
    by_cases hs : s = .openParen
    · subst hs
      refine (hinner input (by simp)).andThen (fun _ _ => parseAt_append (by omega) (by omega))
        (fun err herr => by simp [readAtom, herr]) (fun err herr => by simp [readAtom, herr])
        (fun e rest hok hok' => ?_) (fun e hok => ?_) fun e rest hok' hsuffix => ?_
      · simp only [readAtom, if_true, hok, hok']
        exact continued_readClose
      · simp only [readAtom, if_true, hok]
        exact .inr ⟨_, rfl, rfl⟩
      · simp only [readAtom, if_true, hok']
        exact (confines_readClose stop' e rest).ahead hsuffix
    · simp only [readAtom, if_neg hs]
      exact .of_error _

/-! ### Levels -/

/-- Where no tokens are left an operand is missing, or there are too few levels for any. -/
private theorem continued_parseAt_nil (level : Level) :
    Continued more (parseAt stop size depth level []) (parseAt stop' size' depth level more) := by
  by_cases hdepth : 10 ≤ depth + level.rank
  · rw [parseAt_nil hdepth]
    exact .of_incomplete rfl ((confines_parseAt stop' size' depth level).ahead more)
  · rw [parseAt_of_lt (by omega), parseAt_of_lt (by omega)]
    exact .of_error _

/-- **Cut levels.** On every level, and with the same number of levels to open, the errors in front
of a cut bear on those of the whole. -/
theorem continued_parseAt (level : Level) (hsize : tokens.length ≤ size)
    (hsize' : tokens.length + more.length ≤ size') :
    Continued more (parseAt stop size depth level tokens)
      (parseAt stop' size' depth level (tokens ++ more)) := by
  -- On the depth, as in reading on: the level takes the same step on both sides.
  induction depth generalizing level tokens with
  | zero => exact .of_error _
  | succ depth ih =>
    by_cases hne : tokens = []
    · subst hne
      exact continued_parseAt_nil level
    have hlead : leading? (tokens ++ more) = leading? tokens :=
      (extends_append tokens more).leading?_eq hne
    have hstep := levelStep_parseAt stop size depth level tokens
    generalize parseAt stop size (depth + 1) level tokens = result at hstep ⊢
    cases hstep with
    | bang pos input =>
      simp only [List.length_cons] at hsize hsize'
      rw [List.cons_append, parseAt_bang]
      exact (ih .comparison (by omega) (by omega)).readUnary _
    | chain hchain hbang =>
      have hconfines := confines_parseAt stop' size' depth level.tighter
      rw [parseAt_chain hchain (by rwa [hlead])]
      refine (ih level.tighter hsize hsize').andThen (fun _ _ => parseAt_append hsize hsize')
        (fun _ => readJoined_of_error) (fun _ => readJoined_of_error) (fun e rest hok hok' => ?_)
        (fun e hok => ?_) fun e rest hok' hsuffix => ?_
      · rw [readJoined_of_ok hok, readJoined_of_ok hok']
        have hlt := shortens_parseAt _ _ _ _ _ _ _ hok
        exact continued_readChain (fun mid hmid => ih level.tighter (by omega) (by omega))
          (by omega) (by omega) (by omega)
      · rw [readJoined_of_ok hok, readChain_of_avoids (avoids_nil _)]
        exact .inl ⟨e, rfl⟩
      · rw [readJoined_of_ok hok']
        exact (hconfines.readChain size' e rest).ahead hsuffix
    | sign hop pos input =>
      simp only [List.length_cons] at hsize hsize'
      rw [List.cons_append, parseAt_sign hop]
      exact (ih .signed (by omega) (by omega)).readUnary _
    | unsigned hplus hminus =>
      rw [parseAt_unsigned (by rwa [hlead]) (by rwa [hlead])]
      exact ih .power hsize hsize'
    | noBase hbase =>
      have hatom := ih .atom hsize hsize'
      rw [hbase] at hatom
      refine hatom.andThen (fun _ _ hok => ?_) (fun _ herr => herr)
        (fun _ => parseAt_power_of_error) (fun e rest hok => ?_) (fun e hok => ?_)
        fun e rest hok' hsuffix => ?_
      · simp at hok
      · simp at hok
      · simp at hok
      · rw [parseAt_power_of_ok hok']
        exact ((confines_parseAt stop' size' depth .signed).readPower e rest).ahead hsuffix
    | @power _ rest base hbase =>
      have hlt := shortens_parseAt _ _ _ _ _ _ _ hbase
      refine (ih .atom hsize hsize').andThen (fun _ _ => parseAt_append hsize hsize')
        (fun _ herr => ?_) (fun _ => parseAt_power_of_error) (fun e mid hok hok' => ?_)
        (fun e hok => ?_) fun e mid hok' hsuffix => ?_
      · simp [hbase] at herr
      · obtain ⟨rfl, rfl⟩ : base = e ∧ rest = mid := by simpa [hbase] using hok
        rw [parseAt_power_of_ok hok']
        exact continued_readPower fun input hinput => ih .signed (by omega) (by omega)
      · obtain ⟨rfl, rfl⟩ : base = e ∧ rest = [] := by simpa [hbase] using hok
        exact .inl ⟨base, readPower_of_ne (by simp)⟩
      · rw [parseAt_power_of_ok hok']
        exact ((confines_parseAt stop' size' depth .signed).readPower e mid).ahead hsuffix
    | atom =>
      rw [parseAt_atom]
      exact continued_readAtom hsize hsize' fun input hinput =>
        ih .comparison (by omega) (by omega)

/-! ### Statements -/

private theorem continued_readInit (name : String) (hsize : tokens.length ≤ size)
    (hsize' : tokens.length + more.length ≤ size') :
    Continued more (readInit stop (parseAt stop size limit .comparison) name tokens)
      (readInit stop' (parseAt stop' size' limit .comparison) name (tokens ++ more)) := by
  rcases tokens with _ | ⟨⟨lexeme, pos⟩, input⟩
  · have hconfines := (confines_parseAt stop' size' limit .comparison).readInit name
    exact .of_incomplete rfl (hconfines.ahead more)
  simp only [List.length_cons] at hsize hsize'
  rw [List.cons_append]
  by_cases hassign : lexeme = .symbol .assign
  · subst hassign
    rw [readInit_eq_map, readInit_eq_map]
    exact (continued_parseAt .comparison (by omega) (by omega)).map _
  · cases lexeme with
    | endOfInput => exact .of_error _
    | _ =>
      simp only [readInit, if_neg hassign]
      exact .of_error _

private theorem continued_readDeclaration (hsize : tokens.length ≤ size)
    (hsize' : tokens.length + more.length ≤ size') :
    Continued more (readDeclaration stop (parseAt stop size limit .comparison) tokens)
      (readDeclaration stop' (parseAt stop' size' limit .comparison) (tokens ++ more)) := by
  rcases tokens with _ | ⟨⟨lexeme, pos⟩, input⟩
  · have hconfines := (confines_parseAt stop' size' limit .comparison).readDeclaration
    exact .of_incomplete rfl (hconfines.ahead more)
  simp only [List.length_cons] at hsize hsize'
  rw [List.cons_append]
  cases lexeme with
  | identifier name =>
    cases hname : isReserved name with
    | true =>
      simp only [readDeclaration, hname, if_true]
      exact .of_error _
    | false =>
      simp only [readDeclaration, hname, Bool.false_eq_true, if_false]
      exact continued_readInit name (by omega) (by omega)
  | _ => exact .of_error _

/-- **Cut statements.** There has to be a token in front of the cut, which says whether the
statement is a declaration. -/
theorem continued_parseStatementAt (hne : tokens ≠ []) (hsize : tokens.length ≤ size)
    (hsize' : tokens.length + more.length ≤ size') :
    Continued more (parseStatementAt stop size limit tokens)
      (parseStatementAt stop' size' limit (tokens ++ more)) := by
  unfold parseStatementAt
  obtain ⟨⟨lexeme, pos⟩, input, rfl⟩ := List.exists_cons_of_ne_nil hne
  by_cases hlet : lexeme = .identifier declareWord
  · subst hlet
    simp only [List.length_cons] at hsize hsize'
    simp only [List.cons_append, readStatement, if_true]
    exact continued_readDeclaration (by omega) (by omega)
  · have hplain (input : List Token) (pos' : Nat) (rest : List Token) :
        ⟨lexeme, pos⟩ :: input ≠ ⟨.identifier declareWord, pos'⟩ :: rest :=
      fun heq => hlet (congrArg Token.lexeme (List.cons.inj heq).1)
    rw [List.cons_append, readStatement_of_ne (hplain input),
      readStatement_of_ne (hplain (input ++ more))]
    exact continued_parseAt .comparison hsize hsize'

/-! ### Programs -/

/-- The same of programs. A program is settled if it is wrong. -/
structure ContinuedProgram (more : List Token) (result result' : Except ParseError (List Expr)) :
    Prop where
  final : ∀ err, result = .error err → err.isIncomplete = false →
    ∃ err', result' = .error err' ∧ err.Becomes err'
  later : (∀ err, result = .error err → err.isIncomplete) →
    ∀ err' t, result' = .error err' → err'.culprit? = some t → t ∈ more

namespace ContinuedProgram

variable {result result' : Except ParseError (List Expr)}

theorem of_ok {es : List Expr}
    (h : ∀ err t, result' = .error err → err.culprit? = some t → t ∈ more) :
    ContinuedProgram more (.ok es) result' where
  final err heq := by simp at heq
  later _ := h

theorem of_error {err : ParseError} (hfinal : err.isIncomplete = false) :
    ContinuedProgram more (.error err) (.error err) where
  final err' heq _ := ⟨err, rfl, .inl (by simpa using heq)⟩
  later hincomplete := by simp [hincomplete err rfl] at hfinal

theorem map (h : ContinuedProgram more result result') (f : List Expr → List Expr) :
    ContinuedProgram more (result.map f) (result'.map f) := by
  have herror {result : Except ParseError (List Expr)} {err : ParseError} :
      result.map f = .error err ↔ result = .error err := by
    cases result <;> simp [Except.map]
  exact ⟨by simpa only [herror] using h.final, by simpa only [herror] using h.later⟩

end ContinuedProgram

theorem readStatements_eq_map {statement : Reader} {fuel : Nat} {t : Token}
    {rest rest' : List Token} {e : Expr} (ht : t.lexeme ≠ .symbol .semicolon)
    (h : statement (t :: rest) = .ok (e, rest')) (hend : blockingToken? rest' = none) :
    readStatements statement (fuel + 1) (t :: rest) =
      (readStatements statement fuel rest').map (e :: ·) := by
  rcases hmore : readStatements statement fuel rest' with err | es
  · exact readStatements_of_more_error ht h hend hmore
  · exact readStatements_of_more_ok ht h hend hmore

/-- A statement that has got as far as `more` leaves only tokens of `more` to find fault with. -/
theorem Ahead.mem_of_readStatements {statement : Reader} {fuel : Nat} {t found : Token}
    {rest : List Token} {err : ParseError} (h : Ahead more (statement (t :: rest)))
    (hconfines : Confines stop statement) (ht : t.lexeme ≠ .symbol .semicolon)
    (herr : readStatements statement (fuel + 1) (t :: rest) = .error err)
    (hfound : err.culprit? = some found) : found ∈ more := by
  rcases hread : statement (t :: rest) with err₁ | ⟨e, rest₁⟩
  · rw [hread] at h
    obtain rfl : err₁ = err := by simpa [readStatements_of_error ht hread] using herr
    exact h found hfound
  · rw [hread] at h
    refine h.subset ?_
    rcases hend : blockingToken? rest₁ with _ | found₁
    · rw [readStatements_eq_map ht hread hend] at herr
      rcases hmore : readStatements statement fuel rest₁ with err₁ | es
      · obtain rfl : err₁ = err := by simpa [hmore, Except.map] using herr
        exact (liesIn_of_readStatements hconfines hmore).mem_of_culprit? hfound
      · simp [hmore, Except.map] at herr
    · obtain rfl : _ = err := by simpa [readStatements, ht, hread, hend] using herr
      obtain rfl : found₁ = found := by simpa [ParseError.culprit?] using hfound
      exact mem_of_blockingToken? hend

/-- **Cut programs.** The statement that the cut goes through decides, since those in front of it
are read again. -/
theorem continued_readStatements {fuel fuel' : Nat} (hsize : tokens.length ≤ size)
    (hsize' : tokens.length + more.length ≤ size') (hfuel : tokens.length ≤ fuel)
    (hfuel' : tokens.length + more.length ≤ fuel') :
    ContinuedProgram more (readStatements (parseStatementAt stop size limit) fuel tokens)
      (readStatements (parseStatementAt stop' size' limit) fuel' (tokens ++ more)) := by
  have hconfines := confines_parseStatementAt stop' size' limit
  induction fuel generalizing tokens fuel' with
  | zero =>
    obtain rfl : tokens = [] := by simpa using hfuel
    exact .of_ok fun err t herr => (liesIn_of_readStatements hconfines herr).mem_of_culprit?
  | succ fuel ih =>
    rcases tokens with _ | ⟨t, rest⟩
    · exact .of_ok fun err t herr => (liesIn_of_readStatements hconfines herr).mem_of_culprit?
    have hstatement : Continued more (parseStatementAt stop size limit (t :: rest))
        (parseStatementAt stop' size' limit (t :: rest ++ more)) :=
      continued_parseStatementAt (by simp) hsize hsize'
    simp only [List.length_cons] at hsize hsize' hfuel hfuel'
    obtain ⟨fuel', rfl⟩ : ∃ k, fuel' = k + 1 := ⟨fuel' - 1, by omega⟩
    by_cases ht : t.lexeme = .symbol .semicolon
    · obtain ⟨lexeme, pos⟩ := t
      subst ht
      rw [List.cons_append, readStatements_semicolon, readStatements_semicolon]
      exact ih (by omega) (by omega) (by omega) (by omega)
    have hlater (hunsettled : Unsettled (parseStatementAt stop size limit (t :: rest)))
        (err : ParseError) (found : Token)
        (herr : readStatements (parseStatementAt stop' size' limit) (fuel' + 1)
          (t :: rest ++ more) = .error err)
        (hfound : err.culprit? = some found) : found ∈ more :=
      (hstatement.later hunsettled).mem_of_readStatements hconfines ht herr hfound
    rcases hread : parseStatementAt stop size limit (t :: rest) with err | ⟨e, rest₁⟩
    · -- The statement in front of the cut is wrong, or it has ended too soon.
      rw [readStatements_of_error ht hread]
      refine ⟨fun err₁ heq hfinal => ?_, fun hincomplete => hlater ?_⟩
      · obtain rfl : err = err₁ := by simpa using heq
        obtain ⟨err', herr', hbecomes⟩ := hstatement.final err hread hfinal
        exact ⟨err', readStatements_of_error ht herr', hbecomes⟩
      · exact .inr ⟨err, hread, hincomplete err rfl⟩
    · by_cases hnil : rest₁ = []
      · -- It was read to the cut, and `more` may carry it on.
        subst hnil
        rw [readStatements_of_more_ok ht hread rfl readStatements_nil]
        exact .of_ok (hlater (.inl ⟨e, hread⟩))
      · -- It ends in front of the cut, and so does what decides whether it may end there.
        have hread' : parseStatementAt stop' size' limit (t :: (rest ++ more)) =
            .ok (e, rest₁ ++ more) := by
          refine parseStatementAt_append hsize ?_ hread fun heq => absurd heq hnil
          simp only [List.length_append, List.length_cons]
          omega
        have hblock : blockingToken? (rest₁ ++ more) = blockingToken? rest₁ := by
          obtain ⟨t', rest', rfl⟩ := List.exists_cons_of_ne_nil hnil
          rfl
        have hlt := length_lt_of_parseStatementAt hsize hread
        simp only [List.length_cons] at hlt
        rw [List.cons_append]
        rcases hend : blockingToken? rest₁ with _ | found
        · rw [readStatements_eq_map ht hread hend,
            readStatements_eq_map ht hread' (hblock.trans hend)]
          exact (ih (by omega) (by omega) (by omega) (by omega)).map _
        · rw [hend] at hblock
          simp only [readStatements, ht, if_false, hread, hread', hend, hblock]
          exact .of_error rfl

private theorem continued_parseProgramWithin (limit : Nat) (hends : ∀ t ∈ tokens, t.isEnd = false)
    (hmore : ∀ t ∈ more, t.isEnd = false) (stop stop' : Nat) :
    ContinuedProgram more (parseProgramWithin limit (tokens ++ [⟨.endOfInput, stop⟩]))
      (parseProgramWithin limit (tokens ++ more ++ [⟨.endOfInput, stop'⟩])) := by
  have hends' : ∀ t ∈ tokens ++ more, t.isEnd = false := by
    simpa [or_imp, forall_and] using ⟨hends, hmore⟩
  rw [parseProgramWithin_append_end hends, parseProgramWithin_append_end hends',
    List.length_append]
  exact continued_readStatements (Nat.le_refl _) (Nat.le_refl _) (Nat.le_refl _) (Nat.le_refl _)

/-! ### Beginnings of programs -/

/-- The tokens are the beginning of tokens that the parser accepts. -/
def Viable (limit : Nat) (ts : List Token) : Prop :=
  ∃ more es, parseProgramWithin limit (ts ++ more) = .ok es

/-- Tokens begin a program unless they are wrong as they stand. -/
theorem viable_iff (hlimit : 10 ≤ limit) (hends : ∀ t ∈ tokens, t.isEnd = false) (stop : Nat) :
    Viable limit tokens ↔ ∀ err,
      parseProgramWithin limit (tokens ++ [⟨.endOfInput, stop⟩]) = .error err →
        err.isIncomplete := by
  constructor
  · rintro ⟨more, es, hes⟩ err herr
    rw [← Bool.not_eq_false]
    intro hfinal
    obtain ⟨err', herr', -⟩ := exists_parseProgramWithin_error hends herr hfinal more
    simp [hes] at herr'
  · intro h
    rcases hparse : parseProgramWithin limit (tokens ++ [⟨.endOfInput, stop⟩]) with err | es
    · obtain ⟨us, -, -, hus⟩ :=
        exists_parseProgramWithin_completed hlimit hends hparse (h err hparse)
      obtain ⟨es, hes⟩ := hus stop
      rw [List.append_assoc] at hes
      exact ⟨_, es, hes⟩
    · exact ⟨_, es, hparse⟩

theorem viable_nil (limit : Nat) : Viable limit [] := ⟨[], [], rfl⟩

theorem Viable.of_append (h : Viable limit (tokens ++ more)) : Viable limit tokens := by
  obtain ⟨us, es, hes⟩ := h
  rw [List.append_assoc] at hes
  exact ⟨more ++ us, es, hes⟩

/-- Tokens that begin no program have a first one with which they stop beginning one. -/
theorem exists_first_of_not_viable {before : List Token} (hbefore : Viable limit before)
    (h : ¬Viable limit (before ++ tokens)) :
    ∃ front t back, before ++ tokens = front ++ t :: back ∧ Viable limit front ∧
      ¬Viable limit (front ++ [t]) := by
  induction tokens generalizing before with
  | nil =>
    rw [List.append_nil] at h
    exact absurd hbefore h
  | cons t rest ih =>
    by_cases hviable : Viable limit (before ++ [t])
    · rw [List.append_cons] at h ⊢
      exact ih hviable h
    · exact ⟨before, t, rest, rfl, hbefore, hviable⟩

/-- **The culprit.** The token complained about is the first one with which the tokens stop
beginning a program. -/
theorem eq_culprit (hlimit : 10 ≤ limit) {front back : List Token} {t found : Token}
    {err : ParseError} (hends : ∀ t' ∈ front ++ t :: back, t'.isEnd = false)
    (hfront : Viable limit front) (ht : ¬Viable limit (front ++ [t]))
    (h : parseProgramWithin limit (front ++ t :: back ++ [⟨.endOfInput, stop⟩]) = .error err)
    (hfound : err.culprit? = some found) : found = t := by
  obtain ⟨hends₁, hend, hends₂⟩ : (∀ t' ∈ front, t'.isEnd = false) ∧ t.isEnd = false ∧
      ∀ t' ∈ back, t'.isEnd = false := by
    simpa [or_imp, forall_and] using hends
  have hends' : ∀ t' ∈ front ++ [t], t'.isEnd = false := by
    simpa [or_imp, forall_and] using ⟨hends₁, hend⟩
  -- The error is there once the token is, and it is the error of the whole.
  rw [viable_iff hlimit hends' stop] at ht
  obtain ⟨err₀, herr₀, hfinal⟩ : ∃ err₀, parseProgramWithin limit
      (front ++ [t] ++ [⟨.endOfInput, stop⟩]) = .error err₀ ∧ err₀.isIncomplete = false := by
    simpa using ht
  obtain ⟨err', herr', hbecomes⟩ :=
    (continued_parseProgramWithin limit hends' hends₂ stop stop).final err₀ herr₀ hfinal
  obtain rfl : err = err' := by
    rw [List.append_cons front] at h
    exact Except.error.inj (h.symm.trans herr')
  obtain rfl : err = err₀ := by
    rcases hbecomes with heq | ⟨pos, -, rfl⟩
    · exact heq
    · simp [ParseError.culprit?] at hfound
  -- In front of the token nothing was settled, so it is the token that is at fault.
  have hcut := continued_parseProgramWithin limit hends₁ (List.forall_mem_singleton.mpr hend)
    stop stop
  have hopen := (viable_iff hlimit hends₁ stop).mp hfront
  exact List.mem_singleton.mp (hcut.later hopen err found herr₀ hfound)

private theorem parseProgramWithin_ofTokens (limit : Nat) (ts : List Token) :
    parseProgramWithin limit ts = parseProgramWithin limit
      ((ParseInput.ofTokens ts).tokens ++ [⟨.endOfInput, (ParseInput.ofTokens ts).stop⟩]) := by
  simp only [parseProgramWithin, ofTokens_append_end fun _ => isEnd_of_mem_ofTokens]

private theorem exists_first_of_culprit (hlimit : 10 ≤ limit) {ts : List Token} {err : ParseError}
    {found : Token} (h : parseProgramWithin limit ts = .error err)
    (hfound : err.culprit? = some found) :
    ∃ front back, ts = front ++ found :: back ∧ Viable limit front ∧
      ¬Viable limit (front ++ [found]) := by
  have hends : ∀ t ∈ (ParseInput.ofTokens ts).tokens, t.isEnd = false :=
    fun _ => isEnd_of_mem_ofTokens
  rw [parseProgramWithin_ofTokens] at h
  have hnot : ¬Viable limit (ParseInput.ofTokens ts).tokens := by
    intro hviable
    have hincomplete := (viable_iff hlimit hends _).mp hviable err h
    simp [ParseError.culprit?_of_isIncomplete hincomplete] at hfound
  obtain ⟨front, t, back, htokens, hfront, ht⟩ :=
    exists_first_of_not_viable (viable_nil limit) (by rwa [List.nil_append])
  rw [List.nil_append] at htokens
  rw [htokens] at h hends
  obtain rfl := eq_culprit hlimit hends hfront ht h hfound
  obtain ⟨after, hts⟩ : front ++ found :: back <+: ts := htokens ▸ List.takeWhile_prefix _
  exact ⟨front, back ++ after, by simpa using hts.symm, hfront, ht⟩

/-- The place of such a token is the least one with which the tokens begin no program. -/
theorem isLeast_of_viable {front : List Token} {t : Token} (back : List Token)
    (hfront : Viable limit front) (ht : ¬Viable limit (front ++ [t])) :
    IsLeast {i | ¬Viable limit ((front ++ t :: back).take (i + 1))} front.length := by
  have htake : (front ++ t :: back).take (front.length + 1) = front ++ [t] := by
    rw [List.append_cons]
    exact List.take_left' (by simp)
  refine ⟨by rwa [Set.mem_ofPred_eq, htake], fun j hj => ?_⟩
  by_contra hlt
  refine hj ?_
  rw [List.take_append_of_le_length (by omega)]
  rw [← List.take_append_drop (j + 1) front] at hfront
  exact hfront.of_append

/-- **Errors are placed where the input stops being right.** Let the parser complain about some
tokens.

* If it complains about a token that it does not expect, then that token is the first one with which
  the tokens stop being the beginning of a program, and it is where the error is placed.
* If it complains about the end of the input, then the error is placed at that end, which for the
  tokens of a text is the length of the text.
* If it complains about a reserved name, then the error is placed at an identifier that is one.
* Running out of levels is the only error that has no place.

Ten levels are what a number in place of a statement takes. -/
theorem parseProgram_error_located (limit : Nat) (hlimit : 10 ≤ limit) (ts : List Token)
    (err : ParseError) (h : parseProgramWithin limit ts = .error err) :
    (∀ t, err.culprit? = some t → err.pos? = some t.pos ∧
      ∃ i, ts[i]? = some t ∧ IsLeast {i | ¬Viable limit (ts.take (i + 1))} i ∧
        Viable limit (ts.take i)) ∧
    (err.isIncomplete → err.pos? = some (ParseInput.ofTokens ts).stop ∧
      ∀ source, Token.lex source = .ok ts → err.pos? = some source.length) ∧
    (∀ name pos, err = .reserved name pos →
      ⟨.identifier name, pos⟩ ∈ ts ∧ name ∈ reservedWords) ∧
    (err.pos? = none ↔ err = .nestingTooDeep) := by
  have hlies : err.LiesIn (ParseInput.ofTokens ts).stop (ParseInput.ofTokens ts).tokens :=
    liesIn_of_readStatements (confines_parseStatementAt _ _ _) h
  refine ⟨fun t ht => ⟨ParseError.pos?_of_culprit? ht, ?_⟩, fun hincomplete => ?_, ?_, ?_⟩
  · obtain ⟨front, back, rfl, hfront, hturn⟩ := exists_first_of_culprit hlimit h ht
    exact ⟨front.length, by simp, isLeast_of_viable back hfront hturn, by simpa using hfront⟩
  · have hpos := hlies.pos?_of_isIncomplete hincomplete fun _ => isEnd_of_mem_ofTokens
    refine ⟨hpos, fun source hlex => ?_⟩
    obtain ⟨body, rfl, hbody⟩ := Token.exists_body_of_lex hlex
    rwa [ofTokens_append_end fun t ht => by simpa [Token.isEnd] using hbody t ht] at hpos
  · rintro name pos rfl
    obtain ⟨hname, hmem⟩ := hlies
    refine ⟨(List.takeWhile_prefix _).subset hmem, ?_⟩
    by_contra hnot
    simp [isReserved_eq_false_iff_notMem.mpr hnot] at hname
  · cases err <;> simp [ParseError.pos?]

/-- At `(1 2)`, where the second number is at fault and nothing before it, and at the text `(a`,
which ends too soon. -/
theorem parseProgram_error_located_group :
    let ts : List Token := [⟨.symbol .openParen, 0⟩, ⟨.number .one, 1⟩, ⟨.number .one, 3⟩,
      ⟨.symbol .closeParen, 4⟩, ⟨.endOfInput, 5⟩]
    (∃ i, ts[i]? = some ⟨.number .one, 3⟩ ∧
      IsLeast {i | ¬Viable nestingLimit (ts.take (i + 1))} i ∧ Viable nestingLimit (ts.take i)) ∧
    (ParseError.unclosedGroup 2).pos? = some "(a".length := by
  intro ts
  have hgroup := parseProgram_error_located nestingLimit (by decide) ts
    (.unexpected .closeParen (.number .one) 3) rfl
  have hended := parseProgram_error_located nestingLimit (by decide)
    [⟨.symbol .openParen, 0⟩, ⟨.identifier "a", 1⟩, ⟨.endOfInput, 2⟩] (.unclosedGroup 2) rfl
  exact ⟨(hgroup.1 _ rfl).2, (hended.2.1 rfl).2 "(a" (by with_unfolding_all rfl)⟩

end Expr

end Reckon
