import Reckon.Proofs.Expr.Sentence

/-!
# Where errors lie

An error of the parser is about one of the tokens it was given or about the place where they end,
and a reader that succeeds leaves an ending of its tokens (`Expr.Confined`). Each reader hands a
part of its tokens to the next one, so this is carried from the atoms through the levels up to
statements and programs (`Expr.liesIn_of_readStatements`).
-/

namespace Reckon

namespace ParseError

/-- The token that cannot stand where it does, if the error is about one. -/
def culprit? : ParseError → Option Token
  | unexpected _ found pos => some ⟨found, pos⟩
  | misplacedLet pos => some ⟨.identifier Expr.declareWord, pos⟩
  | _ => none

/-- The error is about one of the tokens, or about their end. -/
def LiesIn (stop : Nat) (tokens : List Token) : ParseError → Prop
  | unexpected _ found pos => ⟨found, pos⟩ ∈ tokens
  | misplacedLet pos => ⟨.identifier Expr.declareWord, pos⟩ ∈ tokens
  | reserved name pos => Expr.isReserved name ∧ ⟨.identifier name, pos⟩ ∈ tokens
  | inputEnded _ pos | unclosedGroup pos => pos = stop ∨ ⟨.endOfInput, pos⟩ ∈ tokens
  | nestingTooDeep => True

variable {stop : Nat} {tokens tokens' : List Token} {err : ParseError}

theorem LiesIn.mono (h : err.LiesIn stop tokens) (hsub : tokens ⊆ tokens') :
    err.LiesIn stop tokens' := by
  cases err with
  | unexpected | misplacedLet => exact hsub h
  | reserved => exact ⟨h.1, hsub h.2⟩
  | inputEnded | unclosedGroup => exact h.imp_right (@hsub _)
  | nestingTooDeep => trivial

theorem LiesIn.mem_of_culprit? (h : err.LiesIn stop tokens) {t : Token}
    (ht : err.culprit? = some t) : t ∈ tokens := by
  cases err <;> simp only [culprit?, Option.some.injEq, reduceCtorEq] at ht <;> exact ht ▸ h

theorem pos?_of_culprit? {t : Token} (h : err.culprit? = some t) : err.pos? = some t.pos := by
  cases err <;> simp only [culprit?, Option.some.injEq, reduceCtorEq] at h <;> exact h ▸ rfl

/-- Without an end marker among the tokens, a complaint about the end of the input is placed at
it. -/
theorem LiesIn.pos?_of_isIncomplete (h : err.LiesIn stop tokens) (herr : err.isIncomplete)
    (hends : ∀ t ∈ tokens, t.isEnd = false) : err.pos? = some stop := by
  have hstop (pos : Nat) (hpos : pos = stop ∨ (⟨.endOfInput, pos⟩ : Token) ∈ tokens) :
      some pos = some stop := by
    rcases hpos with rfl | hmem
    · rfl
    · simpa [Token.isEnd] using hends _ hmem
  cases err <;> simp only [isIncomplete, Bool.false_eq_true] at herr <;> exact hstop _ h

end ParseError

namespace Expr

/-- What is left over is an ending of the tokens, and an error lies in them. -/
def Confined (stop : Nat) (tokens : List Token) :
    Except ParseError (Expr × List Token) → Prop
  | .ok (_, rest) => rest <:+ tokens
  | .error err => err.LiesIn stop tokens

/-- The reader keeps to the tokens it is given. -/
def Confines (stop : Nat) (reader : Reader) : Prop :=
  ∀ tokens, Confined stop tokens (reader tokens)

variable {stop size depth limit fuel : Nat} {tokens tokens' : List Token}

namespace Confined

variable {result first : Except ParseError (Expr × List Token)}

theorem mono (h : Confined stop tokens result) (hsuffix : tokens <:+ tokens') :
    Confined stop tokens' result := by
  rcases result with err | ⟨e, rest⟩
  · exact ParseError.LiesIn.mono h hsuffix.subset
  · exact List.IsSuffix.trans h hsuffix

/-- Sequencing: the second reader keeps to what the first one left over. -/
theorem andThen (h : Confined stop tokens first)
    (herror : ∀ err, first = .error err → result = .error err)
    (hok : ∀ e rest, first = .ok (e, rest) → Confined stop rest result) :
    Confined stop tokens result := by
  rcases hfirst : first with err | ⟨e, rest⟩
  · rw [hfirst] at h
    rw [herror err hfirst]
    exact h
  · rw [hfirst] at h
    exact (hok e rest hfirst).mono h

end Confined

/-! ### Readers -/

theorem Confines.readUnary {operand : Reader} (h : Confines stop operand) (op : Symbol) :
    Confines stop (readUnary op operand) := by
  intro tokens
  refine (h tokens).andThen (fun _ => readUnary_eq_error_iff.mpr) fun e rest hok => ?_
  rw [readUnary_eq_ok_iff.mpr ⟨e, hok, rfl⟩]
  exact List.suffix_refl rest

theorem Confines.readChain {joins : Symbol → Bool} {operand : Reader} (h : Confines stop operand)
    (fuel : Nat) (left : Expr) : Confines stop (readChain joins operand fuel left) := by
  intro tokens
  induction fuel generalizing left tokens with
  | zero => exact List.suffix_refl tokens
  | succ fuel ih =>
    rcases avoids_or_exists joins tokens with havoids | ⟨s, pos, input, hs, rfl⟩
    · rw [readChain_of_avoids havoids]
      exact List.suffix_refl tokens
    · refine ((h input).mono (List.suffix_cons _ _)).andThen
        (fun _ herr => readChain_of_error hs herr fuel pos) fun right rest hok => ?_
      rw [readChain_of_ok hs hok]
      exact ih _ rest

theorem Confines.readJoined {operand : Reader} (h : Confines stop operand) (size : Nat)
    (joins : Symbol → Bool) : Confines stop (readJoined size joins operand) := by
  intro tokens
  refine (h tokens).andThen (fun _ => readJoined_of_error) fun e rest hok => ?_
  rw [readJoined_of_ok hok]
  exact h.readChain size e rest

theorem Confines.readPower {exponent : Reader} (h : Confines stop exponent) (base : Expr) :
    Confines stop (readPower exponent base) := by
  intro tokens
  by_cases hpower : leading? tokens = some .power
  · obtain ⟨pos, input, rfl⟩ := exists_of_leading? hpower
    refine ((h input).mono (List.suffix_cons _ _)).andThen
      (fun _ herr => readPower_of_error herr pos) fun e rest hok => ?_
    rw [readPower_of_ok hok]
    exact List.suffix_refl rest
  · rw [readPower_of_ne hpower]
    exact List.suffix_refl tokens

theorem confines_readClose (stop : Nat) (e : Expr) : Confines stop (readClose stop e) := by
  intro tokens
  rcases tokens with _ | ⟨⟨lexeme, pos⟩, rest⟩
  · exact .inl rfl
  · by_cases hclose : lexeme = .symbol .closeParen
    · subst hclose
      exact List.suffix_cons _ _
    · cases lexeme with
      | endOfInput => exact .inr (List.mem_cons_self ..)
      | _ =>
        simp only [readClose, if_neg hclose]
        exact List.mem_cons_self ..

/-- Behind an identifier, the identifier itself can be at fault. -/
theorem Confines.readIdentifier {value : Reader} (h : Confines stop value) (name : String)
    (pos : Nat) (tokens : List Token) :
    Confined stop (⟨.identifier name, pos⟩ :: tokens) (readIdentifier value name pos tokens) := by
  by_cases hassign : leading? tokens = some .assign
  · obtain ⟨pos', input, rfl⟩ := exists_of_leading? hassign
    cases hname : isReserved name with
    | true =>
      simp only [Expr.readIdentifier, hname, if_true]
      exact ⟨hname, List.mem_cons_self ..⟩
    | false =>
      have hsuffix : input <:+ ⟨.identifier name, pos⟩ :: ⟨.symbol .assign, pos'⟩ :: input :=
        (List.suffix_cons _ _).trans (List.suffix_cons _ _)
      refine ((h input).mono hsuffix).andThen
        (fun _ => readIdentifier_assign_of_error hname) fun e rest hok => ?_
      rw [readIdentifier_assign_of_ok hname hok]
      exact List.suffix_refl rest
  · rw [readIdentifier_of_ne hassign]
    cases constant? name with
    | some v => exact List.suffix_cons _ _
    | none =>
      by_cases hlet : name = declareWord
      · subst hlet
        exact List.mem_cons_self ..
      · simp only [if_neg hlet]
        exact List.suffix_cons _ _

theorem Confines.readAtom {inner : Reader} (h : Confines stop inner) :
    Confines stop (readAtom stop inner) := by
  intro tokens
  rcases tokens with _ | ⟨⟨lexeme, pos⟩, input⟩
  · exact .inl rfl
  cases lexeme with
  | endOfInput => exact .inr (List.mem_cons_self ..)
  | number x => exact List.suffix_cons _ _
  | string s => exact List.suffix_cons _ _
  | char c => exact List.suffix_cons _ _
  | identifier name => exact h.readIdentifier name pos input
  | symbol s =>
    by_cases hs : s = .openParen
    · subst hs
      refine ((h input).mono (List.suffix_cons _ _)).andThen
        (fun err herr => by simp [Expr.readAtom, herr]) fun e rest hok => ?_
      simp only [Expr.readAtom, if_true, hok]
      exact confines_readClose stop e rest
    · simp only [Expr.readAtom, if_neg hs]
      exact List.mem_cons_self ..

/-- **Levels.** Reading a level keeps to the tokens. -/
theorem confines_parseAt (stop size depth : Nat) (level : Level) :
    Confines stop (parseAt stop size depth level) := by
  induction depth generalizing level with
  | zero =>
    intro tokens
    trivial
  | succ depth ih =>
    intro tokens
    have hstep := levelStep_parseAt stop size depth level tokens
    generalize parseAt stop size (depth + 1) level tokens = result at hstep ⊢
    cases hstep with
    | bang pos input => exact ((ih .comparison).readUnary _ input).mono (List.suffix_cons _ _)
    | chain hchain hbang => exact (ih level.tighter).readJoined size _ tokens
    | sign hop pos input => exact ((ih .signed).readUnary _ input).mono (List.suffix_cons _ _)
    | unsigned hplus hminus => exact ih .power tokens
    | noBase hbase =>
      have hatom := ih .atom tokens
      rwa [hbase] at hatom
    | @power _ rest base hbase =>
      have hatom := ih .atom tokens
      rw [hbase] at hatom
      exact ((ih .signed).readPower base rest).mono hatom
    | atom => exact (ih .comparison).readAtom tokens

/-! ### Statements and programs -/

theorem Confines.readInit {value : Reader} (h : Confines stop value) (name : String) :
    Confines stop (readInit stop value name) := by
  intro tokens
  rcases tokens with _ | ⟨⟨lexeme, pos⟩, input⟩
  · exact .inl rfl
  by_cases hassign : lexeme = .symbol .assign
  · subst hassign
    refine ((h input).mono (List.suffix_cons _ _)).andThen
      (fun err herr => by simp [Expr.readInit, herr]) fun e rest hok => ?_
    simp only [Expr.readInit, if_true, hok]
    exact List.suffix_refl rest
  · cases lexeme with
    | endOfInput => exact .inr (List.mem_cons_self ..)
    | _ =>
      simp only [Expr.readInit, if_neg hassign]
      exact List.mem_cons_self ..

theorem Confines.readDeclaration {value : Reader} (h : Confines stop value) :
    Confines stop (readDeclaration stop value) := by
  intro tokens
  rcases tokens with _ | ⟨⟨lexeme, pos⟩, input⟩
  · exact .inl rfl
  cases lexeme with
  | endOfInput => exact .inr (List.mem_cons_self ..)
  | identifier name =>
    cases hname : isReserved name with
    | true =>
      simp only [Expr.readDeclaration, hname, if_true]
      exact ⟨hname, List.mem_cons_self ..⟩
    | false =>
      simp only [Expr.readDeclaration, hname, Bool.false_eq_true, if_false]
      exact (h.readInit name input).mono (List.suffix_cons _ _)
  | _ => exact List.mem_cons_self ..

theorem Confines.readStatement {value : Reader} (h : Confines stop value) :
    Confines stop (readStatement stop value) := by
  intro tokens
  by_cases hlet : ∃ pos rest, tokens = ⟨.identifier declareWord, pos⟩ :: rest
  · obtain ⟨pos, rest, rfl⟩ := hlet
    rw [Expr.readStatement, if_pos rfl]
    exact (h.readDeclaration rest).mono (List.suffix_cons _ _)
  · rw [readStatement_of_ne fun pos rest heq => hlet ⟨pos, rest, heq⟩]
    exact h tokens

theorem confines_parseStatementAt (stop size limit : Nat) :
    Confines stop (parseStatementAt stop size limit) :=
  (confines_parseAt stop size limit .comparison).readStatement

theorem mem_of_blockingToken? {found : Token} (h : blockingToken? tokens = some found) :
    found ∈ tokens := by
  cases tokens with
  | nil => simp [blockingToken?] at h
  | cons t rest =>
    simp only [blockingToken?, Option.ite_none_left_eq_some, Option.some.injEq] at h
    exact h.2 ▸ List.mem_cons_self ..

/-- **Programs.** An error lies in the tokens of the program. -/
theorem liesIn_of_readStatements {statement : Reader} (hstatement : Confines stop statement)
    {err : ParseError} (h : readStatements statement fuel tokens = .error err) :
    err.LiesIn stop tokens := by
  fun_induction readStatements statement fuel tokens with
  | case1 | case2 | case7 => simp at h
  | case3 fuel t rest ht ih => exact (ih h).mono (List.subset_cons_self _ _)
  | case4 fuel t rest ht err₁ hread =>
    obtain rfl : err₁ = err := by simpa using h
    have hconfined := hstatement (t :: rest)
    rwa [hread] at hconfined
  | case5 fuel t rest ht e rest₁ hread found hfound =>
    obtain rfl : _ = err := by simpa using h
    have hconfined := hstatement (t :: rest)
    rw [hread] at hconfined
    exact hconfined.subset (mem_of_blockingToken? hfound)
  | case6 fuel t rest ht e rest₁ hread hend err₁ hmore ih =>
    obtain rfl : err₁ = err := by simpa using h
    have hconfined := hstatement (t :: rest)
    rw [hread] at hconfined
    exact (ih hmore).mono hconfined.subset

end Expr

end Reckon
