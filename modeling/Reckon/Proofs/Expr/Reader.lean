import Reckon.Expr.Parser

/-!
# What readers do, one step at a time

The equations here say which reader takes over at each level of `Expr.parseAt`, depending on the
symbol the tokens start with, and what each reader does with its operands. Later files reason from
them and do not unfold the readers again.

Two facts about all readers follow. A reader that succeeds has used up at least one token
(`Expr.shortens_parseAt`), so the bounds on loops are never exhausted; and a reader that may open
ten levels for every token, and ten more, never runs out of levels
(`Expr.parseAt_ne_nestingTooDeep`).
-/

namespace Reckon

/-- The level on which the symbol joins two operands, if it does. -/
def Symbol.level? : Symbol → Option Expr.Level
  | .equal | .notEqual | .greater | .less | .atLeast | .atMost => some .comparison
  | .pipe => some .union
  | .caret => some .exclusive
  | .ampersand => some .intersection
  | .shiftRight | .shiftLeft => some .shift
  | .plus | .minus => some .sum
  | .star | .slash | .percent => some .product
  | .power => some .power
  | _ => none

namespace Expr

/-! ### Levels -/

namespace Level

/-- The place of the level in the order from loose to tight. -/
def rank : Level → Nat
  | comparison => 0
  | union => 1
  | exclusive => 2
  | intersection => 3
  | shift => 4
  | sum => 5
  | product => 6
  | signed => 7
  | power => 8
  | atom => 9

/-- The symbol joins operands on this level or a tighter one, so that reading this level does not
stop in front of it. -/
def covers (level : Level) (s : Symbol) : Bool :=
  match s.level? with
  | some tight => level.rank ≤ tight.rank
  | none => false

/-- Operands of the level are joined in a loop, grouping to the left. -/
def isChain : Level → Bool
  | signed | power | atom => false
  | _ => true

theorem joins_iff {level : Level} {s : Symbol} (h : level.isChain) :
    level.joins s ↔ s.level? = some level := by
  cases level <;> simp [isChain] at h <;> cases s <;> decide

/-- On a level of the loop kind, what is covered is joined here or covered further down. -/
theorem covers_eq_of_isChain {level : Level} (h : level.isChain) (s : Symbol) :
    level.covers s = (level.joins s || level.tighter.covers s) := by
  cases level <;> simp [isChain] at h <;> cases s <;> rfl

theorem covers_comparison (s : Symbol) : comparison.covers s = s.level?.isSome := by
  cases s <;> rfl

theorem covers_signed (s : Symbol) : signed.covers s = (s == .power) := by
  cases s <;> rfl

theorem covers_power (s : Symbol) : power.covers s = (s == .power) := by
  cases s <;> rfl

theorem covers_atom (s : Symbol) : atom.covers s = false := by
  cases s <;> rfl

theorem ne_atom_of_isChain {level : Level} (h : level.isChain) : level ≠ .atom := by
  rintro rfl
  simp [isChain] at h

theorem rank_tighter {level : Level} (h : level ≠ .atom) :
    level.tighter.rank = level.rank + 1 := by
  cases level <;> first | rfl | exact absurd rfl h

theorem rank_injective {level level' : Level} (h : level.rank = level'.rank) : level = level' := by
  cases level <;> cases level' <;> simp [rank] at h <;> rfl

theorem rank_le (level : Level) : level.rank ≤ 9 := by
  cases level <;> decide

theorem ne_atom_of_rank_lt {level level' : Level} (h : level.rank < level'.rank) :
    level ≠ .atom := by
  rintro rfl
  exact absurd h (Nat.not_lt.mpr level'.rank_le)

/-- What a looser level does not cover, a tighter one does not cover. -/
theorem covers_eq_false_of_rank_le {level level' : Level} (h : level.rank ≤ level'.rank)
    {s : Symbol} (hs : level.covers s = false) : level'.covers s = false := by
  unfold covers at hs ⊢
  cases hlevel : s.level? with
  | none => rfl
  | some m =>
    simp only [hlevel, decide_eq_false_iff_not] at hs ⊢
    omega

end Level

/-! ### The first symbol -/

/-- The symbol that the tokens start with, if they start with one. -/
def leading? : List Token → Option Symbol
  | ⟨.symbol s, _⟩ :: _ => some s
  | _ => none

@[simp]
theorem leading?_nil : leading? [] = none := rfl

@[simp]
theorem leading?_symbol (s : Symbol) (pos : Nat) (rest : List Token) :
    leading? (⟨.symbol s, pos⟩ :: rest) = some s := rfl

theorem exists_of_leading? {tokens : List Token} {s : Symbol} (h : leading? tokens = some s) :
    ∃ pos rest, tokens = ⟨.symbol s, pos⟩ :: rest := by
  rcases tokens with _ | ⟨⟨lexeme, pos⟩, rest⟩
  · simp at h
  · cases lexeme <;> simp [leading?] at h
    exact ⟨pos, rest, by rw [h]⟩

/-- No symbol that satisfies the test stands in front. -/
def Avoids (test : Symbol → Bool) (tokens : List Token) : Prop :=
  ∀ s, leading? tokens = some s → test s = false

theorem avoids_nil (test : Symbol → Bool) : Avoids test [] := by
  intro s hs
  simp at hs

theorem avoids_symbol {test : Symbol → Bool} {s : Symbol} {pos : Nat} {rest : List Token} :
    Avoids test (⟨.symbol s, pos⟩ :: rest) ↔ test s = false := by
  simp [Avoids]

theorem Avoids.imp {test test' : Symbol → Bool} {tokens : List Token} (h : Avoids test tokens)
    (himp : ∀ s, test s = false → test' s = false) : Avoids test' tokens :=
  fun s hs => himp s (h s hs)

theorem avoids_or_exists (test : Symbol → Bool) (tokens : List Token) :
    Avoids test tokens ∨ ∃ s pos rest, test s ∧ tokens = ⟨.symbol s, pos⟩ :: rest := by
  cases hs : leading? tokens with
  | none => exact .inl fun s h => by simp [hs] at h
  | some s =>
    obtain ⟨pos, rest, rfl⟩ := exists_of_leading? hs
    cases htest : test s with
    | false => exact .inl (avoids_symbol.mpr htest)
    | true => exact .inr ⟨s, pos, rest, htest, rfl⟩

/-! ### Where an expression ends -/

/-- The symbol carries on an expression of the level: it joins it to more operands, or turns a name
at its end into the target of an assignment. -/
def Level.continues (level : Level) (s : Symbol) : Bool := level.covers s || s == .assign

/-- An expression of the level comes to its end in front of the tokens. -/
def Ends (level : Level) (rest : List Token) : Prop := Avoids level.continues rest

theorem ends_nil (level : Level) : Ends level [] := avoids_nil _

theorem ends_closeParen (level : Level) (pos : Nat) (rest : List Token) :
    Ends level (⟨.symbol .closeParen, pos⟩ :: rest) :=
  avoids_symbol.mpr (by cases level <;> rfl)

theorem Ends.mono {level level' : Level} {rest : List Token} (h : Ends level rest)
    (hrank : level.rank ≤ level'.rank) : Ends level' rest := by
  refine Avoids.imp h fun s hs => ?_
  simp only [Level.continues, Bool.or_eq_false_iff] at hs ⊢
  exact ⟨Level.covers_eq_false_of_rank_le hrank hs.1, hs.2⟩

theorem Ends.avoids_covers {level : Level} {rest : List Token} (h : Ends level rest) :
    Avoids level.covers rest :=
  Avoids.imp h fun _ hs => (Bool.or_eq_false_iff.mp hs).1

theorem Ends.leading?_ne_assign {level : Level} {rest : List Token} (h : Ends level rest) :
    leading? rest ≠ some .assign := by
  intro hassign
  have := h .assign hassign
  simp [Level.continues] at this

/-! ### Chains of operands -/

variable {joins : Symbol → Bool} {operand : Reader} {left : Expr} {tokens : List Token}

/-- A chain ends in front of anything that does not join. -/
theorem readChain_of_avoids (h : Avoids joins tokens) (fuel : Nat) :
    readChain joins operand fuel left tokens = .ok (left, tokens) := by
  cases fuel with
  | zero => rfl
  | succ fuel =>
    rcases tokens with _ | ⟨⟨lexeme, pos⟩, rest⟩
    · rfl
    · cases lexeme <;> simp [readChain]
      rename_i s
      simp [h s rfl]

/-- A chain goes on behind a symbol that joins. -/
theorem readChain_of_ok {s : Symbol} {right : Expr} {rest rest' : List Token} (hjoins : joins s)
    (h : operand rest = .ok (right, rest')) (fuel pos : Nat) :
    readChain joins operand (fuel + 1) left (⟨.symbol s, pos⟩ :: rest) =
      readChain joins operand fuel (.binary s left right) rest' := by
  simp [readChain, hjoins, h]

theorem readChain_of_error {s : Symbol} {err : ParseError} {rest : List Token} (hjoins : joins s)
    (h : operand rest = .error err) (fuel pos : Nat) :
    readChain joins operand (fuel + 1) left (⟨.symbol s, pos⟩ :: rest) = .error err := by
  simp [readChain, hjoins, h]

theorem readJoined_of_error {size : Nat} {err : ParseError} (h : operand tokens = .error err) :
    readJoined size joins operand tokens = .error err := by
  simp [readJoined, h]

theorem readJoined_of_ok {size : Nat} {e : Expr} {rest : List Token}
    (h : operand tokens = .ok (e, rest)) :
    readJoined size joins operand tokens = readChain joins operand size e rest := by
  simp [readJoined, h]

/-! ### Levels of the parser -/

variable {stop size depth : Nat}

@[simp]
theorem parseAt_zero (level : Level) : parseAt stop size 0 level tokens = .error .nestingTooDeep :=
  rfl

theorem parseAt_bang (pos : Nat) (rest : List Token) :
    parseAt stop size (depth + 1) .comparison (⟨.symbol .bang, pos⟩ :: rest) =
      readUnary .bang (parseAt stop size depth .comparison) rest := rfl

/-- A level of the loop kind joins operands of the next tighter one. Only in front of `!` is a
comparison something else. -/
theorem parseAt_chain {level : Level} (h : level.isChain)
    (hbang : level = .comparison → leading? tokens ≠ some .bang) :
    parseAt stop size (depth + 1) level tokens =
      readJoined size level.joins (parseAt stop size depth level.tighter) tokens := by
  cases level <;> simp only [Level.isChain, Bool.false_eq_true] at h <;> try rfl
  rcases tokens with _ | ⟨⟨lexeme, pos⟩, rest⟩
  · rfl
  · cases lexeme <;> try rfl
    rename_i s
    cases s <;> first | rfl | exact absurd rfl (hbang rfl)

theorem parseAt_sign {op : Symbol} (h : op = .plus ∨ op = .minus) (pos : Nat)
    (rest : List Token) :
    parseAt stop size (depth + 1) .signed (⟨.symbol op, pos⟩ :: rest) =
      readUnary op (parseAt stop size depth .signed) rest := by
  rcases h with rfl | rfl <;> rfl

theorem parseAt_unsigned (hplus : leading? tokens ≠ some .plus)
    (hminus : leading? tokens ≠ some .minus) :
    parseAt stop size (depth + 1) .signed tokens = parseAt stop size depth .power tokens := by
  rcases tokens with _ | ⟨⟨lexeme, pos⟩, rest⟩
  · rfl
  · cases lexeme <;> try rfl
    rename_i s
    cases s <;> first | rfl | exact absurd rfl hplus | exact absurd rfl hminus

theorem parseAt_power_of_error {err : ParseError}
    (h : parseAt stop size depth .atom tokens = .error err) :
    parseAt stop size (depth + 1) .power tokens = .error err := by
  simp [parseAt, h]

theorem parseAt_power_of_ok {base : Expr} {rest : List Token}
    (h : parseAt stop size depth .atom tokens = .ok (base, rest)) :
    parseAt stop size (depth + 1) .power tokens =
      readPower (parseAt stop size depth .signed) base rest := by
  simp [parseAt, h]

theorem parseAt_atom :
    parseAt stop size (depth + 1) .atom tokens =
      readAtom stop (parseAt stop size depth .comparison) tokens := rfl

/-! ### Powers, identifiers and parentheses -/

theorem readPower_of_ne {exponent : Reader} {base : Expr} (h : leading? tokens ≠ some .power) :
    readPower exponent base tokens = .ok (base, tokens) := by
  rcases tokens with _ | ⟨⟨lexeme, pos⟩, rest⟩
  · rfl
  · cases lexeme <;> try rfl
    rename_i s
    cases s <;> first | rfl | exact absurd rfl h

theorem readPower_of_ok {exponent : Reader} {base e : Expr} {rest rest' : List Token}
    (h : exponent rest = .ok (e, rest')) (pos : Nat) :
    readPower exponent base (⟨.symbol .power, pos⟩ :: rest) =
      .ok (.binary .power base e, rest') := by
  simp [readPower, h]

theorem readPower_of_error {exponent : Reader} {base : Expr} {err : ParseError} {rest : List Token}
    (h : exponent rest = .error err) (pos : Nat) :
    readPower exponent base (⟨.symbol .power, pos⟩ :: rest) = .error err := by
  simp [readPower, h]

theorem readIdentifier_assign_of_ok {value : Reader} {name : String} {e : Expr} {pos pos' : Nat}
    {rest rest' : List Token} (hname : isReserved name = false)
    (h : value rest = .ok (e, rest')) :
    readIdentifier value name pos (⟨.symbol .assign, pos'⟩ :: rest) =
      .ok (.assign name e, rest') := by
  simp [readIdentifier, hname, h]

theorem readIdentifier_assign_of_error {value : Reader} {name : String} {err : ParseError}
    {pos pos' : Nat} {rest : List Token} (hname : isReserved name = false)
    (h : value rest = .error err) :
    readIdentifier value name pos (⟨.symbol .assign, pos'⟩ :: rest) = .error err := by
  simp [readIdentifier, hname, h]

theorem readIdentifier_of_ne {value : Reader} {name : String} {pos : Nat}
    (h : leading? tokens ≠ some .assign) :
    readIdentifier value name pos tokens =
      match constant? name with
      | some v => .ok (.literal v, tokens)
      | none =>
        if name = declareWord then .error (.misplacedLet pos) else .ok (.access name, tokens) := by
  rcases tokens with _ | ⟨⟨lexeme, pos⟩, rest⟩
  · rfl
  · cases lexeme <;> try rfl
    rename_i s
    cases s <;> first | rfl | exact absurd rfl h

/-! ### How an atom can be read -/

/-- All ways in which `readAtom` succeeds, with `inner` as the reader of comparisons. -/
inductive AtomRead (inner : Reader) : List Token → Expr → List Token → Prop where
  | number (x : Binary64) (pos : Nat) (rest : List Token) :
      AtomRead inner (⟨.number x, pos⟩ :: rest) (.literal (.number x)) rest
  | string (s : String) (pos : Nat) (rest : List Token) :
      AtomRead inner (⟨.string s, pos⟩ :: rest) (.literal (.string s)) rest
  | char (c : Char) (pos : Nat) (rest : List Token) :
      AtomRead inner (⟨.char c, pos⟩ :: rest) (.literal (.char c)) rest
  | constant {word : String} {v : Value} {rest : List Token} (pos : Nat)
      (hword : constant? word = some v) (hrest : leading? rest ≠ some .assign) :
      AtomRead inner (⟨.identifier word, pos⟩ :: rest) (.literal v) rest
  | access {name : String} {rest : List Token} (pos : Nat) (hname : isReserved name = false)
      (hrest : leading? rest ≠ some .assign) :
      AtomRead inner (⟨.identifier name, pos⟩ :: rest) (.access name) rest
  | assign {name : String} {value : Expr} {input rest : List Token} (pos pos' : Nat)
      (hname : isReserved name = false) (hvalue : inner input = .ok (value, rest)) :
      AtomRead inner (⟨.identifier name, pos⟩ :: ⟨.symbol .assign, pos'⟩ :: input)
        (.assign name value) rest
  | group {e : Expr} {input rest : List Token} (pos pos' : Nat)
      (he : inner input = .ok (e, ⟨.symbol .closeParen, pos'⟩ :: rest)) :
      AtomRead inner (⟨.symbol .openParen, pos⟩ :: input) e rest

theorem isReserved_eq_false_iff {name : String} :
    isReserved name = false ↔ name ≠ declareWord ∧ constant? name = none := by
  simp [isReserved]

private theorem readClose_eq_ok_iff {stop : Nat} {e e' : Expr} {rest : List Token} :
    readClose stop e tokens = .ok (e', rest) ↔
      e' = e ∧ ∃ pos, tokens = ⟨.symbol .closeParen, pos⟩ :: rest := by
  constructor
  · intro h
    rcases tokens with _ | ⟨⟨lexeme, pos⟩, more⟩
    · simp [readClose] at h
    · by_cases hclose : lexeme = .symbol .closeParen
      · subst hclose
        simp only [readClose, if_true, Except.ok.injEq, Prod.mk.injEq] at h
        exact ⟨h.1.symm, pos, by rw [h.2]⟩
      · cases lexeme <;> simp [readClose, hclose] at h
  · rintro ⟨rfl, pos, rfl⟩
    simp [readClose]

private theorem atomRead_of_readIdentifier {inner : Reader} {name : String} {pos : Nat} {e : Expr}
    {rest : List Token} (h : readIdentifier inner name pos tokens = .ok (e, rest)) :
    AtomRead inner (⟨.identifier name, pos⟩ :: tokens) e rest := by
  by_cases hassign : leading? tokens = some .assign
  · obtain ⟨pos', input, rfl⟩ := exists_of_leading? hassign
    cases hname : isReserved name with
    | true => simp [readIdentifier, hname] at h
    | false =>
      rcases hvalue : inner input with err | ⟨value, rest'⟩
      · simp [readIdentifier_assign_of_error hname hvalue] at h
      · rw [readIdentifier_assign_of_ok hname hvalue] at h
        obtain ⟨rfl, rfl⟩ : .assign name value = e ∧ rest' = rest := by simpa using h
        exact .assign pos pos' hname hvalue
  · rw [readIdentifier_of_ne hassign] at h
    cases hword : constant? name with
    | some v =>
      obtain ⟨rfl, rfl⟩ : .literal v = e ∧ tokens = rest := by simpa [hword] using h
      exact .constant pos hword hassign
    | none =>
      by_cases hlet : name = declareWord
      · simp only [hword, if_pos hlet, reduceCtorEq] at h
      · obtain ⟨rfl, rfl⟩ : .access name = e ∧ tokens = rest := by simpa [hword, hlet] using h
        exact .access pos (isReserved_eq_false_iff.mpr ⟨hlet, hword⟩) hassign

/-- **Atoms.** What `readAtom` reads is exactly what `AtomRead` lists. -/
theorem readAtom_eq_ok_iff {stop : Nat} {inner : Reader} {e : Expr} {rest : List Token} :
    readAtom stop inner tokens = .ok (e, rest) ↔ AtomRead inner tokens e rest := by
  constructor
  · intro h
    rcases tokens with _ | ⟨⟨lexeme, pos⟩, input⟩
    · simp [readAtom] at h
    · cases lexeme with
      | endOfInput => simp [readAtom] at h
      | number x =>
        obtain ⟨rfl, rfl⟩ : _ = e ∧ input = rest := by simpa [readAtom] using h
        exact .number x pos input
      | string s =>
        obtain ⟨rfl, rfl⟩ : _ = e ∧ input = rest := by simpa [readAtom] using h
        exact .string s pos input
      | char c =>
        obtain ⟨rfl, rfl⟩ : _ = e ∧ input = rest := by simpa [readAtom] using h
        exact .char c pos input
      | identifier name => exact atomRead_of_readIdentifier h
      | symbol s =>
        by_cases hs : s = .openParen
        · subst hs
          rcases hinner : inner input with err | ⟨e', rest'⟩
          · simp [readAtom, hinner] at h
          · simp only [readAtom, if_true, hinner, readClose_eq_ok_iff] at h
            obtain ⟨rfl, pos', rfl⟩ := h
            exact .group pos pos' hinner
        · simp [readAtom, hs] at h
  · intro h
    cases h with
    | number x pos => rfl
    | string s pos => rfl
    | char c pos => rfl
    | constant pos hword hrest => simp [readAtom, readIdentifier_of_ne hrest, hword]
    | access pos hname hrest =>
      obtain ⟨hlet, hword⟩ := isReserved_eq_false_iff.mp hname
      simp [readAtom, readIdentifier_of_ne hrest, hword, hlet]
    | assign pos pos' hname hvalue => simp [readAtom, readIdentifier_assign_of_ok hname hvalue]
    | group pos pos' he => simp [readAtom, he, readClose_eq_ok_iff]

/-! ### Reading uses up tokens -/

/-- The reader leaves fewer tokens than it found. -/
def Shortens (reader : Reader) : Prop :=
  ∀ tokens e rest, reader tokens = .ok (e, rest) → rest.length < tokens.length

theorem length_le_of_readChain (hoperand : Shortens operand) {fuel : Nat} {e : Expr}
    {rest : List Token} (h : readChain joins operand fuel left tokens = .ok (e, rest)) :
    rest.length ≤ tokens.length := by
  induction fuel generalizing left tokens with
  | zero =>
    obtain ⟨-, rfl⟩ : left = e ∧ tokens = rest := by simpa [readChain] using h
    exact Nat.le_refl _
  | succ fuel ih =>
    rcases avoids_or_exists joins tokens with havoids | ⟨s, pos, input, hjoins, rfl⟩
    · obtain ⟨-, rfl⟩ : left = e ∧ tokens = rest := by
        simpa [readChain_of_avoids havoids] using h
      exact Nat.le_refl _
    · rcases hop : operand input with err | ⟨right, rest'⟩
      · simp [readChain_of_error hjoins hop] at h
      · rw [readChain_of_ok hjoins hop] at h
        have hright := hoperand _ _ _ hop
        have hchain := ih h
        simp only [List.length_cons]
        omega

theorem Shortens.readJoined (hoperand : Shortens operand) (size : Nat) (joins : Symbol → Bool) :
    Shortens (readJoined size joins operand) := by
  intro tokens e rest h
  rcases hop : operand tokens with err | ⟨left, rest'⟩
  · simp [readJoined_of_error hop] at h
  · rw [readJoined_of_ok hop] at h
    exact Nat.lt_of_le_of_lt (length_le_of_readChain hoperand h) (hoperand _ _ _ hop)

theorem readUnary_eq_ok_iff {op : Symbol} {e : Expr} {rest : List Token} :
    readUnary op operand tokens = .ok (e, rest) ↔
      ∃ e', operand tokens = .ok (e', rest) ∧ e = .unary op e' := by
  rcases hop : operand tokens with err | ⟨e', rest'⟩
  · simp [readUnary, hop]
  · simp only [readUnary, hop, Except.ok.injEq, Prod.mk.injEq]
    constructor
    · rintro ⟨rfl, rfl⟩
      exact ⟨e', ⟨rfl, rfl⟩, rfl⟩
    · rintro ⟨_, ⟨rfl, rfl⟩, rfl⟩
      exact ⟨rfl, rfl⟩

theorem Shortens.readUnary (hoperand : Shortens operand) (op : Symbol) :
    Shortens (readUnary op operand) := by
  intro tokens e rest h
  obtain ⟨e', he', -⟩ := readUnary_eq_ok_iff.mp h
  exact hoperand _ _ _ he'

theorem AtomRead.length_lt {inner : Reader} (hinner : Shortens inner) {e : Expr}
    {rest : List Token} (h : AtomRead inner tokens e rest) : rest.length < tokens.length := by
  cases h with
  | assign pos pos' hname hvalue =>
    have := hinner _ _ _ hvalue
    simp only [List.length_cons]
    omega
  | group pos pos' he =>
    have := hinner _ _ _ he
    simp only [List.length_cons] at this ⊢
    omega
  | _ => simp

/-- How the base of a power is followed. -/
theorem readPower_eq_ok_iff {exponent : Reader} {base e : Expr} {rest : List Token} :
    readPower exponent base tokens = .ok (e, rest) ↔
      (leading? tokens ≠ some .power ∧ e = base ∧ rest = tokens) ∨
      ∃ pos input e', tokens = ⟨.symbol .power, pos⟩ :: input ∧
        exponent input = .ok (e', rest) ∧ e = .binary .power base e' := by
  by_cases hpower : leading? tokens = some .power
  · obtain ⟨pos, input, rfl⟩ := exists_of_leading? hpower
    rcases hexp : exponent input with err | ⟨e', rest'⟩
    · simp [readPower, hexp]
    · simp only [readPower, hexp, Except.ok.injEq, Prod.mk.injEq, leading?_symbol, ne_eq,
        not_true_eq_false, false_and, false_or, List.cons.injEq, Token.mk.injEq, true_and]
      constructor
      · rintro ⟨rfl, rfl⟩
        exact ⟨pos, input, e', ⟨rfl, rfl⟩, hexp, rfl⟩
      · rintro ⟨_, _, e'', ⟨rfl, rfl⟩, hexp', rfl⟩
        rw [hexp] at hexp'
        simp_all
  · rw [readPower_of_ne hpower]
    simp only [Except.ok.injEq, Prod.mk.injEq, ne_eq, hpower, not_false_eq_true, true_and]
    constructor
    · rintro ⟨rfl, rfl⟩
      exact .inl ⟨rfl, rfl⟩
    · rintro (⟨rfl, rfl⟩ | ⟨pos, input, e', rfl, -, -⟩)
      · exact ⟨rfl, rfl⟩
      · simp at hpower

/-! ### How a level is read -/

/-- What a level makes of the tokens in front of it, with `reader` for the levels it opens. -/
inductive LevelStep (stop size : Nat) (reader : Level → Reader) :
    Level → List Token → Except ParseError (Expr × List Token) → Prop where
  | bang (pos : Nat) (input : List Token) :
      LevelStep stop size reader .comparison (⟨.symbol .bang, pos⟩ :: input)
        (readUnary .bang (reader .comparison) input)
  | chain {level : Level} {input : List Token} (hchain : level.isChain)
      (hbang : level = .comparison → leading? input ≠ some .bang) :
      LevelStep stop size reader level input
        (readJoined size level.joins (reader level.tighter) input)
  | sign {op : Symbol} (hop : op = .plus ∨ op = .minus) (pos : Nat) (input : List Token) :
      LevelStep stop size reader .signed (⟨.symbol op, pos⟩ :: input)
        (readUnary op (reader .signed) input)
  | unsigned {input : List Token} (hplus : leading? input ≠ some .plus)
      (hminus : leading? input ≠ some .minus) :
      LevelStep stop size reader .signed input (reader .power input)
  | noBase {input : List Token} {err : ParseError} (hbase : reader .atom input = .error err) :
      LevelStep stop size reader .power input (.error err)
  | power {input rest : List Token} {base : Expr} (hbase : reader .atom input = .ok (base, rest)) :
      LevelStep stop size reader .power input (readPower (reader .signed) base rest)
  | atom (input : List Token) :
      LevelStep stop size reader .atom input (readAtom stop (reader .comparison) input)

/-- **Levels.** `parseAt` opens a level in one of the ways that `LevelStep` lists. -/
theorem levelStep_parseAt (stop size depth : Nat) (level : Level) (tokens : List Token) :
    LevelStep stop size (parseAt stop size depth) level tokens
      (parseAt stop size (depth + 1) level tokens) := by
  by_cases hchain : level.isChain
  · by_cases hbang : level = .comparison ∧ leading? tokens = some .bang
    · obtain ⟨rfl, hlead⟩ := hbang
      obtain ⟨pos, input, rfl⟩ := exists_of_leading? hlead
      exact .bang pos input
    · have hne : level = .comparison → leading? tokens ≠ some .bang := by simpa using hbang
      rw [parseAt_chain hchain hne]
      exact .chain hchain hne
  cases level <;> simp [Level.isChain] at hchain
  case signed =>
    by_cases hsign : ∃ op, leading? tokens = some op ∧ (op = .plus ∨ op = .minus)
    · obtain ⟨op, hlead, hop⟩ := hsign
      obtain ⟨pos, input, rfl⟩ := exists_of_leading? hlead
      rw [parseAt_sign hop]
      exact .sign hop pos input
    · have hplus : leading? tokens ≠ some .plus := fun hp => hsign ⟨_, hp, .inl rfl⟩
      have hminus : leading? tokens ≠ some .minus := fun hm => hsign ⟨_, hm, .inr rfl⟩
      rw [parseAt_unsigned hplus hminus]
      exact .unsigned hplus hminus
  case power =>
    rcases hbase : parseAt stop size depth .atom tokens with err | ⟨base, rest⟩
    · rw [parseAt_power_of_error hbase]
      exact .noBase hbase
    · rw [parseAt_power_of_ok hbase]
      exact .power hbase
  case atom => exact .atom tokens

/-- **Progress.** Reading a level uses up at least one token. -/
theorem shortens_parseAt (stop size depth : Nat) (level : Level) :
    Shortens (parseAt stop size depth level) := by
  induction depth generalizing level with
  | zero =>
    intro tokens e rest h
    simp at h
  | succ depth ih =>
    intro tokens e rest h
    have hstep := levelStep_parseAt stop size depth level tokens
    rw [h] at hstep
    generalize hresult : Except.ok (e, rest) = result at hstep
    cases hstep with
    | bang pos input =>
      have := (ih _).readUnary _ _ _ _ hresult.symm
      simp only [List.length_cons]
      omega
    | chain hchain hbang => exact (ih _).readJoined _ _ _ _ _ hresult.symm
    | sign hop pos input =>
      have := (ih _).readUnary _ _ _ _ hresult.symm
      simp only [List.length_cons]
      omega
    | unsigned hplus hminus => exact ih _ _ _ _ hresult.symm
    | noBase hbase => simp at hresult
    | power hbase =>
      have hlt := ih _ _ _ _ hbase
      rcases readPower_eq_ok_iff.mp hresult.symm with ⟨-, -, rfl⟩ | ⟨pos, more, e', rfl, he, -⟩
      · exact hlt
      · have := ih _ _ _ _ he
        simp only [List.length_cons] at hlt
        omega
    | atom => exact (readAtom_eq_ok_iff.mp hresult.symm).length_lt (ih _)

/-! ### Running out of levels -/

/-- An error of a chain is an error of one of its operands. -/
private theorem exists_of_readChain_error (hoperand : Shortens operand) {fuel : Nat}
    {err : ParseError} (h : readChain joins operand fuel left tokens = .error err) :
    ∃ input, input.length < tokens.length ∧ operand input = .error err := by
  induction fuel generalizing left tokens with
  | zero => simp [readChain] at h
  | succ fuel ih =>
    rcases avoids_or_exists joins tokens with havoids | ⟨s, pos, input, hjoins, rfl⟩
    · simp [readChain_of_avoids havoids] at h
    · rcases hop : operand input with err' | ⟨right, rest⟩
      · obtain rfl : err' = err := by simpa [readChain_of_error hjoins hop] using h
        exact ⟨input, by simp, hop⟩
      · rw [readChain_of_ok hjoins hop] at h
        obtain ⟨input', hlt, herr⟩ := ih h
        have := hoperand _ _ _ hop
        refine ⟨input', ?_, herr⟩
        simp only [List.length_cons]
        omega

private theorem exists_of_readJoined_error (hoperand : Shortens operand) {size : Nat}
    {err : ParseError} (h : readJoined size joins operand tokens = .error err) :
    ∃ input, input.length ≤ tokens.length ∧ operand input = .error err := by
  rcases hop : operand tokens with err' | ⟨e, rest⟩
  · obtain rfl : err' = err := by simpa [readJoined_of_error hop] using h
    exact ⟨tokens, Nat.le_refl _, hop⟩
  · rw [readJoined_of_ok hop] at h
    obtain ⟨input, hlt, herr⟩ := exists_of_readChain_error hoperand h
    have := hoperand _ _ _ hop
    exact ⟨input, by omega, herr⟩

theorem readUnary_eq_error_iff {op : Symbol} {err : ParseError} :
    readUnary op operand tokens = .error err ↔ operand tokens = .error err := by
  rcases hop : operand tokens with err' | ⟨e, rest⟩ <;> simp [readUnary, hop]

/-- Atoms run out of levels only in the comparison inside them. -/
private theorem exists_of_readAtom_nestingTooDeep {inner : Reader}
    (h : readAtom stop inner tokens = .error .nestingTooDeep) :
    ∃ input, input.length < tokens.length ∧ inner input = .error .nestingTooDeep := by
  rcases tokens with _ | ⟨⟨lexeme, pos⟩, input⟩
  · simp [readAtom] at h
  cases lexeme with
  | identifier name =>
    simp only [readAtom] at h
    by_cases hassign : leading? input = some .assign
    · obtain ⟨pos', more, rfl⟩ := exists_of_leading? hassign
      cases hname : isReserved name with
      | true => simp [readIdentifier, hname] at h
      | false =>
        rcases hvalue : inner more with err | ⟨value, rest⟩
        · rw [readIdentifier_assign_of_error hname hvalue] at h
          refine ⟨more, ?_, hvalue.trans h⟩
          simp only [List.length_cons]
          omega
        · simp [readIdentifier_assign_of_ok hname hvalue] at h
    · rw [readIdentifier_of_ne hassign] at h
      repeat' split at h
      all_goals simp at h
  | symbol s =>
    by_cases hs : s = .openParen
    · subst hs
      rcases hinner : inner input with err | ⟨e, rest⟩
      · obtain rfl : err = .nestingTooDeep := by simpa [readAtom, hinner] using h
        exact ⟨input, by simp, hinner⟩
      · simp only [readAtom, if_true, hinner] at h
        rcases rest with _ | ⟨⟨lexeme, pos'⟩, rest⟩
        · simp [readClose] at h
        · cases lexeme <;> simp [readClose] at h
          split at h <;> simp at h
    · simp [readAtom, hs] at h
  | _ => simp [readAtom] at h

private theorem exists_of_readPower_error {exponent : Reader} {base : Expr} {err : ParseError}
    (h : readPower exponent base tokens = .error err) :
    ∃ input, input.length < tokens.length ∧ exponent input = .error err := by
  by_cases hpower : leading? tokens = some .power
  · obtain ⟨pos, input, rfl⟩ := exists_of_leading? hpower
    rcases hexp : exponent input with err' | ⟨e, rest⟩
    · obtain rfl : err' = err := by simpa [readPower, hexp] using h
      exact ⟨input, by simp, hexp⟩
    · simp [readPower, hexp] at h
  · simp [readPower_of_ne hpower] at h

/-- From one parenthesis, sign or assignment to the next at most ten levels are opened, and each of
these takes a token: so many levels are always enough. -/
theorem parseAt_ne_nestingTooDeep {level : Level}
    (h : 10 * tokens.length + 10 ≤ depth + level.rank) :
    parseAt stop size depth level tokens ≠ .error .nestingTooDeep := by
  -- The bound goes down with the depth: the next level is one rank tighter, or a token is gone.
  induction depth generalizing level tokens with
  | zero =>
    have := level.rank_le
    omega
  | succ depth ih =>
    intro herr
    have hstep := levelStep_parseAt stop size depth level tokens
    rw [herr] at hstep
    generalize hresult : Except.error ParseError.nestingTooDeep = result at hstep
    cases hstep with
    | bang pos input =>
      simp only [List.length_cons, Level.rank] at h
      exact ih (by simp only [Level.rank]; omega) (readUnary_eq_error_iff.mp hresult.symm)
    | chain hchain hbang =>
      obtain ⟨input, hle, hop⟩ :=
        exists_of_readJoined_error (shortens_parseAt _ _ _ _) hresult.symm
      exact ih (by rw [Level.rank_tighter (Level.ne_atom_of_isChain hchain)]; omega) hop
    | sign hop pos input =>
      simp only [List.length_cons, Level.rank] at h
      exact ih (by simp only [Level.rank]; omega) (readUnary_eq_error_iff.mp hresult.symm)
    | unsigned hplus hminus =>
      simp only [Level.rank] at h
      exact ih (by simp only [Level.rank]; omega) hresult.symm
    | noBase hbase =>
      rw [← hresult] at hbase
      simp only [Level.rank] at h
      exact ih (by simp only [Level.rank]; omega) hbase
    | power hbase =>
      obtain ⟨input, hlt, hexp⟩ := exists_of_readPower_error hresult.symm
      have hbaseLt := shortens_parseAt _ _ _ _ _ _ _ hbase
      simp only [Level.rank] at h
      exact ih (by simp only [Level.rank]; omega) hexp
    | atom =>
      obtain ⟨input, hlt, hinner⟩ := exists_of_readAtom_nestingTooDeep hresult.symm
      simp only [Level.rank] at h
      exact ih (by simp only [Level.rank]; omega) hinner

/-! ### Statements and inputs -/

/-- Without the word that starts a declaration, a statement is a comparison. -/
theorem readStatement_of_ne {value : Reader}
    (h : ∀ pos rest, tokens ≠ ⟨.identifier declareWord, pos⟩ :: rest) :
    readStatement stop value tokens = value tokens := by
  rcases tokens with _ | ⟨⟨lexeme, pos⟩, rest⟩
  · rfl
  · cases lexeme <;> try rfl
    rename_i word
    have hword : word ≠ declareWord := by
      rintro rfl
      exact h pos rest rfl
    simp [readStatement, hword]

/-- The input of a list of tokens ends at its first end marker. -/
theorem ofTokens_append_end {body : List Token} (h : ∀ t ∈ body, t.isEnd = false) (stop : Nat)
    (rest : List Token) :
    ParseInput.ofTokens (body ++ ⟨.endOfInput, stop⟩ :: rest) = ⟨body, stop⟩ := by
  have hfind : body.find? Token.isEnd = none := List.find?_eq_none.mpr fun t ht => by simp [h t ht]
  have hend : Token.isEnd ⟨.endOfInput, stop⟩ = true := rfl
  simp only [ParseInput.ofTokens, List.find?_append, hfind, List.find?_cons, hend, Option.none_or,
    ParseInput.mk.injEq, and_true]
  rw [List.takeWhile_append_of_pos (fun t ht => by simp [h t ht])]
  simp [hend]

/-- A statement that takes up the whole input is the result. -/
theorem parseWithin_of_ok {body : List Token} {limit : Nat} {e : Expr}
    (hbody : ∀ t ∈ body, t.isEnd = false)
    (h : parseStatementAt stop body.length limit body = .ok (e, [])) :
    parseWithin limit (body ++ [⟨.endOfInput, stop⟩]) = .ok e := by
  simp [parseWithin, ofTokens_append_end hbody, h, blockingToken?]

theorem parseWithin_of_error {body : List Token} {limit : Nat} {err : ParseError}
    (hbody : ∀ t ∈ body, t.isEnd = false)
    (h : parseStatementAt stop body.length limit body = .error err) :
    parseWithin limit (body ++ [⟨.endOfInput, stop⟩]) = .error err := by
  simp [parseWithin, ofTokens_append_end hbody, h]

end Expr

end Reckon
