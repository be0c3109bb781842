import Reckon.Proofs.Expr.Extension
import Reckon.Proofs.Expr.Printer

/-!
# Incomplete input

The parser tells input that has ended too soon from input that is wrong, and a console relies on the
difference: it waits for more lines after the one and reports the other. The main result,
`Expr.incomplete_iff_completable`, says that the difference is the right one. The complaint is about
the end of the input exactly when the input is no program yet and can be made one by tokens behind
it.

That nothing else can be made a program is `Expr.exists_error_of_readStatements`. For the other
direction a completion is built along the levels that were open when the input ended: a number where
an operand was missing, a closing parenthesis for each group that is open, a name and a value for a
declaration. None of them opens a level that was not open already, so there are enough levels for
the completed input whenever there were enough to arrive at its end.
-/

namespace Reckon

namespace Expr

variable {stop size depth : Nat} {us : List Lexeme} {tokens : List Token} {err : ParseError}

/-! ### Completions -/

/-- In front of anything that halts, tokens that go on with `us` are read to the end of `us`. The
reader may depend on where the input ends and on its size, both of which come with the
completion. -/
def CompletedBy (reader : Nat → Nat → Reader) (tokens : List Token) (us : List Lexeme) : Prop :=
  ∀ stop size more tokens', Halts more → Extends (us ++ more) tokens tokens' →
    tokens'.length ≤ size →
      ∃ e rest, reader stop size tokens' = .ok (e, rest) ∧ Extends more [] rest

/-- Something can be put behind the tokens that completes them. -/
def Completable (reader : Nat → Nat → Reader) (tokens : List Token) : Prop :=
  ∃ us, us ≠ [] ∧ Lexeme.endOfInput ∉ us ∧ CompletedBy reader tokens us

/-- Completions are passed on by a reader that hands a later part of its tokens to another one and
stops where that one does. -/
theorem Completable.through {reader reader' : Nat → Nat → Reader} {input : List Token}
    (h : Completable reader input)
    (hstep : ∀ us stop size tokens', Extends us tokens tokens' → tokens'.length ≤ size →
      ∃ input', Extends us input input' ∧ input'.length ≤ size ∧
        ∀ e rest, Stops rest → reader stop size input' = .ok (e, rest) →
          ∃ e', reader' stop size tokens' = .ok (e', rest)) :
    Completable reader' tokens := by
  obtain ⟨us, hne, hend, hcompleted⟩ := h
  refine ⟨us, hne, hend, fun stop size more tokens' hmore hextends hsize => ?_⟩
  obtain ⟨input', hinput, hsize', hread⟩ := hstep (us ++ more) stop size tokens' hextends hsize
  obtain ⟨e, rest, hok, hrest⟩ := hcompleted stop size more input' hmore hinput hsize'
  obtain ⟨e', hok'⟩ := hread e rest (hmore.stops hrest) hok
  exact ⟨e', rest, hok', hrest⟩

/-- A number takes as many levels as there are from its place to the atoms. -/
theorem parseAt_number {level : Level} (hdepth : 10 ≤ depth + level.rank) (x : Binary64) (pos : Nat)
    {rest : List Token} (hrest : Stops rest) :
    parseAt stop size depth level (⟨.number x, pos⟩ :: rest) =
      .ok (.literal (.number x), rest) := by
  have hatom (depth : Nat) : parseAt stop size depth .atom (⟨.number x, pos⟩ :: rest) =
      within 1 depth (.literal (.number x)) rest := by
    cases depth with
    | zero => rfl
    | succ depth => rw [within_of_le (by omega)]; rfl
  have hrank := level.rank_le
  have hsteps : level.rank + (9 - level.rank) = Level.atom.rank := Nat.add_sub_cancel' hrank
  have hinput : Unprefixed .atom (⟨.number x, pos⟩ :: rest) := by
    simp [Unprefixed, leading?]
  have hread := parseAt_descend (9 - level.rank) hsteps (fun _ => hinput)
    (Ends.mono hrest (Nat.zero_le _)) hatom depth
  rw [hread, within_of_le (by omega)]

/-- Where an operand is missing, a number completes the input. -/
private theorem completable_nil {level : Level} (hdepth : 10 ≤ depth + level.rank) :
    Completable (fun stop size => parseAt stop size depth level) [] := by
  refine ⟨[.number .zero], by simp, by simp, fun stop size more tokens' hmore hextends _ => ?_⟩
  obtain ⟨pos, rest, rfl, hrest⟩ := extends_nil_cons_iff.mp hextends
  exact ⟨_, rest, parseAt_number hdepth .zero pos (hmore.stops hrest), hrest⟩

/-! ### Readers -/

/-- A chain has as many operands as its tokens say: any bound that is large enough will do. -/
theorem readChain_fuel {joins : Symbol → Bool} {operand : Reader} (hshortens : Shortens operand)
    {fuel fuel' : Nat} (left : Expr) (hfuel : tokens.length ≤ fuel)
    (hfuel' : tokens.length ≤ fuel') :
    readChain joins operand fuel left tokens = readChain joins operand fuel' left tokens := by
  induction fuel generalizing fuel' left tokens with
  | zero =>
    obtain rfl : tokens = [] := by simpa using hfuel
    rw [readChain_of_avoids (avoids_nil _), readChain_of_avoids (avoids_nil _)]
  | succ fuel ih =>
    rcases avoids_or_exists joins tokens with havoids | ⟨s, pos, input, hs, rfl⟩
    · rw [readChain_of_avoids havoids, readChain_of_avoids havoids]
    · simp only [List.length_cons] at hfuel hfuel'
      obtain ⟨fuel', rfl⟩ : ∃ k, fuel' = k + 1 := ⟨fuel' - 1, by omega⟩
      rcases hop : operand input with err | ⟨right, rest⟩
      · rw [readChain_of_error hs hop, readChain_of_error hs hop]
      · have hlt := hshortens _ _ _ hop
        rw [readChain_of_ok hs hop, readChain_of_ok hs hop]
        exact ih _ (by omega) (by omega)

/-- Chains: the operand at which the input ended is completed, and the chain ends behind it. -/
private theorem completable_readChain {level : Level} (hchain : level.isChain) {fuel : Nat}
    {left : Expr} (hoperand : ∀ input, input <:+ tokens →
      parseAt stop size depth level.tighter input = .error err →
      Completable (fun stop size => parseAt stop size depth level.tighter) input)
    (hsize : tokens.length ≤ size)
    (h : readChain level.joins (parseAt stop size depth level.tighter) fuel left tokens =
      .error err) :
    Completable (fun stop size tokens' => readChain level.joins
      (parseAt stop size depth level.tighter) tokens'.length left tokens') tokens := by
  have hshortens (stop size : Nat) := shortens_parseAt stop size depth level.tighter
  induction fuel generalizing left tokens with
  | zero => simp [readChain] at h
  | succ fuel ih =>
    rcases avoids_or_exists level.joins tokens with havoids | ⟨s, pos, input, hs, rfl⟩
    · simp [readChain_of_avoids havoids] at h
    simp only [List.length_cons] at hsize
    rcases hop : parseAt stop size depth level.tighter input with err' | ⟨right, rest⟩
    · -- The input ended in this operand. Completed, it is the last one of the chain.
      obtain rfl : err' = err := by simpa [readChain_of_error hs hop] using h
      refine (hoperand input (List.suffix_cons _ _) hop).through
        fun us stop size tokens' hextends hsize' => ?_
      obtain ⟨pos', input', rfl, hinput⟩ := extends_cons_iff.mp hextends
      refine ⟨input', hinput, Nat.le_of_succ_le hsize', fun e rest hrest hok => ?_⟩
      have havoids : Avoids level.joins rest :=
        (Ends.mono hrest (Nat.zero_le level.rank)).avoids_joins hchain
      exact ⟨.binary s left e, by
        rw [List.length_cons, readChain_of_ok hs hok, readChain_of_avoids havoids]⟩
    · -- The operand is whole and something follows it, so it is read again before a completion.
      rw [readChain_of_ok hs hop] at h
      have hlt := hshortens _ _ _ _ _ hop
      have hsuffix : rest <:+ input :=
        (reads_of_parseAt level.tighter (by omega) hop).outline.isSuffix
      have hne : rest ≠ [] := by
        rintro rfl
        simp [readChain_of_avoids (avoids_nil _)] at h
      have hlater := ih (fun mid hmid => hoperand mid
        ((hmid.trans hsuffix).trans (List.suffix_cons _ _))) (by omega) h
      refine hlater.through fun us stop' size' tokens' hextends hsize' => ?_
      obtain ⟨pos', input', rfl, hinput⟩ := extends_cons_iff.mp hextends
      simp only [List.length_cons] at hsize'
      have hextended : Extended us (parseAt stop size depth level.tighter input)
          (parseAt stop' size' depth level.tighter input') :=
        extended_parseAt _ (by omega) (by omega) hinput
      obtain ⟨rest', hop', hrest⟩ := hextended.ok right rest hop fun hnil => absurd hnil hne
      have hlt' := hshortens _ _ _ _ _ hop'
      refine ⟨rest', hrest, by omega, fun e final _ hok => ⟨e, ?_⟩⟩
      rw [List.length_cons, readChain_of_ok hs hop', ← hok]
      exact readChain_fuel (hshortens _ _) _ (by omega) (Nat.le_refl _)

private theorem completable_readJoined {level : Level} (hchain : level.isChain)
    (hoperand : ∀ input, input <:+ tokens →
      parseAt stop size depth level.tighter input = .error err →
      Completable (fun stop size => parseAt stop size depth level.tighter) input)
    (hsize : tokens.length ≤ size)
    (h : readJoined size level.joins (parseAt stop size depth level.tighter) tokens =
      .error err) :
    Completable (fun stop size => readJoined size level.joins
      (parseAt stop size depth level.tighter)) tokens := by
  have hshortens (stop size : Nat) := shortens_parseAt stop size depth level.tighter
  rcases hfirst : parseAt stop size depth level.tighter tokens with err' | ⟨left, rest⟩
  · obtain rfl : err' = err := by simpa [readJoined_of_error hfirst] using h
    refine (hoperand tokens (List.suffix_refl _) hfirst).through
      fun us stop size tokens' hextends hsize' => ?_
    refine ⟨tokens', hextends, hsize', fun e rest hrest hok => ⟨e, ?_⟩⟩
    have havoids : Avoids level.joins rest :=
      (Ends.mono hrest (Nat.zero_le level.rank)).avoids_joins hchain
    rw [readJoined_of_ok hok, readChain_of_avoids havoids]
  · rw [readJoined_of_ok hfirst] at h
    have hlt := hshortens _ _ _ _ _ hfirst
    have hsuffix : rest <:+ tokens := (reads_of_parseAt level.tighter hsize hfirst).outline.isSuffix
    have hne : rest ≠ [] := by
      rintro rfl
      simp [readChain_of_avoids (avoids_nil _)] at h
    have hlater := completable_readChain hchain
      (fun input hinput => hoperand input (hinput.trans hsuffix)) (by omega) h
    refine hlater.through fun us stop' size' tokens' hextends hsize' => ?_
    have hextended : Extended us (parseAt stop size depth level.tighter tokens)
        (parseAt stop' size' depth level.tighter tokens') :=
      extended_parseAt _ hsize hsize' hextends
    obtain ⟨rest', hfirst', hrest⟩ := hextended.ok left rest hfirst fun hnil => absurd hnil hne
    have hlt' := hshortens _ _ _ _ _ hfirst'
    refine ⟨rest', hrest, by omega, fun e final _ hok => ⟨e, ?_⟩⟩
    rw [readJoined_of_ok hfirst', ← hok]
    exact readChain_fuel (hshortens _ _) _ (by omega) (Nat.le_refl _)

/-- Groups: the expression inside is completed first, if it has to be, and then the parenthesis. -/
private theorem completable_group {input : List Token} {pos : Nat}
    (h : Completable (fun stop size => parseAt stop size depth .comparison) input) :
    Completable (fun stop size => readAtom stop (parseAt stop size depth .comparison))
      (⟨.symbol .openParen, pos⟩ :: input) := by
  obtain ⟨us, hne, hend, hcompleted⟩ := h
  refine ⟨us ++ [.symbol .closeParen], by simp, by simp [hend], ?_⟩
  -- A parenthesis carries no expression on, so the inside is completed in front of it.
  intro stop size more tokens' _ hextends hsize
  obtain ⟨pos', input', rfl, hinput⟩ := extends_cons_iff.mp hextends
  rw [List.append_assoc] at hinput
  obtain ⟨e, rest, hok, hrest⟩ := hcompleted stop size (.symbol .closeParen :: more) input'
    (fun s hs => by
      obtain rfl : Symbol.closeParen = s := by simpa using hs
      rfl)
    hinput (Nat.le_of_succ_le hsize)
  obtain ⟨pos₁, rest', rfl, hrest'⟩ := extends_nil_cons_iff.mp hrest
  exact ⟨e, rest', readAtom_eq_ok_iff.mpr (.group pos' pos₁ hok), hrest'⟩

private theorem completable_unclosed {input : List Token} {pos : Nat} {e : Expr}
    (hsize : input.length ≤ size) (h : parseAt stop size depth .comparison input = .ok (e, [])) :
    Completable (fun stop size => readAtom stop (parseAt stop size depth .comparison))
      (⟨.symbol .openParen, pos⟩ :: input) := by
  refine ⟨[.symbol .closeParen], by simp, by simp, ?_⟩
  intro stop' size' more tokens' _ hextends hsize'
  obtain ⟨pos', input', rfl, hinput⟩ := extends_cons_iff.mp hextends
  have hextended : Extended (.symbol .closeParen :: more)
      (parseAt stop size depth .comparison input) (parseAt stop' size' depth .comparison input') :=
    extended_parseAt _ hsize (Nat.le_of_succ_le hsize') hinput
  obtain ⟨rest, hok, hrest⟩ := hextended.ok e [] h fun _ s hs => by
    obtain rfl : Symbol.closeParen = s := by simpa using hs
    rfl
  obtain ⟨pos₁, rest', rfl, hrest'⟩ := extends_nil_cons_iff.mp hrest
  exact ⟨e, rest', readAtom_eq_ok_iff.mpr (.group pos' pos₁ hok), hrest'⟩

/-- The ways in which an atom can start, and the input end inside it. -/
inductive AtomEnds (inner : Reader) (err : ParseError) : List Token → Prop where
  | value {name : String} {input : List Token} (pos pos' : Nat) (hname : isReserved name = false)
      (hvalue : inner input = .error err) :
      AtomEnds inner err (⟨.identifier name, pos⟩ :: ⟨.symbol .assign, pos'⟩ :: input)
  | group {input : List Token} (pos : Nat) (hgroup : inner input = .error err) :
      AtomEnds inner err (⟨.symbol .openParen, pos⟩ :: input)
  | unclosed {e : Expr} {input rest : List Token} (pos : Nat)
      (hgroup : inner input = .ok (e, rest))
      (hrest : (∀ t ∈ rest, t.isEnd = false) → rest = []) :
      AtomEnds inner err (⟨.symbol .openParen, pos⟩ :: input)

private theorem eq_nil_of_readClose {e : Expr} (herr : err.isIncomplete)
    (h : readClose stop e tokens = .error err) (hends : ∀ t ∈ tokens, t.isEnd = false) :
    tokens = [] := by
  rcases tokens with _ | ⟨⟨lexeme, pos⟩, rest⟩
  · rfl
  · by_cases hclose : lexeme = .symbol .closeParen
    · subst hclose
      simp [readClose] at h
    · have hplain : lexeme ≠ .endOfInput := by
        simpa [Token.isEnd] using hends _ (List.mem_cons_self ..)
      rw [readClose, if_neg hclose] at h
      · obtain rfl : _ = err := by simpa using h
        simp [ParseError.isIncomplete] at herr
      · simpa using hplain

private theorem atomEnds_of_readAtom {inner : Reader} {t : Token} {input : List Token}
    (ht : t.isEnd = false) (herr : err.isIncomplete)
    (h : readAtom stop inner (t :: input) = .error err) : AtomEnds inner err (t :: input) := by
  obtain ⟨lexeme, pos⟩ := t
  cases lexeme with
  | number x => simp [readAtom] at h
  | string s => simp [readAtom] at h
  | char c => simp [readAtom] at h
  | endOfInput => simp [Token.isEnd] at ht
  | identifier name =>
    rw [readAtom] at h
    by_cases hassign : leading? input = some .assign
    · obtain ⟨pos', more, rfl⟩ := exists_of_leading? hassign
      cases hname : isReserved name with
      | true =>
        obtain rfl : _ = err := by simpa [readIdentifier, hname] using h
        simp [ParseError.isIncomplete] at herr
      | false =>
        rcases hvalue : inner more with err' | ⟨e, rest⟩
        · obtain rfl : err' = err := by
            simpa [readIdentifier_assign_of_error hname hvalue] using h
          exact .value pos pos' hname hvalue
        · simp [readIdentifier_assign_of_ok hname hvalue] at h
    · rw [readIdentifier_of_ne hassign] at h
      repeat' split at h
      all_goals simp only [Except.error.injEq, reduceCtorEq] at h
      rw [← h] at herr
      simp [ParseError.isIncomplete] at herr
  | symbol s =>
    by_cases hs : s = .openParen
    · subst hs
      rcases hgroup : inner input with err' | ⟨e, rest⟩
      · obtain rfl : err' = err := by simpa [readAtom, hgroup] using h
        exact .group pos hgroup
      · simp only [readAtom, if_true, hgroup] at h
        exact .unclosed pos hgroup (eq_nil_of_readClose herr h)
    · obtain rfl : _ = err := by simpa [readAtom, hs] using h
      simp [ParseError.isIncomplete] at herr

/-- Atoms: a value is completed like any comparison, a group inside and then by its parenthesis. -/
private theorem completable_readAtom (hends : ∀ t ∈ tokens, t.isEnd = false)
    (hsize : tokens.length ≤ size)
    (hinner : ∀ input, input <:+ tokens → parseAt stop size depth .comparison input = .error err →
      Completable (fun stop size => parseAt stop size depth .comparison) input)
    (h : AtomEnds (parseAt stop size depth .comparison) err tokens) :
    Completable (fun stop size => readAtom stop (parseAt stop size depth .comparison)) tokens := by
  cases h with
  | @value name input pos pos' hname hvalue =>
    have hsuffix : input <:+ ⟨.identifier name, pos⟩ :: ⟨.symbol .assign, pos'⟩ :: input :=
      (List.suffix_cons _ _).trans (List.suffix_cons _ _)
    refine (hinner input hsuffix hvalue).through fun us stop size tokens' hextends hsize' => ?_
    obtain ⟨pos₁, rest', rfl, hrest⟩ := extends_cons_iff.mp hextends
    obtain ⟨pos₂, input', rfl, hinput⟩ := extends_cons_iff.mp hrest
    simp only [List.length_cons] at hsize'
    refine ⟨input', hinput, by omega, fun e rest _ hok => ⟨.assign name e, ?_⟩⟩
    exact readAtom_eq_ok_iff.mpr (.assign pos₁ pos₂ hname hok)
  | @group input pos hgroup =>
    exact completable_group (hinner input (List.suffix_cons _ _) hgroup)
  | @unclosed e input rest pos hgroup hrest =>
    have hsuffix : rest <:+ input :=
      (reads_of_parseAt .comparison (Nat.le_of_succ_le hsize) hgroup).outline.isSuffix
    obtain rfl := hrest fun t ht => hends t (List.mem_cons_of_mem _ (hsuffix.mem ht))
    exact completable_unclosed (Nat.le_of_succ_le hsize) hgroup

private theorem exists_cons_of_readPower_error {exponent : Reader} {base : Expr}
    (h : readPower exponent base tokens = .error err) :
    ∃ pos input, tokens = ⟨.symbol .power, pos⟩ :: input ∧ exponent input = .error err := by
  by_cases hpower : leading? tokens = some .power
  · obtain ⟨pos, input, rfl⟩ := exists_of_leading? hpower
    refine ⟨pos, input, rfl, ?_⟩
    rcases hexponent : exponent input with err' | ⟨e, rest⟩
    · simpa [readPower_of_error hexponent] using h
    · simp [readPower_of_ok hexponent] at h
  · simp [readPower_of_ne hpower] at h

/-! ### Levels -/

/-- Behind a sign or `!`, a completion of the operand is one of the whole. -/
theorem Completable.unary {level : Level} {op : Symbol} {pos : Nat} {input : List Token}
    (h : Completable (fun stop size => parseAt stop size depth level) input)
    (hread : ∀ stop size pos input,
      parseAt stop size (depth + 1) level (⟨.symbol op, pos⟩ :: input) =
        readUnary op (parseAt stop size depth level) input) :
    Completable (fun stop size => parseAt stop size (depth + 1) level)
      (⟨.symbol op, pos⟩ :: input) := by
  refine h.through fun us stop size tokens' hextends hsize => ?_
  obtain ⟨pos', input', rfl, hinput⟩ := extends_cons_iff.mp hextends
  refine ⟨input', hinput, Nat.le_of_succ_le hsize, fun e rest _ hok => ⟨.unary op e, ?_⟩⟩
  rw [hread]
  exact readUnary_eq_ok_iff.mpr ⟨e, hok, rfl⟩

/-- **Completions of levels.** Where the input ended on a level, it can be completed with the same
levels. -/
theorem completable_parseAt (level : Level) (hends : ∀ t ∈ tokens, t.isEnd = false)
    (hsize : tokens.length ≤ size) (herr : err.isIncomplete)
    (h : parseAt stop size depth level tokens = .error err) :
    Completable (fun stop size => parseAt stop size depth level) tokens := by
  induction depth generalizing level tokens with
  | zero =>
    obtain rfl : _ = err := by simpa using h
    simp [ParseError.isIncomplete] at herr
  | succ depth ih =>
    by_cases hne : tokens = []
    · subst hne
      -- The levels reach down to an atom, or the complaint would be about them.
      refine completable_nil (Nat.le_of_not_lt fun hlt => ?_)
      rw [parseAt_of_lt hlt] at h
      obtain rfl : _ = err := by simpa using h
      simp [ParseError.isIncomplete] at herr
    have hstep := levelStep_parseAt stop size depth level tokens
    rw [h] at hstep
    generalize hresult : Except.error err = result at hstep
    -- The first token stays where it is, and with it the step that the level takes.
    cases hstep with
    | bang pos input =>
      have hoperand := readUnary_eq_error_iff.mp hresult.symm
      have hends' := (List.forall_mem_cons.mp hends).2
      exact (ih .comparison hends' (Nat.le_of_succ_le hsize) hoperand).unary
        fun stop size pos input => parseAt_bang pos input
    | chain hchain hbang =>
      have hjoined := completable_readJoined hchain (fun input hinput =>
        ih level.tighter (fun t ht => hends t (hinput.mem ht))
          (Nat.le_trans hinput.length_le hsize)) hsize hresult.symm
      refine hjoined.through fun us stop size tokens' hextends hsize' => ?_
      refine ⟨tokens', hextends, hsize', fun e rest _ hok => ⟨e, ?_⟩⟩
      rw [parseAt_chain hchain (by rwa [hextends.leading?_eq hne])]
      exact hok
    | sign hop pos input =>
      have hoperand := readUnary_eq_error_iff.mp hresult.symm
      have hends' := (List.forall_mem_cons.mp hends).2
      exact (ih .signed hends' (Nat.le_of_succ_le hsize) hoperand).unary
        fun stop size pos input => parseAt_sign hop pos input
    | unsigned hplus hminus =>
      refine (ih .power hends hsize hresult.symm).through
        fun us stop size tokens' hextends hsize' => ?_
      refine ⟨tokens', hextends, hsize', fun e rest _ hok => ⟨e, ?_⟩⟩
      have hlead := hextends.leading?_eq hne
      rw [parseAt_unsigned (by rwa [hlead]) (by rwa [hlead])]
      exact hok
    | noBase hbase =>
      rw [← hresult] at hbase
      refine (ih .atom hends hsize hbase).through fun us stop size tokens' hextends hsize' => ?_
      refine ⟨tokens', hextends, hsize', fun e rest hrest hok => ⟨e, ?_⟩⟩
      have hpower : leading? rest ≠ some .power := Ends.leading?_ne_power hrest (by decide)
      rw [parseAt_power_of_ok hok, readPower_of_ne hpower]
    | @power _ rest base hbase =>
      have hsuffix : rest <:+ tokens := (reads_of_parseAt .atom hsize hbase).outline.isSuffix
      obtain ⟨pos, input, rfl, hexponent⟩ := exists_cons_of_readPower_error hresult.symm
      have hinput : input <:+ tokens := (List.suffix_cons _ _).trans hsuffix
      refine (ih .signed (fun t ht => hends t (hinput.mem ht))
        (Nat.le_trans hinput.length_le hsize) hexponent).through
        fun us stop' size' tokens' hextends hsize' => ?_
      have hextended : Extended us (parseAt stop size depth .atom tokens)
          (parseAt stop' size' depth .atom tokens') := extended_parseAt _ hsize hsize' hextends
      obtain ⟨rest', hbase', hrest⟩ := hextended.ok base _ hbase (by simp)
      have hlt := shortens_parseAt _ _ _ _ _ _ _ hbase'
      obtain ⟨pos', input', rfl, hinput'⟩ := extends_cons_iff.mp hrest
      simp only [List.length_cons] at hlt
      refine ⟨input', hinput', by omega, fun e final _ hok => ⟨.binary .power base e, ?_⟩⟩
      rw [parseAt_power_of_ok hbase', readPower_of_ok hok]
    | atom =>
      obtain ⟨t, input, rfl⟩ := List.exists_cons_of_ne_nil hne
      have hatom := atomEnds_of_readAtom (hends t (List.mem_cons_self ..)) herr hresult.symm
      exact completable_readAtom hends hsize (fun input' hinput' =>
        ih .comparison (fun t' ht' => hends t' (hinput'.mem ht'))
          (Nat.le_trans hinput'.length_le hsize)) hatom

/-! ### Statements and programs -/

/-- The ways in which the input can end inside a declaration, behind its first word. -/
inductive DeclarationEnds (value : Reader) (err : ParseError) : List Token → Prop where
  | name : DeclarationEnds value err []
  | sign {name : String} (pos : Nat) (hname : isReserved name = false) :
      DeclarationEnds value err [⟨.identifier name, pos⟩]
  | value {name : String} {input : List Token} (pos pos' : Nat) (hname : isReserved name = false)
      (hvalue : value input = .error err) :
      DeclarationEnds value err (⟨.identifier name, pos⟩ :: ⟨.symbol .assign, pos'⟩ :: input)

private theorem declarationEnds_of_readDeclaration {value : Reader}
    (hends : ∀ t ∈ tokens, t.isEnd = false)
    (herr : err.isIncomplete) (h : readDeclaration stop value tokens = .error err) :
    DeclarationEnds value err tokens := by
  rcases tokens with _ | ⟨⟨lexeme, pos⟩, rest⟩
  · exact .name
  have hplain : lexeme ≠ .endOfInput := by
    simpa [Token.isEnd] using hends _ (List.mem_cons_self ..)
  by_cases hword : ∃ name, lexeme = .identifier name ∧ isReserved name = false
  · obtain ⟨name, rfl, hname⟩ := hword
    rw [readDeclaration, if_neg (by simp [hname])] at h
    rcases rest with _ | ⟨⟨lexeme, pos'⟩, input⟩
    · exact .sign pos hname
    have hplain : lexeme ≠ .endOfInput := by
      simpa [Token.isEnd] using hends ⟨lexeme, pos'⟩ (by simp)
    by_cases hassign : lexeme = .symbol .assign
    · subst hassign
      rcases hvalue : value input with err' | ⟨e, rest⟩
      · obtain rfl : err' = err := by simpa [readInit, hvalue] using h
        exact .value pos pos' hname hvalue
      · simp [readInit, hvalue] at h
    · rw [readInit, if_neg hassign] at h
      · obtain rfl : _ = err := by simpa using h
        simp [ParseError.isIncomplete] at herr
      · simpa using hplain
  · cases lexeme with
    | endOfInput => exact absurd rfl hplain
    | identifier name =>
      have hname : isReserved name = true := by simpa using hword
      obtain rfl : _ = err := by simpa [readDeclaration, hname] using h
      simp [ParseError.isIncomplete] at herr
    | _ =>
      obtain rfl : _ = err := by simpa [readDeclaration] using h
      simp [ParseError.isIncomplete] at herr

variable {limit : Nat}

/-- Declarations: a name, a sign and a value are supplied as far as they are missing. -/
private theorem completable_declaration (hlimit : 10 ≤ limit)
    (hends : ∀ t ∈ tokens, t.isEnd = false) (hsize : tokens.length ≤ size) (herr : err.isIncomplete)
    (h : DeclarationEnds (parseAt stop size limit .comparison) err tokens) (pos : Nat) :
    Completable (fun stop size => parseStatementAt stop size limit)
      (⟨.identifier "let", pos⟩ :: tokens) := by
  have hnumber (stop size pos : Nat) (rest : List Token) (hrest : Stops rest) :=
    @parseAt_number stop size limit .comparison (Nat.le_add_right_of_le hlimit) .zero pos rest hrest
  cases h with
  | name =>
    refine ⟨[.identifier "x", .symbol .assign, .number .zero], by simp, by simp, ?_⟩
    intro stop size more tokens' hmore hextends _
    obtain ⟨pos₁, rest₁, rfl, h₁⟩ := extends_cons_iff.mp hextends
    obtain ⟨pos₂, rest₂, rfl, h₂⟩ := extends_nil_cons_iff.mp h₁
    obtain ⟨pos₃, rest₃, rfl, h₃⟩ := extends_nil_cons_iff.mp h₂
    obtain ⟨pos₄, rest, rfl, hrest⟩ := extends_nil_cons_iff.mp h₃
    have hvalue := hnumber stop size pos₄ rest (hmore.stops hrest)
    exact ⟨_, rest, readStatement_declare_of_ok rfl hvalue, hrest⟩
  | @sign name pos' hname =>
    refine ⟨[.symbol .assign, .number .zero], by simp, by simp, ?_⟩
    intro stop size more tokens' hmore hextends _
    obtain ⟨pos₁, rest₁, rfl, h₁⟩ := extends_cons_iff.mp hextends
    obtain ⟨pos₂, rest₂, rfl, h₂⟩ := extends_cons_iff.mp h₁
    obtain ⟨pos₃, rest₃, rfl, h₃⟩ := extends_nil_cons_iff.mp h₂
    obtain ⟨pos₄, rest, rfl, hrest⟩ := extends_nil_cons_iff.mp h₃
    have hvalue := hnumber stop size pos₄ rest (hmore.stops hrest)
    exact ⟨_, rest, readStatement_declare_of_ok hname hvalue, hrest⟩
  | @value name input pos' pos'' hname hvalue =>
    have hends' : ∀ t ∈ input, t.isEnd = false := fun t ht =>
      hends t (List.mem_cons_of_mem _ (List.mem_cons_of_mem _ ht))
    simp only [List.length_cons] at hsize
    have hinput := completable_parseAt .comparison hends' (by omega) herr hvalue
    refine hinput.through fun us stop size tokens' hextends hsize' => ?_
    obtain ⟨pos₁, rest₁, rfl, h₁⟩ := extends_cons_iff.mp hextends
    obtain ⟨pos₂, rest₂, rfl, h₂⟩ := extends_cons_iff.mp h₁
    obtain ⟨pos₃, input', rfl, hinput'⟩ := extends_cons_iff.mp h₂
    simp only [List.length_cons] at hsize'
    refine ⟨input', hinput', by omega, fun e rest _ hok => ⟨.declare name e, ?_⟩⟩
    exact readStatement_declare_of_ok hname hok

/-- **Completions of statements.** The first token says whether the statement is a declaration, and
it stays where it is. -/
theorem completable_parseStatementAt (hlimit : 10 ≤ limit) (hne : tokens ≠ [])
    (hends : ∀ t ∈ tokens, t.isEnd = false) (hsize : tokens.length ≤ size)
    (herr : err.isIncomplete) (h : parseStatementAt stop size limit tokens = .error err) :
    Completable (fun stop size => parseStatementAt stop size limit) tokens := by
  obtain ⟨⟨lexeme, pos⟩, input, rfl⟩ := List.exists_cons_of_ne_nil hne
  by_cases hlet : lexeme = .identifier "let"
  · subst hlet
    have hends' := (List.forall_mem_cons.mp hends).2
    have hends'' := declarationEnds_of_readDeclaration hends' herr h
    exact completable_declaration hlimit hends' (Nat.le_of_succ_le hsize) herr hends'' pos
  · have hstatement (stop size pos : Nat) (input : List Token) :
        parseStatementAt stop size limit (⟨lexeme, pos⟩ :: input) =
          parseAt stop size limit .comparison (⟨lexeme, pos⟩ :: input) := by
      refine readStatement_of_ne fun pos' rest heq => hlet ?_
      exact congrArg Token.lexeme (List.cons.inj heq).1
    rw [hstatement] at h
    refine (completable_parseAt .comparison hends hsize herr h).through
      fun us stop size tokens' hextends hsize' => ?_
    obtain ⟨pos', input', rfl, -⟩ := extends_cons_iff.mp hextends
    exact ⟨_, hextends, hsize', fun e rest _ hok => ⟨e, (hstatement ..).trans hok⟩⟩

/-- **Completions of programs.** The statements in front of the one at which the input ended are
read again, and behind a completion of that one the program is at its end. -/
theorem exists_readStatements_completed {fuel : Nat} (hlimit : 10 ≤ limit)
    (hends : ∀ t ∈ tokens, t.isEnd = false) (hsize : tokens.length ≤ size)
    (herr : err.isIncomplete)
    (h : readStatements (parseStatementAt stop size limit) fuel tokens = .error err) :
    ∃ us, us ≠ [] ∧ Lexeme.endOfInput ∉ us ∧ ∀ stop' size' fuel' tokens',
      Extends us tokens tokens' → tokens'.length ≤ size' → tokens'.length ≤ fuel' →
      ∃ es, readStatements (parseStatementAt stop' size' limit) fuel' tokens' = .ok es := by
  fun_induction readStatements (parseStatementAt stop size limit) fuel tokens with
  | case1 | case2 | case7 => simp at h
  | case3 fuel t rest ht ih =>
    obtain ⟨lexeme, pos⟩ := t
    subst ht
    have hends' := (List.forall_mem_cons.mp hends).2
    obtain ⟨us, hne, hend, hread⟩ := ih hends' (Nat.le_of_succ_le hsize) h
    refine ⟨us, hne, hend, fun stop' size' fuel' tokens' hextends hsize' hfuel' => ?_⟩
    obtain ⟨pos', rest', rfl, hrest⟩ := extends_cons_iff.mp hextends
    simp only [List.length_cons] at hsize' hfuel'
    obtain ⟨fuel', rfl⟩ : ∃ k, fuel' = k + 1 := ⟨fuel' - 1, by omega⟩
    rw [readStatements_semicolon]
    exact hread stop' size' fuel' rest' hrest (by omega) (by omega)
  | case4 fuel t rest ht err₁ hstatement =>
    obtain rfl : err₁ = err := by simpa using h
    obtain ⟨us, hne, hend, hcompleted⟩ :=
      completable_parseStatementAt hlimit (by simp) hends hsize herr hstatement
    refine ⟨us, hne, hend, fun stop' size' fuel' tokens' hextends hsize' hfuel' => ?_⟩
    obtain ⟨e, rest₁, hok, hrest₁⟩ := hcompleted stop' size' [] tokens' halts_nil
      (by rwa [List.append_nil]) hsize'
    obtain rfl : rest₁ = [] := by simpa [extends_nil_iff] using hrest₁
    obtain ⟨lexeme, pos⟩ := t
    obtain ⟨pos', rest', rfl, -⟩ := extends_cons_iff.mp hextends
    simp only [List.length_cons] at hfuel'
    obtain ⟨fuel', rfl⟩ : ∃ k, fuel' = k + 1 := ⟨fuel' - 1, by omega⟩
    exact ⟨[e], readStatements_of_more_ok ht hok rfl readStatements_nil⟩
  | case5 fuel t rest ht e rest₁ hstatement found hfound =>
    -- A token that does not belong behind a statement is no matter of the end of the input.
    obtain rfl : _ = err := by simpa using h
    simp [ParseError.isIncomplete] at herr
  | case6 fuel t rest ht e rest₁ hstatement hblock err₁ hmore ih =>
    obtain rfl : err₁ = err := by simpa using h
    have hnil : rest₁ ≠ [] := by
      rintro rfl
      simp [readStatements_nil] at hmore
    have hlt := length_lt_of_parseStatementAt hsize hstatement
    have hsuffix : rest₁ <:+ t :: rest := by
      obtain ⟨t', more, heq, -, hmore⟩ :=
        (readsStatement_of_parseStatementAt hsize hstatement).exists_cons
      obtain ⟨rfl, rfl⟩ := List.cons.inj heq
      exact hmore.trans (List.suffix_cons _ _)
    obtain ⟨us, hne, hend, hread⟩ := ih (fun t ht => hends t (hsuffix.mem ht)) (by omega) hmore
    refine ⟨us, hne, hend, fun stop' size' fuel' tokens' hextends hsize' hfuel' => ?_⟩
    obtain ⟨t', rest', rest₁', rfl, hlexeme, hstatement', hrest₁, hle, hblock'⟩ :=
      exists_parseStatementAt_extends stop' hsize hsize' hextends hstatement
        fun heq => absurd heq hnil
    simp only [List.length_cons] at hsize' hfuel'
    obtain ⟨fuel', rfl⟩ : ∃ k, fuel' = k + 1 := ⟨fuel' - 1, by omega⟩
    obtain ⟨es, hes⟩ := hread stop' size' fuel' rest₁' hrest₁ (by omega) (by omega)
    rw [← hlexeme] at ht
    exact ⟨e :: es, readStatements_of_more_ok ht hstatement' (hblock'.mpr hblock) hes⟩

/-! ### Whole inputs -/

variable {ts : List Token}

/-- Behind tokens without an end marker, the input goes on up to the first one. -/
theorem exists_parseProgramWithin_append (hends : ∀ t ∈ ts, t.isEnd = false) (more : List Token) :
    ∃ stop' input, Extends ((more.takeWhile (!·.isEnd)).map Token.lexeme) ts input ∧
      parseProgramWithin limit (ts ++ more) =
        readStatements (parseStatementAt stop' input.length limit) input.length input := by
  have htokens : (ParseInput.ofTokens (ts ++ more)).tokens = ts ++ more.takeWhile (!·.isEnd) :=
    List.takeWhile_append_of_pos fun t ht => by simp [hends t ht]
  refine ⟨(ParseInput.ofTokens (ts ++ more)).stop, _, extends_append ts _, ?_⟩
  simp only [parseProgramWithin, htokens]

theorem exists_parseProgramWithin_error (hends : ∀ t ∈ ts, t.isEnd = false)
    (h : parseProgramWithin limit (ts ++ [⟨.endOfInput, stop⟩]) = .error err)
    (hfinal : err.isIncomplete = false) (more : List Token) :
    ∃ err', parseProgramWithin limit (ts ++ more) = .error err' ∧ err'.isIncomplete = false := by
  rw [parseProgramWithin_append_end hends] at h
  obtain ⟨stop', input, hextends, hread⟩ := exists_parseProgramWithin_append hends more
  obtain ⟨err', herr', hfinal'⟩ := exists_error_of_readStatements (Nat.le_refl _) (Nat.le_refl _)
    (Nat.le_refl _) hextends h (.inl hfinal)
  exact ⟨err', hread.trans herr', hfinal' hfinal⟩

theorem exists_parseProgramWithin_completed (hlimit : 10 ≤ limit)
    (hends : ∀ t ∈ ts, t.isEnd = false)
    (h : parseProgramWithin limit (ts ++ [⟨.endOfInput, stop⟩]) = .error err)
    (herr : err.isIncomplete) :
    ∃ us : List Token, us ≠ [] ∧ (∀ t ∈ us, t.isEnd = false) ∧
      ∀ stop', ∃ es, parseProgramWithin limit (ts ++ us ++ [⟨.endOfInput, stop'⟩]) = .ok es := by
  rw [parseProgramWithin_append_end hends] at h
  obtain ⟨us, hne, hend, hread⟩ :=
    exists_readStatements_completed hlimit hends (Nat.le_refl _) herr h
  -- Positions do not matter, so the completion may stand anywhere.
  have hus : ∀ t ∈ us.map (Token.mk · 0), t.isEnd = false := by
    intro t ht
    obtain ⟨lexeme, hlexeme, rfl⟩ := List.mem_map.mp ht
    simpa [Token.isEnd] using ne_of_mem_of_not_mem hlexeme hend
  have hends' : ∀ t ∈ ts ++ us.map (Token.mk · 0), t.isEnd = false := by
    intro t ht
    rcases List.mem_append.mp ht with ht | ht
    · exact hends t ht
    · exact hus t ht
  refine ⟨us.map (Token.mk · 0), by simpa using hne, hus, fun stop' => ?_⟩
  rw [parseProgramWithin_append_end hends']
  refine hread stop' _ _ _ ?_ (Nat.le_refl _) (Nat.le_refl _)
  simp [Extends, Function.comp_def]

/-- **Incomplete input is input that can be completed.** For tokens without an end marker, the
parser complains about the end of the input exactly if they are no program and a program comes of
them by tokens put behind them. Of tokens with any other error no program ever comes, and the error
stays one of the others; after a complaint about the end of the input there is always a
continuation, wherever the completed input ends. Ten levels are what a number in place of a
statement takes. -/
theorem incomplete_iff_completable (limit : Nat) (hlimit : 10 ≤ limit) (ts : List Token)
    (stop : Nat) (hends : ∀ t ∈ ts, t.isEnd = false) :
    let parsed := parseProgramWithin limit (ts ++ [⟨.endOfInput, stop⟩])
    let extended (us : List Token) (stop' : Nat) :=
      parseProgramWithin limit (ts ++ us ++ [⟨.endOfInput, stop'⟩])
    ((∃ err, parsed = .error err ∧ err.isIncomplete) ↔
      (¬∃ es, parsed = .ok es) ∧ ∃ us stop' es, us ≠ [] ∧ extended us stop' = .ok es) ∧
    (∀ err, parsed = .error err → err.isIncomplete = false →
      ∀ us stop', ∃ err', extended us stop' = .error err' ∧ err'.isIncomplete = false) ∧
    (∀ err, parsed = .error err → err.isIncomplete →
      ∃ us, us ≠ [] ∧ (∀ t ∈ us, t.isEnd = false) ∧ ∀ stop', ∃ es, extended us stop' = .ok es) := by
  intro parsed extended
  have hfinal : ∀ err, parsed = .error err → err.isIncomplete = false →
      ∀ us stop', ∃ err', extended us stop' = .error err' ∧ err'.isIncomplete = false := by
    intro err hparsed herr us stop'
    obtain ⟨err', herr', hfinal'⟩ :=
      exists_parseProgramWithin_error hends hparsed herr (us ++ [⟨.endOfInput, stop'⟩])
    rw [← List.append_assoc] at herr'
    exact ⟨err', herr', hfinal'⟩
  have hcompleted : ∀ err, parsed = .error err → err.isIncomplete → ∃ us, us ≠ [] ∧
      (∀ t ∈ us, t.isEnd = false) ∧ ∀ stop', ∃ es, extended us stop' = .ok es :=
    fun err hparsed herr => exists_parseProgramWithin_completed hlimit hends hparsed herr
  refine ⟨⟨fun ⟨err, hparsed, herr⟩ => ?_, fun ⟨hnot, us, stop', es, _, hes⟩ => ?_⟩,
    hfinal, hcompleted⟩
  · obtain ⟨us, hne, -, hread⟩ := hcompleted err hparsed herr
    obtain ⟨es, hes⟩ := hread stop
    refine ⟨?_, us, stop, es, hne, hes⟩
    rintro ⟨es', hes'⟩
    simp [hparsed] at hes'
  -- Any other error would be final, and there is a continuation.
  · rcases hparsed : parsed with err | es'
    · refine ⟨err, rfl, ?_⟩
      cases herr : err.isIncomplete with
      | true => rfl
      | false =>
        obtain ⟨err', herr', -⟩ := hfinal err hparsed herr us stop'
        simp [hes] at herr'
    · exact absurd ⟨es', hparsed⟩ hnot

/-- At `let y = (a +`, which a program can come of, and at `1 + let`, of which none can although `=`
behind it makes another error of it. -/
theorem incomplete_iff_completable_group :
    (∃ us stop es, us ≠ [] ∧ parseProgramWithin nestingLimit
      ([⟨.identifier "let", 0⟩, ⟨.identifier "y", 4⟩, ⟨.symbol .assign, 6⟩, ⟨.symbol .openParen, 8⟩,
        ⟨.identifier "a", 9⟩, ⟨.symbol .plus, 11⟩] ++ us ++ [⟨.endOfInput, stop⟩]) = .ok es) ∧
    ∀ us stop, ∃ err, parseProgramWithin nestingLimit
      ([⟨.number .one, 0⟩, ⟨.symbol .plus, 2⟩, ⟨.identifier "let", 4⟩] ++ us ++
        [⟨.endOfInput, stop⟩]) = .error err ∧ err.isIncomplete = false := by
  constructor
  · have hgroup := incomplete_iff_completable nestingLimit (by decide) [⟨.identifier "let", 0⟩,
      ⟨.identifier "y", 4⟩, ⟨.symbol .assign, 6⟩, ⟨.symbol .openParen, 8⟩, ⟨.identifier "a", 9⟩,
      ⟨.symbol .plus, 11⟩] 12 (by decide)
    exact (hgroup.1.mp ⟨.inputEnded .operand 12, rfl, rfl⟩).2
  · have hword := incomplete_iff_completable nestingLimit (by decide) [⟨.number .one, 0⟩,
      ⟨.symbol .plus, 2⟩, ⟨.identifier "let", 4⟩] 7 (by decide)
    exact hword.2.1 (.misplacedLet 4) rfl rfl

end Expr

end Reckon
