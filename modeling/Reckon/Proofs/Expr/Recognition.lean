import Reckon.Proofs.Expr.Grammar

/-!
# The parser accepts its grammar

The parser takes the first choice that fits and never goes back. That this loses no sentence is
shown on outlines: wherever an outline ends, reading the level it belongs to ends there as well, or
stops in front of an operator that belongs to a looser level and leaves an outline behind it
(`Expr.outcome_parseAt`). What the parser returns is a phrase of the grammar in which every
assignment takes as much as any comparison could (`Expr.reads_of_parseAt`), and a phrase of that
kind is what it returns (`Expr.follows_of_reads`).

All of this is up to running out of levels. How many levels are enough depends on the number of
tokens only (`Expr.parseAt_ne_nestingTooDeep`), which turns the parser into a proof that every
sentence has a derivation with the furthest assignments.
-/

namespace Reckon

namespace Expr

/-! ### Where reading a level ends -/

/-- The kind of phrase that a level reads. -/
def Level.phrase : Level → Phrase
  | comparison => .comparison
  | union => .union
  | exclusive => .exclusive
  | intersection => .intersection
  | shift => .shift
  | sum => .sum
  | product => .product
  | signed => .signed
  | power => .power
  | atom => .atom

theorem Level.part_tighter {level : Level} (h : level.isChain) :
    level.tighter.phrase.part = .operands := by
  cases level <;> first | rfl | simp [isChain] at h

/-- Nothing goes on in front of `rest`: neither a phrase behind an operator nor, after a name, an
assignment behind `=`. -/
def Stops (rest : List Token) : Prop := Ends .comparison rest

theorem stops_nil : Stops [] := ends_nil _

private theorem stops_closeParen (pos : Nat) (rest : List Token) :
    Stops (⟨.symbol .closeParen, pos⟩ :: rest) := ends_closeParen _ pos rest

theorem stops_semicolon (pos : Nat) (rest : List Token) :
    Stops (⟨.symbol .semicolon, pos⟩ :: rest) := avoids_symbol.mpr rfl

theorem Stops.avoids_covers {rest : List Token} (h : Stops rest) (level : Level) :
    Avoids level.covers rest :=
  (Ends.mono h (Nat.zero_le level.rank)).avoids_covers

theorem Stops.leading?_ne_assign {rest : List Token} (h : Stops rest) :
    leading? rest ≠ some .assign := Ends.leading?_ne_assign h

/-- What can become of reading a level from the start of an outline that leaves `rest`. -/
inductive Outcome (level : Level) (rest : List Token) :
    Except ParseError (Expr × List Token) → Prop where
  /-- There were not enough levels. -/
  | tooDeep : Outcome level rest (.error .nestingTooDeep)
  /-- All of the outline was read, and more only if something in front of `rest` goes on. -/
  | past {e : Expr} {rest' : List Token} (hle : rest'.length ≤ rest.length)
      (hstops : Stops rest → rest' = rest) : Outcome level rest (.ok (e, rest'))
  /-- The operator in front is for a looser level. -/
  | pending {e : Expr} {op : Symbol} {pos : Nat} {mid : List Token} (hop : op.level?.isSome)
      (hcovers : level.covers op = false) (hmid : Outline .operands mid rest) :
      Outcome level rest (.ok (e, ⟨.symbol op, pos⟩ :: mid))
  /-- Something in front of `rest` goes on, and cannot be read. -/
  | refused {err : ParseError} (hstops : ¬Stops rest) : Outcome level rest (.error err)

namespace Outcome

variable {level level' : Level} {rest : List Token} {result : Except ParseError (Expr × List Token)}

/-- In front of something that goes on, any result will do that does not stop short. -/
private theorem of_not_stops (hstops : ¬Stops rest)
    (h : ∀ e rest', result = .ok (e, rest') → rest'.length ≤ rest.length) :
    Outcome level rest result := by
  rcases result with err | ⟨e, rest'⟩
  · exact .refused hstops
  · exact .past (h e rest' rfl) fun hs => absurd hs hstops

theorem imp (h : Outcome level rest result)
    (hcovers : ∀ op, level.covers op = false → level'.covers op = false) :
    Outcome level' rest result := by
  cases h with
  | tooDeep => exact .tooDeep
  | past hle hstops => exact .past hle hstops
  | pending hop hop' hmid => exact .pending hop (hcovers _ hop') hmid
  | refused hstops => exact .refused hstops

/-- At the loosest level no operator is left over. -/
private theorem not_pending {e : Expr} {rest' : List Token}
    (h : Outcome .comparison rest (.ok (e, rest'))) :
    rest'.length ≤ rest.length ∧ (Stops rest → rest' = rest) := by
  cases h with
  | past hle hstops => exact ⟨hle, hstops⟩
  | pending hop hcovers hmid =>
    rw [Level.covers_comparison] at hcovers
    simp [hcovers] at hop

private theorem of_stops (h : Outcome .comparison rest result) (hrest : Stops rest) :
    result = .error .nestingTooDeep ∨ ∃ e, result = .ok (e, rest) := by
  rcases result with err | ⟨e, rest'⟩
  · cases h with
    | tooDeep => exact .inl rfl
    | refused hstops => exact absurd hrest hstops
  · obtain rfl := h.not_pending.2 hrest
    exact .inr ⟨e, rfl⟩

/-- Where reading ends does not depend on what was read. -/
theorem replace {e : Expr} {rest' : List Token} (h : Outcome level rest (.ok (e, rest')))
    (e' : Expr) : Outcome level rest (.ok (e', rest')) := by
  cases h with
  | past hle hstops => exact .past hle hstops
  | pending hop hcovers hmid => exact .pending hop hcovers hmid

theorem of_error {err : ParseError} (h : Outcome level rest (.error err)) :
    Outcome level' rest (.error err) := by
  cases h with
  | tooDeep => exact .tooDeep
  | refused hstops => exact .refused hstops

/-- Putting something around what was read changes nothing about where reading ended. -/
theorem map {operand : Except ParseError (Expr × List Token)} (h : Outcome level rest operand)
    (herror : ∀ err, operand = .error err → result = .error err)
    (hok : ∀ e rest', operand = .ok (e, rest') → ∃ e', result = .ok (e', rest')) :
    Outcome level rest result := by
  rcases operand with err | ⟨e, rest'⟩
  · rw [herror err rfl]
    exact h.of_error
  · obtain ⟨e', rfl⟩ := hok e rest' rfl
    exact h.replace e'

theorem readUnary {op : Symbol} {operand : Reader} {input : List Token}
    (h : Outcome level rest (operand input)) : Outcome level rest (readUnary op operand input) :=
  h.map (fun _ herr => readUnary_eq_error_iff.mpr herr)
    fun e _ hok => ⟨.unary op e, readUnary_eq_ok_iff.mpr ⟨e, hok, rfl⟩⟩

end Outcome

variable {stop size depth : Nat} {level : Level} {input rest : List Token}

/-- One level up from its operands: a chain takes the operators that its operands leave over and
that join on its own level. -/
private theorem outcome_readChain {operand : Reader} (hchain : level.isChain)
    (hshortens : Shortens operand) {left : Expr} {tokens : List Token} {fuel : Nat}
    (hoperand : ∀ mid, mid.length < tokens.length → Outline .operands mid rest →
      Outcome level.tighter rest (operand mid))
    (hfuel : tokens.length ≤ fuel) (h : Outcome level.tighter rest (.ok (left, tokens))) :
    Outcome level rest (readChain level.joins operand fuel left tokens) := by
  induction fuel generalizing left tokens with
  | zero =>
    obtain rfl : tokens = [] := by simpa using hfuel
    rw [readChain_of_avoids (avoids_nil _)]
    cases h with
    | past hle hstops => exact .past hle hstops
  | succ fuel ih =>
    cases h with
    | past hle hstops =>
      -- Behind the outline the chain ends, or whatever it does is behind the outline.
      by_cases hrest : Stops rest
      · obtain rfl := hstops hrest
        have havoids : Avoids level.joins tokens :=
          (hrest.avoids_covers level).imp fun s hs => by
            rw [Level.covers_eq_of_isChain hchain, Bool.or_eq_false_iff] at hs
            exact hs.1
        rw [readChain_of_avoids havoids]
        exact .past hle hstops
      · refine .of_not_stops hrest fun e rest' hok => ?_
        exact Nat.le_trans (length_le_of_readChain hshortens hok) hle
    | @pending _ op pos mid hop hcovers hmid =>
      cases hjoins : level.joins op with
      | false =>
        rw [readChain_of_avoids (avoids_symbol.mpr hjoins)]
        refine .pending hop ?_ hmid
        rw [Level.covers_eq_of_isChain hchain, hjoins, hcovers]
        rfl
      | true =>
        have hright := hoperand mid (by simp) hmid
        rcases hresult : operand mid with err | ⟨right, tokens'⟩
        · rw [readChain_of_error hjoins hresult]
          rw [hresult] at hright
          exact hright.of_error
        · rw [readChain_of_ok hjoins hresult]
          rw [hresult] at hright
          have hlt := hshortens _ _ _ hresult
          simp only [List.length_cons] at hfuel hoperand
          exact ih (fun mid' hmid' => hoperand mid' (by omega)) (by omega) (hright.replace _)

/-- Closed operands are read whole, unless an assignment starts there. -/
theorem readAtom_of_closed {inner : Reader}
    (hinner : ∀ input' rest', input'.length < input.length → Outline .comparison input' rest' →
      Outcome .comparison rest' (inner input'))
    (h : Outline .closed input rest) :
    readAtom stop inner input = .error .nestingTooDeep ∨
      (∃ e, readAtom stop inner input = .ok (e, rest)) ∨
      (leading? rest = some .assign ∧ input.length = rest.length + 1) := by
  cases h with
  | @single t ht =>
    right
    by_cases hrest : leading? rest = some .assign
    · exact .inr ⟨hrest, rfl⟩
    left
    obtain ⟨lexeme, pos⟩ := t
    cases lexeme with
    | number | string | char => exact ⟨_, rfl⟩
    | identifier word =>
      have hlet : word ≠ declareWord := by simpa [Lexeme.isOperand] using ht
      cases hword : constant? word with
      | some v => exact ⟨_, readAtom_eq_ok_iff.mpr (.constant pos hword hrest)⟩
      | none =>
        have hname := isReserved_eq_false_iff.mpr ⟨hlet, hword⟩
        exact ⟨_, readAtom_eq_ok_iff.mpr (.access pos hname hrest)⟩
    | symbol | endOfInput => simp [Lexeme.isOperand] at ht
  | @group input _ pos pos' h =>
    have hgroup := hinner input _ (by simp) h
    rcases hgroup.of_stops (stops_closeParen pos' rest) with herr | ⟨e, he⟩
    · exact .inl (by simp [readAtom, herr])
    · exact .inr (.inl ⟨e, readAtom_eq_ok_iff.mpr (.group pos pos' he)⟩)

/-- Powers: the operator that an atom leaves over is taken if it is `**`. -/
theorem outcome_readPower {exponent : Reader} {base : Expr} {tokens : List Token}
    (hshortens : Shortens exponent)
    (hexponent : ∀ mid, mid.length < tokens.length → Outline .operands mid rest →
      Outcome .signed rest (exponent mid))
    (h : Outcome .atom rest (.ok (base, tokens))) :
    Outcome .power rest (readPower exponent base tokens) := by
  cases h with
  | past hle hstops =>
    by_cases hrest : Stops rest
    · obtain rfl := hstops hrest
      have hpower : leading? tokens ≠ some .power := fun hlead => by
        have := hrest.avoids_covers .power _ hlead
        simp [Level.covers_power] at this
      rw [readPower_of_ne hpower]
      exact .past hle hstops
    · refine .of_not_stops hrest fun e rest' hok => ?_
      rcases readPower_eq_ok_iff.mp hok with ⟨-, -, rfl⟩ | ⟨pos, more, e', rfl, he, -⟩
      · exact hle
      · have hlt := hshortens _ _ _ he
        simp only [List.length_cons] at hle
        omega
  | @pending _ op pos mid hop hcovers hmid =>
    by_cases hpower : op = .power
    · subst hpower
      refine ((hexponent mid (by simp) hmid).imp fun op hop => ?_).map (fun err herr => ?_)
        fun e rest' hok => ⟨.binary .power base e, ?_⟩
      · rw [Level.covers_power]
        rwa [Level.covers_signed] at hop
      · exact readPower_of_error herr pos
      · exact readPower_of_ok hok pos
    · rw [readPower_of_ne (by simpa using hpower)]
      refine .pending hop ?_ hmid
      simpa [Level.covers_power] using hpower

/-- Atoms: an assignment takes the whole comparison behind it. -/
private theorem outcome_readAtom {inner : Reader} (hshortens : Shortens inner)
    (hinner : ∀ input' rest', input'.length < input.length → Outline .comparison input' rest' →
      Outcome .comparison rest' (inner input'))
    (h : Outline .unsigned input rest) : Outcome .atom rest (readAtom stop inner input) := by
  cases h with
  | last h =>
    rcases readAtom_of_closed hinner h with herr | ⟨e, he⟩ | ⟨hrest, hlength⟩
    · rw [herr]
      exact .tooDeep
    · rw [he]
      exact .past (Nat.le_refl _) fun _ => rfl
    · refine .of_not_stops (fun hstops => hstops.leading?_ne_assign hrest) fun e rest' hok => ?_
      have hlt := (readAtom_eq_ok_iff.mp hok).length_lt hshortens
      omega
  | more hop h hmid =>
    -- An operator stands behind the operand, so no assignment can start there.
    rcases readAtom_of_closed hinner h with herr | ⟨e, he⟩ | ⟨hrest, -⟩
    · rw [herr]
      exact .tooDeep
    · rw [he]
      exact .pending hop (Level.covers_atom _) hmid
    · obtain rfl : _ = Symbol.assign := by simpa using hrest
      simp [Symbol.level?] at hop
  | @assign name input _ pos pos' hname h =>
    have hvalue := hinner input rest (by simp only [List.length_cons]; omega) h
    rcases hresult : inner input with err | ⟨value, rest'⟩
    · rw [hresult] at hvalue
      simp only [readAtom, readIdentifier_assign_of_error hname hresult]
      exact hvalue.of_error
    · rw [hresult] at hvalue
      simp only [readAtom, readIdentifier_assign_of_ok hname hresult]
      exact .past hvalue.not_pending.1 hvalue.not_pending.2

private theorem row_of_isChain (hchain : level.isChain)
    (hbang : level = .comparison → leading? input ≠ some .bang)
    (h : Outline level.phrase.part input rest) : Outline .operands input rest := by
  cases level <;> simp only [Level.isChain, Bool.false_eq_true] at hchain
  case comparison =>
    cases h with
    | bang h => simp at hbang
    | row h => exact h
  all_goals exact h

/-- **Outlines are read.** Reading a level from the start of an outline of its part ends where the
outline does, if nothing goes on there, or at an operator that the level leaves to looser ones. -/
theorem outcome_parseAt (level : Level) (hsize : input.length ≤ size)
    (h : Outline level.phrase.part input rest) :
    Outcome level rest (parseAt stop size depth level input) := by
  -- On the depth. The outline is taken apart no further than the step of the level asks for.
  induction depth generalizing level input rest with
  | zero => exact .tooDeep
  | succ depth ih =>
    have hstep := levelStep_parseAt stop size depth level input
    generalize parseAt stop size (depth + 1) level input = result at hstep
    cases hstep with
    | bang pos input =>
      cases h with
      | bang h => exact (ih .comparison (Nat.le_of_succ_le hsize) h).readUnary
      | row h => exact absurd rfl (h.leading?_ne (s := .bang) rfl)
    | chain hchain hbang =>
      have hrow : Outline .operands input rest := row_of_isChain hchain hbang h
      rw [← Level.part_tighter hchain] at hrow
      have hfirst := ih _ hsize hrow
      rcases hresult : parseAt stop size depth level.tighter input with err | ⟨left, tokens⟩
      · rw [readJoined_of_error hresult]
        rw [hresult] at hfirst
        exact hfirst.of_error
      · rw [readJoined_of_ok hresult]
        rw [hresult] at hfirst
        have hshortens := shortens_parseAt stop size depth level.tighter
        have hlt := hshortens _ _ _ hresult
        refine outcome_readChain hchain hshortens (fun mid hmid h => ?_) (by omega) hfirst
        rw [← Level.part_tighter hchain] at h
        exact ih _ (by omega) h
    | sign hop pos input =>
      cases h with
      | sign hop h => exact (ih .signed (Nat.le_of_succ_le hsize) h).readUnary
      | unsigned h =>
        rcases hop with rfl | rfl <;> exact absurd rfl (h.leading?_ne rfl)
    | unsigned hplus hminus =>
      refine (ih .power hsize ?_).imp fun op hop => ?_
      · cases h with
        | sign hop h => rcases hop with rfl | rfl <;> simp at hplus hminus
        | unsigned h => exact h
      · rw [Level.covers_signed]
        rwa [Level.covers_power] at hop
    | noBase hbase =>
      have := ih .atom hsize h
      rw [hbase] at this
      exact this.of_error
    | power hbase =>
      have hatom := ih .atom hsize h
      rw [hbase] at hatom
      have hlt := shortens_parseAt _ _ _ _ _ _ _ hbase
      refine outcome_readPower (shortens_parseAt _ _ _ _) (fun mid hmid h => ?_) hatom
      exact ih .signed (by omega) h
    | atom =>
      refine outcome_readAtom (shortens_parseAt _ _ _ _) (fun input' rest' hlt h' => ?_) h
      exact ih .comparison (by omega) h'

/-! ### What is read is a phrase -/

/-- The chains of the levels are rows of operands of the grammar. -/
theorem Level.exists_chain? {level : Level} (h : level.isChain) :
    ∃ kind ops, kind.chain? = some (ops, level.tighter.phrase) ∧ kind.level = level ∧
      ∀ {fits input e rest}, Reads fits kind input e rest →
        Reads fits level.phrase input e rest := by
  cases level <;> simp only [isChain, Bool.false_eq_true] at h
  case comparison => exact ⟨.relation, _, rfl, rfl, .relation⟩
  case union => exact ⟨.union, _, rfl, rfl, id⟩
  case exclusive => exact ⟨.exclusive, _, rfl, rfl, id⟩
  case intersection => exact ⟨.intersection, _, rfl, rfl, id⟩
  case shift => exact ⟨.shift, _, rfl, rfl, id⟩
  case sum => exact ⟨.sum, _, rfl, rfl, id⟩
  case product => exact ⟨.product, _, rfl, rfl, id⟩

/-- A chain that starts as a row of operands stays one. -/
private theorem reads_of_readChain {fits : List Token → List Token → Prop} {kind inner : Phrase}
    {ops : List Symbol} {joins : Symbol → Bool} {operand : Reader}
    (hkind : kind.chain? = some (ops, inner)) (hjoins : ∀ op, joins op → op ∈ ops)
    (hshortens : Shortens operand) {left e : Expr} {tokens : List Token} {fuel : Nat}
    (hoperand : ∀ mid right rest', mid.length < tokens.length →
      operand mid = .ok (right, rest') → Reads fits inner mid right rest')
    (hleft : Reads fits kind input left tokens)
    (h : readChain joins operand fuel left tokens = .ok (e, rest)) :
    Reads fits kind input e rest := by
  induction fuel generalizing left tokens with
  | zero =>
    obtain ⟨rfl, rfl⟩ : left = e ∧ tokens = rest := by simpa [readChain] using h
    exact hleft
  | succ fuel ih =>
    rcases avoids_or_exists joins tokens with havoids | ⟨op, pos, mid, hop, rfl⟩
    · obtain ⟨rfl, rfl⟩ : left = e ∧ tokens = rest := by
        simpa [readChain_of_avoids havoids] using h
      exact hleft
    · rcases hresult : operand mid with err | ⟨right, tokens'⟩
      · simp [readChain_of_error hop hresult] at h
      · rw [readChain_of_ok hop hresult] at h
        have hlt := hshortens _ _ _ hresult
        have hright := hoperand mid right tokens' (by simp) hresult
        refine ih (fun mid' right' rest' hmid' => ?_) (.join hkind (hjoins op hop) hleft hright) h
        exact hoperand mid' right' rest' (by simp only [List.length_cons]; omega)

/-- No comparison reaches further than the one that is read. -/
theorem furthest_of_parseAt {e : Expr} (hsize : input.length ≤ size)
    (h : parseAt stop size depth .comparison input = .ok (e, rest)) : Furthest input rest := by
  intro e' rest' hreads
  have houtcome : Outcome .comparison rest' (parseAt stop size depth .comparison input) :=
    outcome_parseAt .comparison hsize hreads.outline
  rw [h] at houtcome
  exact houtcome.not_pending.1

/-- **Soundness.** What is read at a level is a phrase of the level, and all assignments in it reach
as far as they can. -/
theorem reads_of_parseAt (level : Level) {e : Expr} (hsize : input.length ≤ size)
    (h : parseAt stop size depth level input = .ok (e, rest)) :
    Reads Furthest level.phrase input e rest := by
  -- The induction is on the levels left, and `LevelStep` says which stage was at work.
  induction depth generalizing level input e rest with
  | zero => simp at h
  | succ depth ih =>
    have hstep := levelStep_parseAt stop size depth level input
    rw [h] at hstep
    generalize hresult : Except.ok (e, rest) = result at hstep
    cases hstep with
    | bang pos input =>
      obtain ⟨e', he', rfl⟩ := readUnary_eq_ok_iff.mp hresult.symm
      exact .bang (ih .comparison (Nat.le_of_succ_le hsize) he')
    | chain hchain hbang =>
      obtain ⟨kind, ops, hkind, hlevel, himp⟩ := Level.exists_chain? hchain
      have hshortens := shortens_parseAt stop size depth level.tighter
      rcases hfirst : parseAt stop size depth level.tighter input with err | ⟨left, tokens⟩
      · simp [readJoined_of_error hfirst] at hresult
      · rw [readJoined_of_ok hfirst] at hresult
        have hlt := hshortens _ _ _ hfirst
        refine himp (reads_of_readChain hkind (fun op hop => ?_) hshortens
          (fun mid right rest' hmid => ?_) (.operand hkind (ih _ hsize hfirst)) hresult.symm)
        · rw [(Phrase.level_of_chain? hkind).2.2, hlevel]
          exact hop
        · exact ih _ (by omega)
    | sign hop pos input =>
      obtain ⟨e', he', rfl⟩ := readUnary_eq_ok_iff.mp hresult.symm
      exact .sign hop (ih .signed (Nat.le_of_succ_le hsize) he')
    | unsigned hplus hminus => exact .unsigned (ih .power hsize hresult.symm)
    | noBase hbase => simp at hresult
    | power hbase =>
      have hlt := shortens_parseAt _ _ _ _ _ _ _ hbase
      have hatom := ih .atom hsize hbase
      rcases readPower_eq_ok_iff.mp hresult.symm with
        ⟨-, rfl, rfl⟩ | ⟨pos, mid, e', rfl, he', rfl⟩
      · exact .base hatom
      · simp only [List.length_cons] at hlt
        exact .power hatom (ih .signed (by omega) he')
    | atom =>
      cases readAtom_eq_ok_iff.mp hresult.symm with
      | number x pos => exact .number x pos rest
      | string s pos => exact .string s pos rest
      | char c pos => exact .char c pos rest
      | constant pos hword hrest => exact .constant (constant?_eq_some_iff.mp hword) pos rest
      | access pos hname hrest => exact .access (isReserved_eq_false_iff_notMem.mp hname) pos rest
      | assign pos pos' hname hvalue =>
        simp only [List.length_cons] at hsize
        refine .assign (isReserved_eq_false_iff_notMem.mp hname) ?_ ?_
        · exact ih .comparison (by omega) hvalue
        · exact furthest_of_parseAt (by omega) hvalue
      | group pos pos' he => exact .group (ih .comparison (Nat.le_of_succ_le hsize) he)

/-- **Greedy assignments lose nothing.** Where nothing goes on behind an outline, it is a comparison
in which every assignment reaches as far as it can. -/
theorem Outline.exists_reads (h : Outline .comparison input rest) (hrest : Stops rest) :
    ∃ e, Reads Furthest .comparison input e rest := by
  have houtcome : Outcome .comparison rest
      (parseAt 0 input.length (10 * input.length + 10) .comparison input) :=
    outcome_parseAt .comparison (Nat.le_refl _) h
  rcases houtcome.of_stops hrest with herr | ⟨e, he⟩
  · exact absurd herr (parseAt_ne_nestingTooDeep (Nat.le_refl _))
  · exact ⟨e, reads_of_parseAt .comparison (Nat.le_refl _) he⟩

/-! ### Phrases are read -/

/-- In front of `rest` nothing goes on, or an operator whose right operand ends where nothing goes
on. This is what can stand behind a phrase inside a sentence. -/
inductive Resumes : List Token → Prop where
  | stops {rest : List Token} (h : Stops rest) : Resumes rest
  | operator {op : Symbol} {pos : Nat} {mid final : List Token} (hop : op.level?.isSome)
      (hmid : Outline .operands mid final) (hfinal : Stops final) :
      Resumes (⟨.symbol op, pos⟩ :: mid)

theorem Resumes.leading?_ne_assign (h : Resumes rest) : leading? rest ≠ some .assign := by
  cases h with
  | stops h => exact h.leading?_ne_assign
  | operator hop hmid hfinal =>
    rintro ⟨⟩
    simp [Symbol.level?] at hop

/-- What stands in front of an operand of a sentence resumes as well. -/
theorem Resumes.operand {op : Symbol} {pos : Nat} {mid : List Token} (h : Resumes rest)
    (hop : op.level?.isSome) (hmid : Outline .operands mid rest) :
    Resumes (⟨.symbol op, pos⟩ :: mid) := by
  cases h with
  | stops h => exact .operator hop hmid h
  | operator hop' hmid' hfinal => exact .operator hop (hmid.append (by simp) hop' hmid') hfinal

/-- An assignment that reaches as far as it can ends where nothing goes on. -/
theorem Resumes.stops_of_furthest (h : Resumes rest) (hinput : Outline .comparison input rest)
    (hfurthest : Furthest input rest) : Stops rest := by
  cases h with
  | stops h => exact h
  | @operator op pos mid final hop hmid hfinal =>
    -- The comparison could go on behind the operator, up to `final`.
    obtain ⟨e, he⟩ := (hinput.append (by simp) hop hmid).exists_reads hfinal
    have hle := hfurthest e final (he.mono fun _ _ _ => trivial)
    have hlt := hmid.length_lt
    simp only [List.length_cons] at hle
    omega

/-- The result is `e` with `rest` left, unless there were not enough levels. -/
def Gives (result : Except ParseError (Expr × List Token)) (e : Expr) (rest : List Token) : Prop :=
  result = .error .nestingTooDeep ∨ result = .ok (e, rest)

theorem Gives.readUnary {operand : Reader} {e : Expr} (h : Gives (operand input) e rest)
    (op : Symbol) : Gives (readUnary op operand input) (.unary op e) rest := by
  rcases h with h | h
  · exact .inl (readUnary_eq_error_iff.mpr h)
  · exact .inr (readUnary_eq_ok_iff.mpr ⟨e, h, rfl⟩)

/-- Reading the operands of `level` from `input` on arrives at `e` with `rest` left and goes on from
there, unless there are not enough levels. -/
def ReachesChain (stop size depth : Nat) (level : Level) (input : List Token) (e : Expr)
    (rest : List Token) : Prop :=
  let operand := parseAt stop size depth level.tighter
  readJoined size level.joins operand input = .error .nestingTooDeep ∨
    ∃ fuel, rest.length ≤ fuel ∧
      readJoined size level.joins operand input = readChain level.joins operand fuel e rest

/-- How the parser follows a phrase that leaves `rest`. -/
structure Follows (stop size : Nat) (kind : Phrase) (input : List Token) (e : Expr)
    (rest : List Token) : Prop where
  gives : ∀ depth, Avoids kind.level.covers rest →
    Gives (parseAt stop size depth kind.level input) e rest
  chain : ∀ depth, kind.chain?.isSome → Avoids kind.level.tighter.covers rest →
    ReachesChain stop size depth kind.level input e rest

namespace Follows

variable {kind inner : Phrase} {ops : List Symbol} {e : Expr}

/-- Phrases that are not rows. -/
private theorem of_gives (hkind : kind.chain? = none)
    (h : ∀ depth, Avoids kind.level.covers rest →
      Gives (parseAt stop size (depth + 1) kind.level input) e rest) :
    Follows stop size kind input e rest where
  gives
    | 0, _ => .inl rfl
    | depth + 1, hrest => h depth hrest
  chain depth hchain := by simp [hkind] at hchain

/-- Rows: when the chain has arrived, and nothing joins, it ends. -/
private theorem of_chain (hkind : kind.chain? = some (ops, inner))
    (hinput : Outline .operands input rest)
    (h : ∀ depth, Avoids kind.level.tighter.covers rest →
      ReachesChain stop size depth kind.level input e rest) :
    Follows stop size kind input e rest where
  gives
    | 0, _ => .inl rfl
    | depth + 1, hrest => by
      have hchain := (Phrase.level_of_chain? hkind).1
      have hcovers (s : Symbol) (hs : kind.level.covers s = false) :
          kind.level.joins s = false ∧ kind.level.tighter.covers s = false := by
        rwa [Level.covers_eq_of_isChain hchain, Bool.or_eq_false_iff] at hs
      rw [parseAt_chain hchain fun _ => hinput.leading?_ne rfl]
      rcases h depth (hrest.imp fun s hs => (hcovers s hs).2) with herr | ⟨fuel, -, hread⟩
      · exact .inl herr
      · rw [hread, readChain_of_avoids (hrest.imp fun s hs => (hcovers s hs).1)]
        exact .inr rfl
  chain depth _ := h depth

theorem operand (hkind : kind.chain? = some (ops, inner)) (hsize : input.length ≤ size)
    (hinput : Outline .operands input rest) (h : Follows stop size inner input e rest) :
    Follows stop size kind input e rest := by
  obtain ⟨hchain, hinner, -⟩ := Phrase.level_of_chain? hkind
  refine of_chain hkind hinput fun depth hrest => ?_
  rw [← hinner] at hrest
  rcases h.gives depth hrest with herr | hok
  · rw [hinner] at herr
    exact .inl (readJoined_of_error herr)
  · rw [hinner] at hok
    refine .inr ⟨size, ?_, readJoined_of_ok hok⟩
    have := shortens_parseAt _ _ _ _ _ _ _ hok
    omega

theorem join {op : Symbol} {mid : List Token} {l r : Expr} {pos : Nat}
    (hl : Follows stop size kind input l (⟨.symbol op, pos⟩ :: mid))
    (hkind : kind.chain? = some (ops, inner)) (hop : op ∈ ops)
    (hinput : Outline .operands input rest)
    (hr : Follows stop size inner mid r rest) :
    Follows stop size kind input (.binary op l r) rest := by
  obtain ⟨hchain, hinner, hjoins⟩ := Phrase.level_of_chain? hkind
  have hjoin := (hjoins op).mp hop
  refine of_chain hkind hinput fun depth hrest => ?_
  have hnext : Avoids kind.level.tighter.covers (⟨.symbol op, pos⟩ :: mid) := by
    refine avoids_symbol.mpr ?_
    simp [Level.covers, (Level.joins_iff hchain).mp hjoin,
      Level.rank_tighter (Level.ne_atom_of_isChain hchain)]
  rcases hl.chain depth (by simp [hkind]) hnext with herr | ⟨fuel, hfuel, hread⟩
  · exact .inl herr
  · simp only [List.length_cons] at hfuel
    obtain ⟨fuel, rfl⟩ : ∃ k, fuel = k + 1 := ⟨fuel - 1, by omega⟩
    rw [← hinner] at hrest
    rcases hr.gives depth hrest with herr | hok
    · rw [hinner] at herr
      exact .inl (hread.trans (readChain_of_error hjoin herr fuel pos))
    · rw [hinner] at hok
      have hlt := shortens_parseAt _ _ _ _ _ _ _ hok
      exact .inr ⟨fuel, by omega, hread.trans (readChain_of_ok hjoin hok fuel pos)⟩

theorem base (h : Follows stop size .atom input e rest) :
    Follows stop size .power input e rest := by
  refine of_gives rfl fun depth hrest => ?_
  have hpower : leading? rest ≠ some .power := fun hlead => by
    simpa [Phrase.level, Level.covers_power] using hrest _ hlead
  rcases h.gives depth (hrest.imp fun s _ => Level.covers_atom s) with herr | hok
  · exact .inl (parseAt_power_of_error herr)
  · exact .inr ((parseAt_power_of_ok hok).trans (readPower_of_ne hpower))

theorem power {mid : List Token} {l r : Expr} {pos : Nat}
    (hl : Follows stop size .atom input l (⟨.symbol .power, pos⟩ :: mid))
    (hr : Follows stop size .signed mid r rest) :
    Follows stop size .power input (.binary .power l r) rest := by
  refine of_gives rfl fun depth hrest => ?_
  have hright : Avoids Level.signed.covers rest :=
    hrest.imp fun s hs => by rwa [Level.covers_signed, ← Level.covers_power]
  rcases hl.gives depth (avoids_symbol.mpr rfl) with herr | hok
  · exact .inl (parseAt_power_of_error herr)
  · have hread := parseAt_power_of_ok hok
    rcases hr.gives depth hright with herr | hok'
    · exact .inl (hread.trans (readPower_of_error herr pos))
    · exact .inr (hread.trans (readPower_of_ok hok' pos))

theorem atom (h : ∀ depth,
      AtomRead (parseAt stop size depth .comparison) input e rest ∨
        readAtom stop (parseAt stop size depth .comparison) input = .error .nestingTooDeep) :
    Follows stop size .atom input e rest := by
  refine of_gives rfl fun depth _ => ?_
  rcases h depth with hread | herr
  · exact .inr (readAtom_eq_ok_iff.mpr hread)
  · exact .inl herr

end Follows

/-- **Completeness.** A phrase in which every assignment reaches as far as it can is what the parser
reads, wherever the phrase can stand in a sentence. -/
theorem follows_of_reads {kind : Phrase} {e : Expr} (h : Reads Furthest kind input e rest)
    (hsize : input.length ≤ size) (hrest : Resumes rest) :
    Follows stop size kind input e rest := by
  induction h with
  | bang h ih =>
    have hfollows := ih (Nat.le_of_succ_le hsize) hrest
    exact .of_gives rfl fun depth hcovers => (hfollows.gives depth hcovers).readUnary .bang
  | relation h ih =>
    have hfollows := ih hsize hrest
    exact .of_gives rfl fun depth hcovers => hfollows.gives (depth + 1) hcovers
  | operand hkind h ih =>
    have houtline := h.outline
    rw [(Phrase.part_of_chain? hkind).2] at houtline
    exact .operand hkind hsize houtline (ih hsize hrest)
  | join hkind hop hl hr ihl ihr =>
    obtain ⟨hpart, hinner⟩ := Phrase.part_of_chain? hkind
    have hlevel := Phrase.isSome_level?_of_chain? hkind hop
    have hleft := hl.outline
    have hright := hr.outline
    rw [hpart] at hleft
    rw [hinner] at hright
    have hlt := hleft.length_lt
    simp only [List.length_cons] at hlt
    -- The left operands stand in front of an operator, which a sentence can go on behind.
    have hfollows := ihl hsize (hrest.operand hlevel hright)
    exact hfollows.join hkind hop (hleft.append (by simp) hlevel hright) (ihr (by omega) hrest)
  | sign hop h ih =>
    have hfollows := ih (Nat.le_of_succ_le hsize) hrest
    refine .of_gives rfl fun depth hcovers => ?_
    rw [Phrase.level, parseAt_sign hop]
    exact (hfollows.gives depth hcovers).readUnary _
  | unsigned h ih =>
    have hfollows := ih hsize hrest
    refine .of_gives rfl fun depth hcovers => ?_
    rw [Phrase.level, parseAt_unsigned (h.outline.leading?_ne rfl) (h.outline.leading?_ne rfl)]
    refine hfollows.gives depth (hcovers.imp fun s hs => ?_)
    rwa [Phrase.level, Level.covers_power, ← Level.covers_signed]
  | base h ih => exact .base (ih hsize hrest)
  | power hl hr ihl ihr =>
    have hlt := hl.outline.length_lt
    simp only [List.length_cons] at hlt
    exact .power (ihl hsize (hrest.operand rfl hr.outline)) (ihr (by omega) hrest)
  | number x pos rest => exact .atom fun _ => .inl (.number x pos rest)
  | string s pos rest => exact .atom fun _ => .inl (.string s pos rest)
  | char c pos rest => exact .atom fun _ => .inl (.char c pos rest)
  | constant hword pos rest =>
    have hword := constant?_eq_some_iff.mpr hword
    exact .atom fun _ => .inl (.constant pos hword hrest.leading?_ne_assign)
  | access hname pos rest =>
    have hname := isReserved_eq_false_iff_notMem.mpr hname
    exact .atom fun _ => .inl (.access pos hname hrest.leading?_ne_assign)
  | @assign name input rest e pos pos' hname h hfurthest ih =>
    have hname := isReserved_eq_false_iff_notMem.mpr hname
    -- A value that reaches furthest leaves no operator to the levels around the assignment.
    have hstops := hrest.stops_of_furthest h.outline hfurthest
    simp only [List.length_cons] at hsize
    refine .atom fun depth => ?_
    have hvalue : Gives (parseAt stop size depth .comparison input) e rest :=
      (ih (by omega) hrest).gives depth (hstops.avoids_covers _)
    rcases hvalue with herr | hok
    · exact .inr (by rw [readAtom, readIdentifier_assign_of_error hname herr])
    · exact .inl (.assign pos pos' hname hok)
  | @group input rest e pos pos' h ih =>
    have hstops := stops_closeParen pos' rest
    refine .atom fun depth => ?_
    have hinner : Gives (parseAt stop size depth .comparison input) e _ :=
      (ih (Nat.le_of_succ_le hsize) (.stops hstops)).gives depth (hstops.avoids_covers _)
    rcases hinner with herr | hok
    · exact .inr (by simp [readAtom, herr])
    · exact .inl (.group pos pos' hok)

end Expr

end Reckon
