import Reckon.Proofs.Expr.EndMarker

/-!
# Progress

A routine of the parser that returns a tree has moved on, and it has stopped for a good reason. How
far it has come is measured by the way to the first end marker (`Expr.reach`), which no routine
crosses.

`Expr.Takes` says what a reader did that took some tokens: it took at least one and no end marker;
what is left over does not begin with a symbol that would have carried on the construct; and of what
is left over it saw no more than the first token. Each routine hands its tokens on to others, so the
facts about one routine follow from those about the next (`Expr.advances_parseAt`).
-/

namespace Reckon

namespace Expr

/-! ### The way to the first end marker -/

/-- The number of tokens in front of the first end marker. -/
def reach (tokens : List Token) : Nat := tokens.findIdx Token.isEnd

variable {tokens used rest : List Token} {e : Expr}

theorem reach_cons {t : Token} (h : t.isEnd = false) (tokens : List Token) :
    reach (t :: tokens) = reach tokens + 1 := by
  rw [reach, List.findIdx_cons, h, cond_false, reach]

theorem reach_append (h : Unended used) (rest : List Token) :
    reach (used ++ rest) = used.length + reach rest := by
  induction used with
  | nil => rw [List.nil_append, List.length_nil, Nat.zero_add]
  | cons t used ih =>
    obtain ⟨ht, hused⟩ := unended_cons_iff.mp h
    rw [List.cons_append, reach_cons ht, ih hused, List.length_cons]
    omega

private theorem unended_take {i : Nat} (h : i ≤ reach tokens) : Unended (tokens.take i) := by
  intro t ht
  obtain ⟨k, hk, rfl⟩ := List.mem_take_iff_getElem.mp ht
  simpa using List.not_of_lt_findIdx (Nat.lt_of_lt_of_le (Nat.lt_min.mp hk).1 h)

theorem reach_drop {i : Nat} (h : i ≤ reach tokens) : reach tokens = i + reach (tokens.drop i) := by
  have hlength : (tokens.take i).length = i :=
    List.length_take_of_le (Nat.le_trans h List.findIdx_le_length)
  have hreach := reach_append (unended_take h) (tokens.drop i)
  rwa [List.take_append_drop, hlength] at hreach

/-- At an end marker no symbol comes first. -/
theorem avoids_of_reach_eq_zero (h : reach tokens = 0) (test : Symbol → Bool) :
    Avoids test tokens := by
  rcases avoids_or_exists test tokens with havoids | ⟨s, pos, input, -, rfl⟩
  · exact havoids
  · rw [reach_cons rfl] at h
    omega

/-! ### First tokens -/

/-- Only the first token decides which symbol comes first. -/
theorem leading?_congr {other : List Token} (h : other.head? = rest.head?) :
    leading? other = leading? rest := by
  rcases other with _ | ⟨t, other⟩ <;> rcases rest with _ | ⟨t', rest⟩ <;> simp at h
  · rfl
  · subst h
    rcases t with ⟨lexeme, pos⟩
    cases lexeme <;> rfl

theorem Avoids.congr {test : Symbol → Bool} {other : List Token} (h : Avoids test rest)
    (hhead : other.head? = rest.head?) : Avoids test other := by
  intro s hs
  exact h s ((leading?_congr hhead).symm.trans hs)

private theorem head?_append_congr {other : List Token} (used : List Token)
    (h : other.head? = rest.head?) : (used ++ other).head? = (used ++ rest).head? := by
  rw [List.head?_append, List.head?_append, h]

private theorem leading?_append_of_ne_nil (h : used ≠ []) (other rest : List Token) :
    leading? (used ++ other) = leading? (used ++ rest) := by
  obtain ⟨t, used, rfl⟩ := List.exists_cons_of_ne_nil h
  exact leading?_congr rfl

/-! ### What a reader takes -/

/-- The reader makes `e` of the tokens `used` in front of `rest`, as it should on the level. -/
structure Takes (reader : Reader) (level : Level) (used : List Token) (e : Expr)
    (rest : List Token) : Prop where
  ne_nil : used ≠ []
  unended : Unended used
  /-- No symbol comes next that joins operands on the level or on a tighter one. -/
  covers : Avoids level.covers rest
  /-- A name that was taken last is not assigned to. -/
  names : ∀ name pos, used.getLast? = some ⟨.identifier name, pos⟩ →
    leading? rest ≠ some .assign
  /-- The first token left over settles it. Those behind it do not matter. -/
  settled : ∀ other, other.head? = rest.head? → reader (used ++ other) = .ok (e, other)

/-- On up to `size` tokens in front of an end marker, the reader takes tokens as it should on the
level if it returns a tree. -/
def Advances (size : Nat) (level : Level) (reader : Reader) : Prop :=
  ∀ tokens e rest, reach tokens ≤ size → reader tokens = .ok (e, rest) →
    ∃ used, tokens = used ++ rest ∧ Takes reader level used e rest

variable {reader reader' operand : Reader} {level level' tight : Level} {stop size depth : Nat}

theorem Takes.reach_lt (h : Takes reader level used e rest) :
    reach rest < reach (used ++ rest) := by
  rw [reach_append h.unended]
  have hpos := List.length_pos_iff.mpr h.ne_nil
  omega

/-- More tokens in front change nothing about the end. -/
theorem Takes.prepend (h : Takes reader level used e rest) {front : List Token} {e' : Expr}
    (hfront : Unended front) (hcovers : Avoids level'.covers rest)
    (hreader : ∀ other, other.head? = rest.head? → reader (used ++ other) = .ok (e, other) →
      reader' (front ++ (used ++ other)) = .ok (e', other)) :
    Takes reader' level' (front ++ used) e' rest where
  ne_nil := List.append_ne_nil_of_right_ne_nil front h.ne_nil
  unended := List.forall_mem_append.mpr ⟨hfront, h.unended⟩
  covers := hcovers
  names name pos hlast := by
    rw [List.getLast?_append, Option.or_of_isSome (List.getLast?_isSome.mpr h.ne_nil)] at hlast
    exact h.names name pos hlast
  settled other hother := by
    rw [List.append_assoc]
    exact hreader other hother (h.settled other hother)

theorem Takes.congr (h : Takes reader level used e rest) (hcovers : Avoids level'.covers rest)
    (hreader : ∀ other, other.head? = rest.head? → reader (used ++ other) = .ok (e, other) →
      reader' (used ++ other) = .ok (e, other)) : Takes reader' level' used e rest :=
  h.prepend (List.forall_mem_nil _) hcovers hreader

private theorem unended_singleton {t : Token} (h : t.isEnd = false) : Unended [t] := by
  intro t' ht'
  rwa [List.mem_singleton.mp ht']

/-! ### Chains -/

/-- A chain behind the operand `first` takes the tokens `used`, which may be none. -/
structure ChainTakes (joins : Symbol → Bool) (operand : Reader) (tight : Level) (fuel : Nat)
    (left : Expr) (first used : List Token) (e : Expr) (rest : List Token) : Prop where
  unended : Unended used
  avoids : Avoids joins rest
  covers : Avoids tight.covers rest
  names : ∀ name pos, (first ++ used).getLast? = some ⟨.identifier name, pos⟩ →
    leading? rest ≠ some .assign
  settled : ∀ other, other.head? = rest.head? →
    readChain joins operand fuel left (used ++ other) = .ok (e, other)

/-- A chain that does not go on takes nothing. -/
theorem Takes.chainTakes {joins : Symbol → Bool} {first : List Token}
    (h : Takes operand tight first e rest) (hrest : Avoids joins rest) (fuel : Nat) (left : Expr) :
    ChainTakes joins operand tight fuel left first [] left rest where
  unended := List.forall_mem_nil _
  avoids := hrest
  covers := h.covers
  names name pos hlast := h.names name pos (by rwa [List.append_nil] at hlast)
  settled other hother := readChain_of_avoids (hrest.congr hother) fuel

/-- A chain that goes on takes a symbol, an operand and what the chain behind these takes. -/
theorem ChainTakes.cons {joins : Symbol → Bool} {s : Symbol} {fuel : Nat} {left right : Expr}
    {first used' : List Token} (hs : joins s)
    (hright : Takes operand tight used right (used' ++ rest))
    (h : ChainTakes joins operand tight fuel (.binary s left right) used used' e rest) (pos : Nat) :
    ChainTakes joins operand tight (fuel + 1) left first (⟨.symbol s, pos⟩ :: (used ++ used')) e
      rest where
  unended := unended_cons_iff.mpr ⟨rfl, List.forall_mem_append.mpr ⟨hright.unended, h.unended⟩⟩
  avoids := h.avoids
  covers := h.covers
  names name pos' hlast := by
    have hne : used ++ used' ≠ [] := List.append_ne_nil_of_left_ne_nil hright.ne_nil used'
    refine h.names name pos' ?_
    rwa [← List.singleton_append, ← List.append_assoc, List.getLast?_append,
      Option.or_of_isSome (List.getLast?_isSome.mpr hne)] at hlast
  settled other hother := by
    have hoperand := hright.settled (used' ++ other) (head?_append_congr used' hother)
    rw [List.cons_append, List.append_assoc, readChain_of_ok hs hoperand]
    exact h.settled other hother

/-- **Chains.** There are no more rounds than tokens in front of the first end marker, so a chain
ends because no symbol that joins is left. -/
theorem Advances.chain (hoperand : Advances size tight operand) {joins : Symbol → Bool} {fuel : Nat}
    {left last : Expr} {first : List Token} (hfirst : Takes operand tight first last tokens)
    (hsize : reach tokens ≤ size) (hfuel : reach tokens ≤ fuel)
    (h : readChain joins operand fuel left tokens = .ok (e, rest)) :
    ∃ used, tokens = used ++ rest ∧
      ChainTakes joins operand tight fuel left first used e rest := by
  -- What is known about the end of the chain is what its last operand leaves behind.
  induction fuel generalizing tokens left last first with
  | zero =>
    have havoids := avoids_of_reach_eq_zero (Nat.le_zero.mp hfuel) joins
    obtain ⟨rfl, rfl⟩ : left = e ∧ tokens = rest := by simpa [readChain] using h
    exact ⟨[], rfl, hfirst.chainTakes havoids 0 left⟩
  | succ fuel ih =>
    rcases avoids_or_exists joins tokens with havoids | ⟨s, pos, input, hs, rfl⟩
    · obtain ⟨rfl, rfl⟩ : left = e ∧ tokens = rest := by
        simpa [readChain_of_avoids havoids] using h
      exact ⟨[], rfl, hfirst.chainTakes havoids (fuel + 1) left⟩
    rw [reach_cons rfl] at hsize hfuel
    rcases hop : operand input with err | ⟨right, rest'⟩
    · simp [readChain_of_error hs hop] at h
    rw [readChain_of_ok hs hop] at h
    obtain ⟨used, rfl, hright⟩ := hoperand _ _ _ (by omega) hop
    have hlt := hright.reach_lt
    obtain ⟨used', rfl, hchain⟩ := ih hright (by omega) (by omega) h
    exact ⟨⟨.symbol s, pos⟩ :: (used ++ used'), by simp, hchain.cons hs hright pos⟩

/-- Operands that are joined. -/
theorem Advances.readJoined (hoperand : Advances size tight operand) {joins : Symbol → Bool}
    (hlevel : ∀ s, joins s = false → tight.covers s = false → level.covers s = false) :
    Advances size level (readJoined size joins operand) := by
  intro tokens e rest hsize h
  rcases hop : operand tokens with err | ⟨left, rest'⟩
  · simp [readJoined_of_error hop] at h
  rw [readJoined_of_ok hop] at h
  obtain ⟨first, rfl, hfirst⟩ := hoperand _ _ _ hsize hop
  have hlt := hfirst.reach_lt
  obtain ⟨used, rfl, hchain⟩ := hoperand.chain hfirst (by omega) (by omega) h
  refine ⟨first ++ used, by simp, ?_⟩
  exact {
    ne_nil := List.append_ne_nil_of_left_ne_nil hfirst.ne_nil used
    unended := List.forall_mem_append.mpr ⟨hfirst.unended, hchain.unended⟩
    covers := fun s hs => hlevel s (hchain.avoids s hs) (hchain.covers s hs)
    names := hchain.names
    settled := fun other hother => by
      have hoperand := hfirst.settled (used ++ other) (head?_append_congr used hother)
      rw [List.append_assoc, readJoined_of_ok hoperand]
      exact hchain.settled other hother }

/-! ### Atoms and levels -/

/-- A token that is an atom by itself. -/
theorem takes_singleton {t : Token} (ht : t.isEnd = false)
    (hname : ∀ name pos, t = ⟨.identifier name, pos⟩ → leading? rest ≠ some .assign)
    (hreader : ∀ other, other.head? = rest.head? → reader (t :: other) = .ok (e, other)) :
    Takes reader .atom [t] e rest where
  ne_nil := List.cons_ne_nil t []
  unended := unended_singleton ht
  covers s _ := Level.covers_atom s
  names name pos hlast := hname name pos (Option.some.inj hlast)
  settled := hreader

theorem Advances.readAtom {inner : Reader} (hinner : Advances size .comparison inner) (stop : Nat) :
    Advances size .atom (readAtom stop inner) := by
  intro tokens e rest hsize h
  cases readAtom_eq_ok_iff.mp h with
  | number x pos rest =>
    exact ⟨[⟨.number x, pos⟩], rfl, takes_singleton rfl (by simp) fun other _ => rfl⟩
  | string s pos rest =>
    exact ⟨[⟨.string s, pos⟩], rfl, takes_singleton rfl (by simp) fun other _ => rfl⟩
  | char c pos rest =>
    exact ⟨[⟨.char c, pos⟩], rfl, takes_singleton rfl (by simp) fun other _ => rfl⟩
  | @constant word v rest pos hword hrest =>
    refine ⟨[⟨.identifier word, pos⟩], rfl, takes_singleton rfl (fun _ _ _ => hrest) ?_⟩
    intro other hother
    have hother' : leading? other ≠ some .assign := by rwa [leading?_congr hother]
    exact readAtom_eq_ok_iff.mpr (.constant pos hword hother')
  | @access name rest pos hname hrest =>
    refine ⟨[⟨.identifier name, pos⟩], rfl, takes_singleton rfl (fun _ _ _ => hrest) ?_⟩
    intro other hother
    have hother' : leading? other ≠ some .assign := by rwa [leading?_congr hother]
    exact readAtom_eq_ok_iff.mpr (.access pos hname hother')
  | @assign name value input rest pos pos' hname hvalue =>
    rw [reach_cons rfl, reach_cons rfl] at hsize
    obtain ⟨used, rfl, htakes⟩ := hinner _ _ _ (by omega) hvalue
    refine ⟨[⟨.identifier name, pos⟩, ⟨.symbol .assign, pos'⟩] ++ used, rfl,
      htakes.prepend (unended_cons_iff.mpr ⟨rfl, unended_singleton rfl⟩)
        (fun s _ => Level.covers_atom s) ?_⟩
    intro other _ hread
    exact readAtom_eq_ok_iff.mpr (.assign pos pos' hname hread)
  | @group e input rest pos pos' he =>
    rw [reach_cons rfl] at hsize
    obtain ⟨used, rfl, htakes⟩ := hinner _ _ _ (by omega) he
    refine ⟨⟨.symbol .openParen, pos⟩ :: (used ++ [⟨.symbol .closeParen, pos'⟩]), by simp, ?_⟩
    exact {
      ne_nil := List.cons_ne_nil _ _
      unended := unended_cons_iff.mpr
        ⟨rfl, List.forall_mem_append.mpr ⟨htakes.unended, unended_singleton rfl⟩⟩
      covers := fun s _ => Level.covers_atom s
      names := fun name pos'' hlast => by
        rw [← List.cons_append, List.getLast?_concat] at hlast
        simp at hlast
      settled := fun other _ => by
        rw [List.cons_append, List.append_assoc, List.singleton_append, readAtom_eq_ok_iff]
        exact .group pos pos' (htakes.settled _ rfl) }

theorem avoids_power_iff : Avoids Level.power.covers tokens ↔ leading? tokens ≠ some .power := by
  rw [funext Level.covers_power, avoids_beq_iff]

theorem avoids_signed_iff : Avoids Level.signed.covers tokens ↔ leading? tokens ≠ some .power := by
  rw [funext Level.covers_signed, avoids_beq_iff]

/-- **Levels.** A level that is read takes tokens as it should. -/
theorem advances_parseAt (stop size depth : Nat) (level : Level) :
    Advances size level (parseAt stop size depth level) := by
  induction depth generalizing level with
  | zero =>
    intro tokens e rest hsize h
    simp at h
  | succ depth ih =>
    intro tokens e rest hsize h
    have hstep := levelStep_parseAt stop size depth level tokens
    rw [h] at hstep
    generalize hresult : Except.ok (e, rest) = result at hstep
    -- In each case `used` are the tokens taken, and `other` any tokens that could stand behind them
    -- instead without carrying them on.
    cases hstep with
    | bang pos input =>
      obtain ⟨e', he', rfl⟩ := readUnary_eq_ok_iff.mp hresult.symm
      rw [reach_cons rfl] at hsize
      obtain ⟨used, rfl, htakes⟩ := ih .comparison _ _ _ (by omega) he'
      refine ⟨[⟨.symbol .bang, pos⟩] ++ used, rfl,
        htakes.prepend (unended_singleton rfl) htakes.covers ?_⟩
      intro other _ hread
      rw [List.singleton_append, parseAt_bang]
      exact readUnary_eq_ok_iff.mpr ⟨e', hread, rfl⟩
    | chain hchain hbang =>
      have hlevel (s : Symbol) (hjoins : level.joins s = false)
          (htight : level.tighter.covers s = false) : level.covers s = false := by
        rw [Level.covers_eq_of_isChain hchain, hjoins, htight, Bool.or_false]
      obtain ⟨used, rfl, htakes⟩ :=
        (ih level.tighter).readJoined hlevel _ _ _ hsize hresult.symm
      refine ⟨used, rfl, htakes.congr htakes.covers ?_⟩
      intro other _ hread
      rw [parseAt_chain hchain, hread]
      rwa [leading?_append_of_ne_nil htakes.ne_nil other rest]
    | @sign op hop pos input =>
      obtain ⟨e', he', rfl⟩ := readUnary_eq_ok_iff.mp hresult.symm
      rw [reach_cons rfl] at hsize
      obtain ⟨used, rfl, htakes⟩ := ih .signed _ _ _ (by omega) he'
      refine ⟨[⟨.symbol op, pos⟩] ++ used, rfl,
        htakes.prepend (unended_singleton rfl) htakes.covers ?_⟩
      intro other _ hread
      rw [List.singleton_append, parseAt_sign hop]
      exact readUnary_eq_ok_iff.mpr ⟨e', hread, rfl⟩
    | unsigned hplus hminus =>
      obtain ⟨used, rfl, htakes⟩ := ih .power _ _ _ hsize hresult.symm
      refine ⟨used, rfl,
        htakes.congr (avoids_signed_iff.mpr (avoids_power_iff.mp htakes.covers)) ?_⟩
      intro other _ hread
      rw [leading?_append_of_ne_nil htakes.ne_nil rest other] at hplus hminus
      rw [parseAt_unsigned hplus hminus, hread]
    | noBase hbase => simp at hresult
    | @power _ rest' base hbase =>
      obtain ⟨front, rfl, hfront⟩ := ih .atom _ _ _ hsize hbase
      have hlt := hfront.reach_lt
      rcases readPower_eq_ok_iff.mp hresult.symm with
        ⟨hne, rfl, rfl⟩ | ⟨pos, input, e', rfl, he', rfl⟩
      · refine ⟨front, rfl, hfront.congr (avoids_power_iff.mpr hne) ?_⟩
        intro other hother hread
        rw [parseAt_power_of_ok hread, readPower_of_ne]
        rwa [leading?_congr hother]
      · rw [reach_cons rfl] at hlt
        obtain ⟨used, rfl, htakes⟩ := ih .signed _ _ _ (by omega) he'
        refine ⟨(front ++ [⟨.symbol .power, pos⟩]) ++ used, by simp, htakes.prepend
          (List.forall_mem_append.mpr ⟨hfront.unended, unended_singleton rfl⟩)
          (avoids_power_iff.mpr (avoids_signed_iff.mp htakes.covers)) ?_⟩
        intro other _ hread
        have hbase' := hfront.settled (⟨.symbol .power, pos⟩ :: (used ++ other)) rfl
        rw [List.append_assoc, List.singleton_append, parseAt_power_of_ok hbase',
          readPower_of_ok hread]
    | atom => exact (ih .comparison).readAtom stop _ _ _ hsize hresult.symm

/-! ### Statements -/

section Statement

variable {value : Reader}

theorem Advances.readInit (h : Advances size .comparison value) (stop : Nat) (name : String) :
    Advances size .comparison (readInit stop value name) := by
  intro tokens e rest hsize hread
  rcases tokens with _ | ⟨⟨lexeme, pos⟩, input⟩
  · simp [Expr.readInit] at hread
  by_cases hassign : lexeme = .symbol .assign
  · subst hassign
    rw [reach_cons rfl] at hsize
    rcases hvalue : value input with err | ⟨e', rest'⟩
    · simp [Expr.readInit, hvalue] at hread
    obtain ⟨rfl, rfl⟩ : .declare name e' = e ∧ rest' = rest := by
      simpa [Expr.readInit, hvalue] using hread
    obtain ⟨used, rfl, htakes⟩ := h _ _ _ (by omega) hvalue
    refine ⟨[⟨.symbol .assign, pos⟩] ++ used, rfl,
      htakes.prepend (unended_singleton rfl) htakes.covers ?_⟩
    intro other _ hother
    simp [Expr.readInit, hother]
  · cases lexeme <;> simp [Expr.readInit, hassign] at hread

theorem Advances.readDeclaration (h : Advances size .comparison value) (stop : Nat) :
    Advances size .comparison (readDeclaration stop value) := by
  intro tokens e rest hsize hread
  rcases tokens with _ | ⟨⟨lexeme, pos⟩, input⟩
  · simp [Expr.readDeclaration] at hread
  cases lexeme with
  | identifier name =>
    rw [reach_cons rfl] at hsize
    cases hname : isReserved name with
    | true => simp [Expr.readDeclaration, hname] at hread
    | false =>
      have hinit : Expr.readInit stop value name input = .ok (e, rest) := by
        simpa [Expr.readDeclaration, hname] using hread
      obtain ⟨used, rfl, htakes⟩ := h.readInit stop name _ _ _ (by omega) hinit
      refine ⟨[⟨.identifier name, pos⟩] ++ used, rfl,
        htakes.prepend (unended_singleton rfl) htakes.covers ?_⟩
      intro other _ hother
      simpa [Expr.readDeclaration, hname] using hother
  | _ => simp [Expr.readDeclaration] at hread

theorem Advances.readStatement (h : Advances size .comparison value) (stop : Nat) :
    Advances size .comparison (readStatement stop value) := by
  intro tokens e rest hsize hread
  by_cases hlet : ∃ pos input, tokens = ⟨.identifier declareWord, pos⟩ :: input
  · obtain ⟨pos, input, rfl⟩ := hlet
    rw [reach_cons rfl] at hsize
    rw [Expr.readStatement, if_pos rfl] at hread
    obtain ⟨used, rfl, htakes⟩ := h.readDeclaration stop _ _ _ (by omega) hread
    refine ⟨[⟨.identifier declareWord, pos⟩] ++ used, rfl,
      htakes.prepend (unended_singleton rfl) htakes.covers ?_⟩
    intro other _ hother
    rwa [List.singleton_append, Expr.readStatement, if_pos rfl]
  · rw [readStatement_of_ne fun pos input heq => hlet ⟨pos, input, heq⟩] at hread
    obtain ⟨used, rfl, htakes⟩ := h _ _ _ hsize hread
    refine ⟨used, rfl, htakes.congr htakes.covers ?_⟩
    intro other _ hother
    obtain ⟨t, used, rfl⟩ := List.exists_cons_of_ne_nil htakes.ne_nil
    rw [readStatement_of_ne, hother]
    intro pos input heq
    obtain ⟨rfl, -⟩ := List.cons.inj heq
    exact hlet ⟨pos, used ++ rest, rfl⟩

end Statement

theorem advances_parseStatementAt (stop size limit : Nat) :
    Advances size .comparison (parseStatementAt stop size limit) :=
  (advances_parseAt stop size limit .comparison).readStatement stop

end Expr

end Reckon
