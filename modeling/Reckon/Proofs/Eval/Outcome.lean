import Reckon.Proofs.Binary64.Guarded
import Reckon.Proofs.Binary64.Rational
import Reckon.Proofs.Value.ReadBack

/-!
# Outcomes of operators

When an operator fails, with which error, and what kind of value it gives when it does not
(`Value.operators_meet_outcomes`).

The definition of each operator looks at the kinds of its operands case by case. The outcome is said
here the other way round: `Value.BinaryFault` lists the few ways in which an operator between
operands can fail, for all operators and all operands together, and `Value.BinaryResult` the kinds
of results. Both speak about a repetition in terms of the number of times (`Binary64.toRat?`) and
not about how that number is represented.
-/

namespace Reckon

namespace Value

/-! ### Faults and results -/

/-- The symbols with a meaning between operands. -/
def binarySymbols : List Symbol := [
  .plus, .minus, .star, .slash, .percent, .power,
  .ampersand, .pipe, .caret, .shiftLeft, .shiftRight,
  .equal, .notEqual, .greater, .less, .atLeast, .atMost]

/-- The symbols with a meaning in front of an operand. -/
def unarySymbols : List Symbol := [.plus, .minus, .bang]

/-- The operators on 64-bit words. -/
def wordSymbols : List Symbol := [.ampersand, .pipe, .caret, .shiftLeft, .shiftRight]

/-- The operators that answer a question. -/
def comparisonSymbols : List Symbol := [.equal, .notEqual, .greater, .less, .atLeast, .atMost]

/-- A text and a number that says how often it is to be repeated, in either order. -/
inductive Repetition : Value → Value → String → Binary64 → Prop where
  | textFirst {v : Value} (hv : v.isText) (count : Binary64) :
      Repetition v (number count) v.display count
  | countFirst {v : Value} (hv : v.isText) (count : Binary64) :
      Repetition (number count) v v.display count

/-- The errors that operators between `l` and `r` have to raise. -/
inductive BinaryFault (l r : Value) : Symbol → EvalError → Prop where
  /-- A text has no bits. -/
  | words {op : Symbol} (hop : op ∈ wordSymbols) (htext : l.isText ∨ r.isText) :
      BinaryFault l r op (.unsupportedOperands op l.kind r.kind)
  /-- The number of times is not a natural number. -/
  | count {unit : String} {count : Binary64} (h : Repetition l r unit count)
      (hcount : ∀ k : ℕ, count.toRat? ≠ some (k : ℚ)) :
      BinaryFault l r .star (.badRepeatCount count)
  /-- The repeated text is too long. An empty one never is. -/
  | longRepetition {unit : String} {count : Binary64} {k : ℕ} (h : Repetition l r unit count)
      (hcount : count.toRat? = some (k : ℚ)) (hlong : 2 ^ 24 < unit.length * k) :
      BinaryFault l r .star (.textTooLong (unit.length * k))
  /-- The two texts together are too long. -/
  | longConcatenation (htext : l.isText ∨ r.isText)
      (hlong : 2 ^ 24 < l.display.length + r.display.length) :
      BinaryFault l r .plus (.textTooLong (l.display.length + r.display.length))

/-- What operators between `l` and `r` give if they do not fail. -/
inductive BinaryResult (l r : Value) : Symbol → Value → Prop where
  | comparison {op : Symbol} (hop : op ∈ comparisonSymbols) (b : Bool) :
      BinaryResult l r op (bool b)
  | concatenation (htext : l.isText ∨ r.isText) :
      BinaryResult l r .plus (string (l.display ++ r.display))
  | repetition {unit : String} {count : Binary64} {k : ℕ} (h : Repetition l r unit count)
      (hcount : count.toRat? = some (k : ℚ)) :
      BinaryResult l r .star (string (String.join (List.replicate k unit)))
  /-- In every other case the result is a number. -/
  | number {op : Symbol} (hop : op ∉ comparisonSymbols)
      (hplus : op = .plus → ¬(l.isText ∨ r.isText))
      (hstar : op = .star → ∀ unit count, ¬Repetition l r unit count) (x : Binary64) :
      BinaryResult l r op (number x)

/-- The errors that operators in front of `v` have to raise: those of the product with minus one for
the minus, and for the others one that names the operator and the kind. -/
inductive UnaryFault (v : Value) : Symbol → EvalError → Prop where
  | unsupported {op : Symbol} (hop : op = .plus ∨ op = .bang) (htext : v.isText) :
      UnaryFault v op (.unsupportedOperand op v.kind)
  | minus (htext : v.isText) : UnaryFault v .minus (.badRepeatCount (.ofInt (-1)))

/-- What operators in front of a value give if they do not fail. -/
inductive UnaryResult : Symbol → Value → Prop where
  | number {op : Symbol} (hop : op = .plus ∨ op = .minus) (x : Binary64) :
      UnaryResult op (number x)
  | bang (b : Bool) : UnaryResult .bang (bool b)

/-- An operator's outcome is one of the given errors exactly if there is one, and else one of the
given results. -/
def Meets (outcome : Except EvalError Value) (fault : EvalError → Prop) (result : Value → Prop) :
    Prop :=
  (∀ err, outcome = .error err ↔ fault err) ∧ ∀ v, outcome = .ok v → result v

variable {fault : EvalError → Prop} {result : Value → Prop}

theorem Meets.error {err : EvalError} (herr : fault err)
    (hunique : ∀ err', fault err' → err' = err) : Meets (.error err) fault result := by
  refine ⟨fun err' => ⟨?_, ?_⟩, fun v h => by simp at h⟩
  · intro h
    rwa [← Except.error.inj h]
  · intro h
    rw [hunique err' h]

theorem Meets.ok {v : Value} (hv : result v) (hnone : ∀ err, ¬fault err) :
    Meets (.ok v) fault result := by
  refine ⟨fun err => ⟨fun h => by simp at h, fun h => absurd h (hnone err)⟩, ?_⟩
  intro v' h
  rwa [← Except.ok.inj h]

/-! ### Repetition -/

variable {l r : Value} {unit unit' : String} {count count' : Binary64}

theorem Repetition.unique (h : Repetition l r unit count) (h' : Repetition l r unit' count') :
    unit = unit' ∧ count = count' := by
  cases h with
  | textFirst hv =>
    cases h' with
    | textFirst => exact ⟨rfl, rfl⟩
    | countFirst hv' => simp [isText] at hv'
  | countFirst hv =>
    cases h' with
    | textFirst hv' => simp [isText] at hv'
    | countFirst => exact ⟨rfl, rfl⟩

/-- A number is repeated by nothing and repeats only texts. -/
private theorem not_repetition_number (hr : ¬r.isText) (x : Binary64) (unit : String)
    (count : Binary64) : ¬Repetition (number x) r unit count := by
  intro h
  cases h with
  | textFirst hv => simp [isText] at hv
  | countFirst hv => exact hr hv

theorem Repetition.mul_eq (h : Repetition l r unit count) : mul l r = repeatText unit count := by
  rw [Value.mul_eq]
  cases h with
  | textFirst hv =>
    cases l with
    | string s => rfl
    | char c => rfl
    | _ => simp [isText] at hv
  | countFirst hv =>
    cases r with
    | string s => rfl
    | char c => rfl
    | _ => simp [isText] at hv

theorem mul_of_not_repetition (h : ∀ unit count, ¬Repetition l r unit count) :
    mul l r = .ok (arith .mul l r) := by
  rw [mul_eq]
  split
  · exact absurd (.textFirst rfl _) (h _ _)
  · exact absurd (.countFirst rfl _) (h _ _)
  · exact absurd (.textFirst rfl _) (h _ _)
  · exact absurd (.countFirst rfl _) (h _ _)
  · rfl

theorem copies_eq_join (unit : String) (k : Nat) :
    copies unit k = String.join (List.replicate k unit) := by
  induction k with
  | zero => rfl
  | succ k ih =>
    rw [copies_succ, ih, List.replicate_succ', String.join_append]
    rfl

/-- A text is repeated as often as the count says, unless that makes it too long. -/
theorem repeatText_of_count {k : Nat} (h : count.toRat? = some (k : ℚ)) :
    repeatText unit count =
      if textLimit < unit.length * k then .error (.textTooLong (unit.length * k))
      else .ok (string (String.join (List.replicate k unit))) := by
  obtain ⟨s, n, hn, rfl, hwhole, hsign⟩ := Binary64.toRat?_eq_natCast_iff.mp h
  have hcount : ¬(n % quantaPerOne ≠ 0 ∨ (s = true ∧ n ≠ 0)) := by
    rintro (hrest | ⟨hs, hne⟩)
    · exact hrest (by rw [hwhole, Nat.mul_mod_left])
    · exact hne (hsign hs)
  have htimes : n / quantaPerOne = k := by
    rw [hwhole, Nat.mul_div_cancel k Binary64.quantaPerOne_pos]
  simp only [repeatText, if_neg hcount, htimes, ← copies_eq_join]
  by_cases hempty : unit = ""
  · subst hempty
    have hcopies : copies "" k = "" := by
      rw [← String.length_eq_zero_iff, length_copies]
      exact Nat.zero_mul k
    simp [hcopies]
  · rw [if_neg hempty]

/-- Any other count is refused, whatever the text. -/
private theorem repeatText_of_not_count (h : ∀ k : ℕ, count.toRat? ≠ some (k : ℚ)) :
    repeatText unit count = .error (.badRepeatCount count) := by
  cases count with
  | finite s n hn =>
    have hcount : n % quantaPerOne ≠ 0 ∨ (s = true ∧ n ≠ 0) := by
      by_contra hcon
      rw [not_or, not_not, not_and, not_not] at hcon
      refine h (n / quantaPerOne) (Binary64.toRat?_eq_natCast_iff.mpr ⟨s, n, hn, rfl, ?_, hcon.2⟩)
      exact (Nat.div_mul_cancel (Nat.dvd_of_mod_eq_zero hcon.1)).symm
    rw [repeatText, if_pos hcount]
  | _ => rfl

/-! ### Operators between operands -/

/-- Only bitwise operators, `*` and `+` have faults. -/
theorem not_binaryFault {op : Symbol} (hword : op ∉ wordSymbols) (hstar : op ≠ .star)
    (hplus : op ≠ .plus) (err : EvalError) : ¬BinaryFault l r op err := by
  intro h
  cases h with
  | words hop => exact hword hop
  | count => exact hstar rfl
  | longRepetition => exact hstar rfl
  | longConcatenation => exact hplus rfl

private theorem meets_mul (l r : Value) :
    Meets (mul l r) (BinaryFault l r .star) (BinaryResult l r .star) := by
  by_cases hrepeats : ∃ unit count, Repetition l r unit count
  · obtain ⟨unit, count, h⟩ := hrepeats
    rw [h.mul_eq]
    by_cases hcount : ∃ k : ℕ, count.toRat? = some (k : ℚ)
    · obtain ⟨k, hk⟩ := hcount
      have honly : ∀ err, BinaryFault l r .star err →
          2 ^ 24 < unit.length * k ∧ err = .textTooLong (unit.length * k) := by
        intro err herr
        cases herr with
        | words hop => simp [wordSymbols] at hop
        | count h' hcount' =>
          obtain ⟨-, rfl⟩ := h.unique h'
          exact absurd hk (hcount' k)
        | @longRepetition _ _ k' h' hcount' hlong =>
          obtain ⟨rfl, rfl⟩ := h.unique h'
          obtain rfl : k = k' := by simpa [hk] using hcount'
          exact ⟨hlong, rfl⟩
      rw [repeatText_of_count hk]
      split
      next hlong => exact .error (.longRepetition h hk hlong) fun err herr => (honly err herr).2
      next hshort =>
        exact .ok (.repetition h hk) fun err herr => hshort (honly err herr).1
    · have hcount' : ∀ k : ℕ, count.toRat? ≠ some (k : ℚ) := fun k hk => hcount ⟨k, hk⟩
      rw [repeatText_of_not_count hcount']
      refine .error (.count h hcount') ?_
      intro err herr
      cases herr with
      | words hop => simp [wordSymbols] at hop
      | count h' => rw [(h.unique h').2]
      | longRepetition h' hk =>
        obtain ⟨-, rfl⟩ := h.unique h'
        exact absurd hk (hcount' _)
  · have hnone : ∀ unit count, ¬Repetition l r unit count :=
      fun unit count h => hrepeats ⟨unit, count, h⟩
    rw [mul_of_not_repetition hnone]
    refine .ok (.number (by decide) (by simp) (fun _ => hnone) _) ?_
    intro err herr
    cases herr with
    | words hop => simp [wordSymbols] at hop
    | count h => exact hnone _ _ h
    | longRepetition h => exact hnone _ _ h

private theorem meets_add (l r : Value) :
    Meets (add l r) (BinaryFault l r .plus) (BinaryResult l r .plus) := by
  have honly : ∀ err, BinaryFault l r .plus err →
      (l.isText ∨ r.isText) ∧ 2 ^ 24 < l.display.length + r.display.length ∧
        err = .textTooLong (l.display.length + r.display.length) := by
    intro err herr
    cases herr with
    | words hop => simp [wordSymbols] at hop
    | longConcatenation htext hlong => exact ⟨htext, hlong, rfl⟩
  rw [add_eq]
  split
  next htext =>
    have htext : l.isText ∨ r.isText := by simpa using htext
    unfold concat
    dsimp only
    split
    next hlong =>
      exact .error (.longConcatenation htext hlong) fun err herr => (honly err herr).2.2
    next hshort => exact .ok (.concatenation htext) fun err herr => hshort (honly err herr).2.1
  next hplain =>
    have hplain : ¬(l.isText ∨ r.isText) := by simpa using hplain
    exact .ok (.number (by decide) (fun _ => hplain) (by simp) _)
      fun err herr => hplain (honly err herr).1

private theorem meets_onWords {op : Symbol} (hop : op ∈ wordSymbols) (act : Int → Int → Int)
    (l r : Value) :
    Meets (onWords op act l r) (BinaryFault l r op) (BinaryResult l r op) := by
  have hne : op ≠ .star ∧ op ≠ .plus ∧ op ∉ comparisonSymbols := by
    revert hop op
    decide
  have honly : ∀ err, BinaryFault l r op err →
      (l.isText ∨ r.isText) ∧ err = .unsupportedOperands op l.kind r.kind := by
    intro err herr
    cases herr with
    | words _ htext => exact ⟨htext, rfl⟩
    | count => exact absurd rfl hne.1
    | longRepetition => exact absurd rfl hne.1
    | longConcatenation => exact absurd rfl hne.2.1
  unfold onWords
  split
  next htext =>
    exact .error (.words hop (by simpa using htext)) fun err herr => (honly err herr).2
  next hplain =>
    exact .ok (.number hne.2.2 (fun h => absurd h hne.2.1) (fun h => absurd h hne.1) _)
      fun err herr => hplain (by simpa using (honly err herr).1)

/-- The other arithmetic operators give a number whatever the operands. -/
private theorem meets_number {op : Symbol} (hop : op ∈ [.minus, .slash, .percent, .power])
    (x : Binary64)
    (l r : Value) : Meets (.ok (number x)) (BinaryFault l r op) (BinaryResult l r op) := by
  have hne : op ∉ wordSymbols ∧ op ≠ .star ∧ op ≠ .plus ∧ op ∉ comparisonSymbols := by
    revert hop op
    decide
  obtain ⟨hword, hstar, hplus, hcomparison⟩ := hne
  exact .ok (.number hcomparison (fun h => absurd h hplus) (fun h => absurd h hstar) x)
    (not_binaryFault hword hstar hplus)

/-- That holds of those the platform may refuse as well, as far as it is never left at that. -/
private theorem meets_arithChecked {op : Symbol} (hop : op ∈ [.minus, .slash, .percent, .power])
    {act : Binary64 → Binary64 → Except ArithmeticFault Binary64}
    (hact : ∀ x y, ∃ z, act x y = .ok z) (l r : Value) :
    Meets (arithChecked act l r) (BinaryFault l r op) (BinaryResult l r op) := by
  obtain ⟨z, hz⟩ := hact l.toNumber r.toNumber
  rw [arithChecked_of_ok hz]
  exact meets_number hop z l r

private theorem meets_comparison {op : Symbol} (hop : op ∈ comparisonSymbols)
    (holds : Option Ordering → Bool) (l r : Value) :
    Meets (.ok (comparison holds l r)) (BinaryFault l r op) (BinaryResult l r op) := by
  have hne : op ∉ wordSymbols ∧ op ≠ .star ∧ op ≠ .plus := by
    revert hop op
    decide
  exact .ok (.comparison hop _) (not_binaryFault hne.1 hne.2.1 hne.2.2)

/-- **Operators between operands.** Each symbol that has a meaning there fails and succeeds as
listed. -/
theorem exists_binaryOperator? {op : Symbol} (hop : op ∈ binarySymbols) :
    ∃ apply, binaryOperator? op = some apply ∧
      ∀ l r, Meets (apply l r) (BinaryFault l r op) (BinaryResult l r op) := by
  cases op with
  | plus => exact ⟨_, rfl, meets_add⟩
  | star => exact ⟨_, rfl, meets_mul⟩
  | minus => exact ⟨_, rfl, fun l r => meets_number (by decide) _ l r⟩
  | slash => exact ⟨_, rfl, meets_arithChecked (by decide) Binary64.exists_div⟩
  | percent => exact ⟨_, rfl, meets_arithChecked (by decide) Binary64.exists_rem⟩
  | power => exact ⟨_, rfl, meets_arithChecked (by decide) Binary64.exists_pow⟩
  | ampersand | pipe | caret | shiftLeft | shiftRight => exact ⟨_, rfl, meets_onWords (by decide) _⟩
  | equal | notEqual | greater | less | atLeast | atMost =>
    exact ⟨_, rfl, meets_comparison (by decide) _⟩
  | _ => simp [binarySymbols] at hop

/-! ### Operators in front of an operand -/

private theorem toRat?_ofInt_neg_one_ne (k : ℕ) : (Binary64.ofInt (-1)).toRat? ≠ some (k : ℚ) := by
  intro h
  obtain ⟨s, n, hn, heq, -, hsign⟩ := Binary64.toRat?_eq_natCast_iff.mp h
  rw [Binary64.ofInt_neg_one, Binary64.finite.injEq] at heq
  obtain ⟨rfl, rfl⟩ := heq
  exact Binary64.quantaPerOne_pos.ne' (hsign rfl)

/-- But for the minus there is one fault, and only with texts. -/
private theorem UnaryFault.unsupported_of_ne {v : Value} {op : Symbol} {err : EvalError}
    (h : UnaryFault v op err) (hop : op ≠ .minus) :
    v.isText ∧ err = .unsupportedOperand op v.kind := by
  cases h with
  | unsupported _ htext => exact ⟨htext, rfl⟩
  | minus => exact absurd rfl hop

private theorem meets_positive (v : Value) :
    Meets (positive v) (UnaryFault v .plus) (UnaryResult .plus) := by
  unfold positive
  split
  next htext =>
    exact .error (.unsupported (.inl rfl) htext) fun _ h => (h.unsupported_of_ne (by decide)).2
  next hplain =>
    exact .ok (.number (.inl rfl) _) fun _ h => hplain (h.unsupported_of_ne (by decide)).1

private theorem meets_negation (v : Value) :
    Meets (negation v) (UnaryFault v .bang) (UnaryResult .bang) := by
  have hplain (b : Bool) (hv : v.isText = false) :
      Meets (.ok (bool b)) (UnaryFault v .bang) (UnaryResult .bang) :=
    .ok (.bang b) fun _ h => by simpa [hv] using (h.unsupported_of_ne (by decide)).1
  have htext (hv : v.isText) : Meets (.error (.unsupportedOperand .bang v.kind))
      (UnaryFault v .bang) (UnaryResult .bang) :=
    .error (.unsupported (.inr rfl) hv) fun _ h => (h.unsupported_of_ne (by decide)).2
  cases v with
  | number x => exact hplain _ rfl
  | bool b => exact hplain _ rfl
  | string s => exact htext rfl
  | char c => exact htext rfl

/-- The minus is a product, and minus one is no number of times. -/
private theorem meets_negate (v : Value) :
    Meets (negate v) (UnaryFault v .minus) (UnaryResult .minus) := by
  have honly : ∀ err, UnaryFault v .minus err → v.isText ∧ err = .badRepeatCount (.ofInt (-1)) := by
    intro err herr
    cases herr with
    | unsupported hop => simp at hop
    | minus htext => exact ⟨htext, rfl⟩
  by_cases htext : v.isText
  · have hrepeats : Repetition (number (.ofInt (-1))) v v.display (.ofInt (-1)) :=
      .countFirst htext _
    rw [negate, hrepeats.mul_eq, repeatText_of_not_count toRat?_ofInt_neg_one_ne]
    exact .error (.minus htext) fun err herr => (honly err herr).2
  · rw [negate, mul_of_not_repetition (not_repetition_number htext _)]
    exact .ok (.number (.inr rfl) _) fun err herr => htext (honly err herr).1

/-- **Operators in front of an operand.** -/
theorem exists_unaryOperator? {op : Symbol} (hop : op ∈ unarySymbols) :
    ∃ apply, unaryOperator? op = some apply ∧
      ∀ v, Meets (apply v) (UnaryFault v op) (UnaryResult op) := by
  cases op with
  | plus => exact ⟨_, rfl, meets_positive⟩
  | minus => exact ⟨_, rfl, meets_negate⟩
  | bang => exact ⟨_, rfl, meets_negation⟩
  | _ => simp [unarySymbols] at hop

/-- **Operators fail exactly when they should.** Each of the seventeen operators between operands
and each of the three in front of one, applied to any values, raises an error exactly if
`BinaryFault` or `UnaryFault` has one for these values, and that one; otherwise it gives a value as
listed in `BinaryResult` or `UnaryResult`. -/
theorem operators_meet_outcomes :
    (∀ op ∈ binarySymbols, ∃ apply, binaryOperator? op = some apply ∧
      ∀ l r, Meets (apply l r) (BinaryFault l r op) (BinaryResult l r op)) ∧
    ∀ op ∈ unarySymbols, ∃ apply, unaryOperator? op = some apply ∧
      ∀ v, Meets (apply v) (UnaryFault v op) (UnaryResult op) :=
  ⟨fun _ => exists_binaryOperator?, fun _ => exists_unaryOperator?⟩

/-- At a text of greatest length with a truth value behind it, at a number of times that is none,
and at a minus in front of an empty text. -/
theorem operators_meet_outcomes_texts :
    let long := string (copies "a" (2 ^ 24))
    add long (bool true) = .error (.textTooLong (2 ^ 24 + 4)) ∧
    mul (number .nan) (char 'x') = .error (.badRepeatCount .nan) ∧
    negate (string "") = .error (.badRepeatCount (.ofInt (-1))) := by
  intro long
  obtain ⟨hbinary, hunary⟩ := operators_meet_outcomes
  obtain ⟨plus, hplus, hadd⟩ := hbinary .plus (by decide)
  obtain ⟨star, hstar, hmul⟩ := hbinary .star (by decide)
  obtain ⟨minus, hminus, hnegate⟩ := hunary .minus (by decide)
  obtain rfl : add = plus := Option.some.inj hplus
  obtain rfl : mul = star := Option.some.inj hstar
  obtain rfl : negate = minus := Option.some.inj hminus
  have hlength : long.display.length + (bool true).display.length = 2 ^ 24 + 4 := by
    have hcopies : long.display.length = "a".length * 2 ^ 24 := length_copies "a" (2 ^ 24)
    rw [hcopies]
    rfl
  refine ⟨((hadd _ _).1 _).mpr ?_, ((hmul _ _).1 _).mpr ?_, ((hnegate _).1 _).mpr (.minus rfl)⟩
  · rw [← hlength]
    exact .longConcatenation (.inl rfl) (by rw [hlength]; decide)
  · exact .count (.countFirst rfl _) fun k h => by simp [Binary64.toRat?] at h

end Value

end Reckon
