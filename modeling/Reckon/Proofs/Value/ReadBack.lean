import Reckon.Eval.Basic
import Reckon.Proofs.Binary64.Rounding
import Reckon.Proofs.Expr.Printer
import Reckon.Proofs.Token.Literal

/-!
# Printed values read back

The literal text of a value is source text for it: lexed, parsed and evaluated it gives the value
again, and no binding changes on the way (`Value.literal_reads_back`).

A value is written as one token where that is possible. The sign of a negative number is an operator
of its own, so what is read there is a minus in front of the magnitude, and the product with minus
one turns the sign back. `Value.source` is the expression that comes out of reading; each stage is
settled against it.
-/

namespace Reckon

namespace Binary64

/-! ### Signs -/

theorem ofInt_neg_one : ofInt (-1) = finite true quantaPerOne representable_quantaPerOne := by
  rw [← nearest_one]
  simp [ofInt, ofRatio]

/-- The product with minus one flips the sign, also of zeros and infinities. -/
private theorem ofInt_neg_one_mul (x : Binary64) : mul (ofInt (-1)) x = neg x := by
  rw [ofInt_neg_one]
  cases x with
  | nan => rfl
  | inf s => simp [mul, neg, Nat.ne_of_gt quantaPerOne_pos]
  | finite s n h =>
    rw [mul, Nat.mul_comm, nearest_mul_left _ h quantaPerOne_pos, Bool.true_xor, neg]

/-- The display form of a finite double is its sign and a numeral for its magnitude. -/
theorem exists_displayChars (s : Bool) (n : Nat) (h : Representable n) :
    ∃ text, (finite s n h).displayChars = signText s ++ text ∧
      Token.Spells text (finite false n h) := by
  by_cases hwhole : n % quantaPerOne = 0
  · refine ⟨Nat.toDigits 10 (n / quantaPerOne), by rw [displayChars, if_pos hwhole], ?_⟩
    have hvalue : ofDecimal false (n / quantaPerOne) 0 = finite false n h := by
      have hscale : n / quantaPerOne * quantaPerOne = n :=
        Nat.div_mul_cancel (Nat.dvd_of_mod_eq_zero hwhole)
      simp [ofDecimal, tenPow, ofRatio, hscale, nearest_one false h]
    rw [← hvalue]
    exact Token.spells_toDigits _
  · refine ⟨(Decimal.shortest n h).positional, by rw [displayChars, if_neg hwhole], ?_⟩
    rw [← Decimal.readsAs_iff.mp Decimal.readsAs_shortest]
    exact Token.spells_positional _

end Binary64

namespace Value

/-! ### The three stages -/

/-- The expression that the literal text of a value is read as. -/
def source : Value → Expr
  | number (.inf true) => .unary .minus (.literal (number (.inf false)))
  | number (.finite true n h) => .unary .minus (.literal (number (.finite false n h)))
  | v => .literal v

/-- A text lexes to tokens for `e` and an end marker. -/
def LexesTo (cs : List Char) (e : Expr) : Prop :=
  ∃ body stop, Token.lexFrom 0 cs = .ok (body ++ [⟨.endOfInput, stop⟩]) ∧
    body.map Token.lexeme = e.write

private theorem lexesTo_number (x : Binary64) : LexesTo x.displayChars (number x).source := by
  rcases x with _ | ⟨_ | _⟩ | ⟨_ | _, n, h⟩
  · exact ⟨[⟨.identifier "NaN", 0⟩], _, Token.lexFrom_of_scan (by decide) rfl 0, rfl⟩
  · exact ⟨[⟨.identifier "inf", 0⟩], _, Token.lexFrom_of_scan (by decide) rfl 0, rfl⟩
  · have hword : Token.lexFrom 1 "inf".toList = .ok [⟨.identifier "inf", 1⟩, ⟨.endOfInput, 4⟩] :=
      Token.lexFrom_of_scan (by decide) rfl 1
    exact ⟨[⟨.symbol .minus, 0⟩, ⟨.identifier "inf", 1⟩], _, Token.lexFrom_minus hword, rfl⟩
  · obtain ⟨text, htext, hspells⟩ := Binary64.exists_displayChars false n h
    rw [htext]
    exact ⟨[⟨.number _, 0⟩], _, Token.lexFrom_spells hspells 0, rfl⟩
  · obtain ⟨text, htext, hspells⟩ := Binary64.exists_displayChars true n h
    rw [htext]
    exact ⟨[⟨.symbol .minus, 0⟩, ⟨.number _, 1⟩], _,
      Token.lexFrom_minus (Token.lexFrom_spells hspells 1), rfl⟩

/-- The literal text of a value lexes to its source expression. -/
theorem lexesTo_literal (v : Value) : LexesTo v.literal.toList v.source := by
  cases v with
  | number x =>
    have htext : (number x).literal.toList = x.displayChars := String.toList_ofList
    rw [htext]
    exact lexesTo_number x
  | bool b =>
    cases b
    · exact ⟨[⟨.identifier "false", 0⟩], _, Token.lexFrom_of_scan (by decide) rfl 0, rfl⟩
    · exact ⟨[⟨.identifier "true", 0⟩], _, Token.lexFrom_of_scan (by decide) rfl 0, rfl⟩
  | string s =>
    rw [literal, delimited, String.toList_ofList]
    obtain ⟨stop, hlex⟩ := Token.lexFrom_string s.toList 0
    rw [String.ofList_toList] at hlex
    exact ⟨[⟨.string s, 0⟩], stop, hlex, rfl⟩
  | char c =>
    rw [literal, delimited, String.toList_ofList]
    obtain ⟨stop, hlex⟩ := Token.lexFrom_char c 0
    exact ⟨[⟨.char c, 0⟩], stop, hlex, rfl⟩

/-- Source expressions are shallow enough to be read whatever the value. -/
private theorem isStatement_source (v : Value) :
    v.source.isStatement ∧ v.source.nestingAt 0 ≤ 11 := by
  rcases v with (_ | ⟨_ | _⟩ | ⟨_ | _, n, h⟩) | b | s | c
  all_goals exact ⟨rfl, Nat.le_of_ble_eq_true rfl⟩

theorem negate_number (x : Binary64) : negate (number x) = .ok (number x.neg) := by
  rw [negate, ← Binary64.ofInt_neg_one_mul]
  rfl

/-- The source expression of a value has that value, and leaves the scope alone. It is at most two
levels deep. -/
theorem evaluate_source_add_two (v : Value) (limit : Nat) (scope : Scope) :
    v.source.evaluate (limit + 2) scope = (.ok v, scope) := by
  have hliteral (limit : Nat) (v : Value) :
      (Expr.literal v).evaluate (limit + 1) scope = (.ok v, scope) := rfl
  have hminus (x : Binary64) : (Expr.unary .minus (.literal (number x))).evaluate
      (limit + 2) scope = (.ok (number x.neg), scope) := by
    rw [← negate_number]
    rfl
  rcases v with (_ | ⟨_ | _⟩ | ⟨_ | _, n, h⟩) | b | s | c
  case number.inf.true => exact hminus (.inf false)
  case number.finite.true => exact hminus (.finite false n h)
  all_goals exact hliteral _ _

/-- **Printed values read back.** The literal text of a value, lexed, parsed and evaluated in any
scope, gives the value again and leaves the scope as it was. Eleven levels are enough to read it and
two to evaluate it. -/
theorem literal_reads_back (v : Value) (scope : Scope) :
    ∃ tokens e, Token.lex v.literal = .ok tokens ∧ Expr.parse tokens = .ok e ∧
      e.evaluate Expr.nestingLimit scope = (.ok v, scope) ∧
      ∀ k, Expr.parseWithin (k + 11) tokens = .ok e ∧
        e.evaluate (k + 2) scope = (.ok v, scope) := by
  obtain ⟨body, stop, hlex, hbody⟩ := v.lexesTo_literal
  obtain ⟨hstatement, hnesting⟩ := v.isStatement_source
  have hparse (k : Nat) :
      Expr.parseWithin (k + 11) (body ++ [⟨.endOfInput, stop⟩]) = .ok v.source :=
    (Expr.parseWithin_write hstatement hbody stop _).trans (if_pos (Nat.le_add_left_of_le hnesting))
  -- The usual limit of a thousand levels, counted from eleven and from two.
  exact ⟨_, v.source, hlex, hparse 989, v.evaluate_source_add_two 998 scope,
    fun k => ⟨hparse k, v.evaluate_source_add_two k scope⟩⟩

end Value

end Reckon
