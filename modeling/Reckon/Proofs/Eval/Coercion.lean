import Reckon.Proofs.Eval.Comparison

/-!
# Truth values as numbers

A truth value counts as one or zero wherever a number is asked for, and it does so uniformly: beside
a value that is no text no operator tells it from that number, and beside a text only those do that
treat texts as texts (`Value.coercion_uniform`). The reason is the same for every operator: at a
value that is no text it looks through `Value.toNumber` only. So the argument is made once, for any
two values that count as the same number (`Value.CountAlike`).

The same reading shows which operators commute. Sums and products of doubles do, and so does what
acts on words bit by bit. A repetition can be written either way round, and of the outcomes of a
comparison equality is the one that stays when the operands change places.
-/

namespace Reckon

/-! ### Words -/

theorem Int64Range.bitwise_comm {op : Nat → Nat → Nat} (hop : ∀ m n, op m n = op n m) (a b : Int) :
    bitwise op a b = bitwise op b a := by
  rw [bitwise, bitwise, hop]

namespace Value

variable {l r l' r' v : Value}

/-! ### Values that are no texts -/

private theorem add_of_not_isText (hl : l.isText = false) (hr : r.isText = false) :
    add l r = .ok (arith .add l r) := by
  rw [add_eq, hl, hr]
  rfl

private theorem mul_of_not_isText (hl : l.isText = false) (hr : r.isText = false) :
    mul l r = .ok (arith .mul l r) := by
  refine mul_of_not_repetition fun unit count h => ?_
  cases h with
  | textFirst hv => simp [hl] at hv
  | countFirst hv => simp [hr] at hv

private theorem onWords_of_not_isText {op : Symbol} {act : Int → Int → Int} (hl : l.isText = false)
    (hr : r.isText = false) :
    onWords op act l r = .ok (number (.ofInt (act l.toNumber.toInt64 r.toNumber.toInt64))) := by
  rw [onWords, hl, hr]
  rfl

/-! ### Values that count as the same number -/

/-- Two values that are no texts and count as the same number. -/
structure CountAlike (v w : Value) : Prop where
  left : v.isText = false
  right : w.isText = false
  toNumber_eq : v.toNumber = w.toNumber

theorem CountAlike.refl (hv : v.isText = false) : CountAlike v v := ⟨hv, hv, rfl⟩

/-- A truth value counts as one or zero. -/
theorem countAlike_bool (p : Bool) : CountAlike (bool p) (number (if p then .one else .zero)) :=
  ⟨rfl, rfl, rfl⟩

private theorem CountAlike.compare?_left (h : CountAlike l l') (r : Value) :
    l.compare? r = l'.compare? r := by
  rw [compare?_eq (.inl h.left), compare?_eq (.inl h.right), h.left, h.right, h.toNumber_eq]

private theorem CountAlike.compare?_right (h : CountAlike r r') (l : Value) :
    l.compare? r = l.compare? r' := by
  rw [compare?_eq (.inr h.left), compare?_eq (.inr h.right), h.left, h.right, h.toNumber_eq]

/-- The operator does the same between `l` and `r` as between `l'` and `r'`: it gives the same value
or raises the same error. -/
def SameOutcome (op : Symbol) (l r l' r' : Value) : Prop :=
  ∃ apply, binaryOperator? op = some apply ∧ apply l r = apply l' r'

/-- The operators that read texts as numbers. -/
def readingSymbols : List Symbol := [.minus, .slash, .percent, .power]

variable {op : Symbol}

private theorem sameOutcome_of_reading (hop : op ∈ readingSymbols) (hl : l.toNumber = l'.toNumber)
    (hr : r.toNumber = r'.toNumber) : SameOutcome op l r l' r' := by
  have hchecked (act : Binary64 → Binary64 → Except ArithmeticFault Binary64) :
      arithChecked act l r = arithChecked act l' r' := by
    rw [arithChecked, arithChecked, hl, hr]
  cases op with
  | minus =>
    refine ⟨_, rfl, congrArg Except.ok ?_⟩
    rw [arith, arith, hl, hr]
  | slash | percent | power => exact ⟨_, rfl, hchecked _⟩
  | _ => simp [readingSymbols] at hop

private theorem sameOutcome_of_comparison (hop : op ∈ comparisonSymbols)
    (h : l.compare? r = l'.compare? r') : SameOutcome op l r l' r' := by
  have hcomparison (holds : Option Ordering → Bool) :
      comparison holds l r = comparison holds l' r' := by
    rw [comparison, comparison, h]
  cases op with
  | equal | notEqual | greater | less | atLeast | atMost =>
    exact ⟨_, rfl, congrArg Except.ok (hcomparison _)⟩
  | _ => simp [comparisonSymbols] at hop

private theorem sameOutcome_of_words (hop : op ∈ wordSymbols) (hl : CountAlike l l')
    (hr : CountAlike r r') : SameOutcome op l r l' r' := by
  have honWords (symbol : Symbol) (act : Int → Int → Int) :
      onWords symbol act l r = onWords symbol act l' r' := by
    rw [onWords_of_not_isText hl.left hr.left, onWords_of_not_isText hl.right hr.right,
      hl.toNumber_eq, hr.toNumber_eq]
  cases op with
  | ampersand | pipe | caret | shiftLeft | shiftRight => exact ⟨_, rfl, honWords _ _⟩
  | _ => simp [wordSymbols] at hop

/-- **Numbers are what counts.** Among values that are no texts, no operator tells apart two that
count as the same number. -/
theorem CountAlike.sameOutcome (hop : op ∈ binarySymbols) (hl : CountAlike l l')
    (hr : CountAlike r r') : SameOutcome op l r l' r' := by
  cases op with
  | plus =>
    refine ⟨add, rfl, ?_⟩
    rw [add_of_not_isText hl.left hr.left, add_of_not_isText hl.right hr.right, arith, arith,
      hl.toNumber_eq, hr.toNumber_eq]
  | star =>
    refine ⟨mul, rfl, ?_⟩
    rw [mul_of_not_isText hl.left hr.left, mul_of_not_isText hl.right hr.right, arith, arith,
      hl.toNumber_eq, hr.toNumber_eq]
  | minus | slash | percent | power =>
    exact sameOutcome_of_reading (by decide) hl.toNumber_eq hr.toNumber_eq
  | ampersand | pipe | caret | shiftLeft | shiftRight =>
    exact sameOutcome_of_words (by decide) hl hr
  | equal | notEqual | greater | less | atLeast | atMost =>
    refine sameOutcome_of_comparison (by decide) ?_
    rw [hl.compare?_left, hr.compare?_right]
  | _ => simp [binarySymbols] at hop

/-- Beside a text, the operators that read it as a number and those that compare do not tell them
apart either. -/
theorem CountAlike.sameOutcome_beside (h : CountAlike l l') (hop : op ∈ binarySymbols)
    (hv : v.isText = false ∨ op ∈ readingSymbols ∨ op ∈ comparisonSymbols) :
    SameOutcome op l v l' v ∧ SameOutcome op v l v l' := by
  rcases hv with hv | hreads | hcompares
  · exact ⟨h.sameOutcome hop (.refl hv), (CountAlike.refl hv).sameOutcome hop h⟩
  · exact ⟨sameOutcome_of_reading hreads h.toNumber_eq rfl,
      sameOutcome_of_reading hreads rfl h.toNumber_eq⟩
  · exact ⟨sameOutcome_of_comparison hcompares (h.compare?_left v),
      sameOutcome_of_comparison hcompares (h.compare?_right v)⟩

/-- In front of a single value, a truth value is as good as its number. -/
theorem exists_unaryOperator?_bool (hop : op ∈ unarySymbols) (p : Bool) :
    ∃ apply, unaryOperator? op = some apply ∧
      apply (bool p) = apply (number (if p then .one else .zero)) := by
  have h := countAlike_bool p
  cases op with
  | plus => exact ⟨positive, rfl, rfl⟩
  | minus =>
    refine ⟨negate, rfl, ?_⟩
    rw [negate, negate, mul_of_not_isText rfl h.left, mul_of_not_isText rfl h.right, arith, arith,
      h.toNumber_eq]
  | bang =>
    refine ⟨negation, rfl, ?_⟩
    cases p with
    | false => rfl
    | true => decide +kernel
  | _ => simp [unarySymbols] at hop

/-! ### Operands that change places -/

theorem Repetition.symm {unit : String} {count : Binary64} (h : Repetition l r unit count) :
    Repetition r l unit count := by
  cases h with
  | textFirst hv => exact .countFirst hv count
  | countFirst hv => exact .textFirst hv count

theorem arith_comm {act : Binary64 → Binary64 → Binary64} (hact : ∀ x y, act x y = act y x)
    (l r : Value) : arith act l r = arith act r l := by
  rw [arith, arith, hact]

/-- **Products commute**, those of numbers and those that are repetitions. -/
theorem mul_swap (l r : Value) : mul l r = mul r l := by
  by_cases hrepeats : ∃ unit count, Repetition l r unit count
  · obtain ⟨unit, count, h⟩ := hrepeats
    rw [h.mul_eq, h.symm.mul_eq]
  · -- Nor is it a repetition the other way round, so both are products of numbers.
    have hnone : ∀ unit count, ¬Repetition l r unit count :=
      fun unit count h => hrepeats ⟨unit, count, h⟩
    have hnone' : ∀ unit count, ¬Repetition r l unit count :=
      fun unit count h => hnone unit count h.symm
    rw [mul_of_not_repetition hnone, mul_of_not_repetition hnone', arith_comm Binary64.mul_comm]

private theorem add_swap (hl : l.isText = false) (hr : r.isText = false) : add l r = add r l := by
  rw [add_of_not_isText hl hr, add_of_not_isText hr hl, arith_comm Binary64.add_comm]

private theorem onWords_swap {bits : Nat → Nat → Nat} (hbits : ∀ m n, bits m n = bits n m)
    (hl : l.isText = false) (hr : r.isText = false) :
    onWords op (Int64Range.bitwise bits) l r = onWords op (Int64Range.bitwise bits) r l := by
  rw [onWords_of_not_isText hl hr, onWords_of_not_isText hr hl, Int64Range.bitwise_comm hbits]

theorem compare?_eq_some_eq_comm : l.compare? r = some .eq ↔ r.compare? l = some .eq := by
  rw [compare?_eq_some_iff, compare?_eq_some_iff]
  exact ⟨Compares.swap, Compares.swap⟩

private theorem sameOutcome_equality_swap (hop : op ∈ [.equal, .notEqual]) (l r : Value) :
    SameOutcome op l r r l := by
  have hequal : (l.compare? r == some .eq) = (r.compare? l == some .eq) := by
    rw [Bool.eq_iff_iff, beq_iff_eq, beq_iff_eq, compare?_eq_some_eq_comm]
  cases op with
  | equal => exact ⟨_, rfl, congrArg (fun b => Except.ok (bool b)) hequal⟩
  | notEqual => exact ⟨_, rfl, congrArg (fun b => Except.ok (bool !b)) hequal⟩
  | _ => simp at hop

private theorem sameOutcome_bits_swap (hop : op ∈ [.ampersand, .pipe, .caret])
    (hl : l.isText = false) (hr : r.isText = false) : SameOutcome op l r r l := by
  cases op with
  | ampersand => exact ⟨_, rfl, onWords_swap Nat.and_comm hl hr⟩
  | pipe => exact ⟨_, rfl, onWords_swap Nat.or_comm hl hr⟩
  | caret => exact ⟨_, rfl, onWords_swap Nat.xor_comm hl hr⟩
  | _ => simp at hop

/-- **Uniform coercion.** A truth value and its number, one or zero, are the same to every operator
beside a value that is no text, to those that read texts as numbers and those that compare beside
any value, and to the operators in front of a single value. Products commute for all values, sums
and the operators on bits for values that are no texts, and equality is symmetric. -/
theorem coercion_uniform :
    (∀ (p : Bool) (v : Value), ∀ op ∈ binarySymbols,
      v.isText = false ∨ op ∈ [.minus, .slash, .percent, .power] ∨ op ∈ comparisonSymbols →
        SameOutcome op (bool p) v (number (if p then .one else .zero)) v ∧
        SameOutcome op v (bool p) v (number (if p then .one else .zero))) ∧
    (∀ p : Bool, ∀ op ∈ unarySymbols, ∃ apply, unaryOperator? op = some apply ∧
      apply (bool p) = apply (number (if p then .one else .zero))) ∧
    (∀ l r, SameOutcome .star l r r l) ∧
    (∀ l r, l.isText = false → r.isText = false → SameOutcome .plus l r r l) ∧
    (∀ op ∈ [.ampersand, .pipe, .caret], ∀ l r, l.isText = false → r.isText = false →
      SameOutcome op l r r l) ∧
    ∀ op ∈ [.equal, .notEqual], ∀ l r, SameOutcome op l r r l :=
  ⟨fun p _ _ hop hv => (countAlike_bool p).sameOutcome_beside hop hv,
    fun p _ hop => exists_unaryOperator?_bool hop p,
    fun l r => ⟨mul, rfl, mul_swap l r⟩,
    fun _ _ hl hr => ⟨add, rfl, add_swap hl hr⟩,
    fun _ hop _ _ hl hr => sameOutcome_bits_swap hop hl hr,
    fun _ hop l r => sameOutcome_equality_swap hop l r⟩

/-- At a truth value to the left of a text that is read as a number, at the shift of a truth value,
and at the sum of a truth value and a negative infinity. -/
theorem coercion_uniform_mixed :
    SameOutcome .power (bool true) (string "0x") (number .one) (string "0x") ∧
    SameOutcome .shiftLeft (number .nan) (bool false) (number .nan) (number .zero) ∧
    SameOutcome .plus (bool true) (number (.inf true)) (number (.inf true)) (bool true) := by
  obtain ⟨hcounts, -, -, hplus, -⟩ := coercion_uniform
  have hpower := (hcounts true (string "0x") .power (by decide) (.inr (.inl (by decide)))).1
  have hshift := (hcounts false (number .nan) .shiftLeft (by decide) (.inl rfl)).2
  rw [if_pos rfl] at hpower
  rw [if_neg Bool.false_ne_true] at hshift
  exact ⟨hpower, hshift, hplus (bool true) (number (.inf true)) rfl rfl⟩

end Value

end Reckon
