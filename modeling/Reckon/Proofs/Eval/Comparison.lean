import Mathlib.Data.String.Basic
import Reckon.Proofs.Eval.Outcome

/-!
# The order of values

The six comparisons are six questions about one partial order of all values
(`Value.comparisons_consistent`). The order has three parts that do not compare with each other:
numbers with truth values among them, strings, and characters. On each part it is linear, but for
NaN, which stands apart from everything and from itself.

`Value.Compares` says so with the linear orders of extended rationals, strings and characters, and
is what `Value.compare?` decides (`Value.compare?_eq_some_iff`). It has three properties, and the
laws of the comparisons follow from these without another look at kinds: there is one outcome at
most, turning the operands round turns the outcome round, and outcomes that are not `gt` add up.
-/

namespace Reckon

/-! ### Linear orders -/

section LinearOrder

variable {α : Type} [LinearOrder α] {a b c : α} {o o' : Ordering}

private theorem compares_compareOfLessAndEq [DecidableLT α] [DecidableEq α] (a b : α) :
    (compareOfLessAndEq a b).Compares a b := by
  unfold compareOfLessAndEq
  split
  next hlt => exact hlt
  next hle =>
    split
    next heq => exact heq
    next hne => exact lt_of_le_of_ne (not_lt.mp hle) (Ne.symm hne)

/-- Outcomes of a comparison add up, as long as none goes backwards. -/
theorem compares_then (h : o.Compares a b) (h' : o'.Compares b c) (ho : o ≠ .gt)
    (ho' : o' ≠ .gt) : (o.then o').Compares a c := by
  cases o with
  | lt =>
    cases o' with
    | lt => exact lt_trans h h'
    | eq => exact lt_of_lt_of_eq h h'
    | gt => exact absurd rfl ho'
  | eq =>
    obtain rfl : a = b := h
    exact h'
  | gt => exact absurd rfl ho

end LinearOrder

namespace Value

/-! ### Values that compare -/

/-- The number that a number or a truth value counts as, if it is not NaN. -/
def toExtended? (v : Value) : Option (WithBot (WithTop ℚ)) :=
  if v.isText then none else v.toNumber.toExtended?

/-- The order of two values, if they are of the same part: as numbers, as strings or as
characters. -/
inductive Compares : Value → Value → Ordering → Prop where
  | numbers {l r : Value} {p q : WithBot (WithTop ℚ)} {o : Ordering} (hl : l.toExtended? = some p)
      (hr : r.toExtended? = some q) (h : o.Compares p q) : Compares l r o
  | strings {s t : String} {o : Ordering} (h : o.Compares s t) : Compares (string s) (string t) o
  | chars {c d : Char} {o : Ordering} (h : o.Compares c d) : Compares (char c) (char d) o

/-- Both are numbers or truth values, both strings or both characters, and neither is NaN. -/
inductive Comparable : Value → Value → Prop where
  | numbers {l r : Value} (hl : ¬l.isText) (hr : ¬r.isText) (hl' : l ≠ number .nan)
      (hr' : r ≠ number .nan) : Comparable l r
  | strings (s t : String) : Comparable (string s) (string t)
  | chars (c d : Char) : Comparable (char c) (char d)

variable {a b c l r v : Value} {o o' : Ordering} {p q : WithBot (WithTop ℚ)}

private theorem toExtended?_eq_some_iff :
    v.toExtended? = some p ↔ v.isText = false ∧ v.toNumber.toExtended? = some p := by
  simp [toExtended?]

/-- A number or a truth value compares with no text. -/
theorem compare?_eq (h : l.isText = false ∨ r.isText = false) :
    l.compare? r = if l.isText || r.isText then none else l.toNumber.compare? r.toNumber := by
  unfold compare?
  split
  next => simp [isText] at h
  next => simp [isText] at h
  next => rfl

private theorem compare?_of_not_isText (hl : l.isText = false) (hr : r.isText = false) :
    l.compare? r = l.toNumber.compare? r.toNumber := by
  rw [compare?_eq (.inl hl), hl, hr]
  rfl

/-- **What `compare?` decides.** -/
theorem compare?_eq_some_iff : l.compare? r = some o ↔ Compares l r o := by
  constructor
  · intro h
    unfold compare? at h
    split at h
    next s t => exact .strings (Option.some.inj h ▸ compares_compareOfLessAndEq s t)
    next c d => exact .chars (Option.some.inj h ▸ compares_compareOfLessAndEq c d)
    next =>
      split at h
      next => simp at h
      next hplain =>
        rw [Bool.not_eq_true, Bool.or_eq_false_iff] at hplain
        obtain ⟨p, q, hp, hq, ho⟩ := Binary64.compare?_eq_some_iff.mp h
        exact .numbers (toExtended?_eq_some_iff.mpr ⟨hplain.1, hp⟩)
          (toExtended?_eq_some_iff.mpr ⟨hplain.2, hq⟩) ho
  · intro h
    cases h with
    | numbers hl hr h =>
      obtain ⟨hltext, hp⟩ := toExtended?_eq_some_iff.mp hl
      obtain ⟨hrtext, hq⟩ := toExtended?_eq_some_iff.mp hr
      rw [compare?_of_not_isText hltext hrtext]
      exact Binary64.compare?_eq_some_iff.mpr ⟨_, _, hp, hq, h⟩
    | @strings s t _ h => exact congrArg some ((compares_compareOfLessAndEq s t).inj h)
    | @chars c d _ h => exact congrArg some ((compares_compareOfLessAndEq c d).inj h)

theorem Compares.unique (h : Compares l r o) (h' : Compares l r o') : o = o' :=
  Option.some.inj ((compare?_eq_some_iff.mpr h).symm.trans (compare?_eq_some_iff.mpr h'))

theorem Compares.swap (h : Compares l r o) : Compares r l o.swap := by
  cases h with
  | numbers hl hr h => exact .numbers hr hl (Ordering.compares_swap.mpr h)
  | strings h => exact .strings (Ordering.compares_swap.mpr h)
  | chars h => exact .chars (Ordering.compares_swap.mpr h)

theorem compares_swap_iff : Compares r l o.swap ↔ Compares l r o :=
  ⟨fun h => o.swap_swap ▸ h.swap, Compares.swap⟩

/-- **Transitivity.** Two steps that do not go backwards make one that does not, and that one stays
in place only if both do. -/
theorem Compares.trans (h : Compares a b o) (h' : Compares b c o') (ho : o ≠ .gt)
    (ho' : o' ≠ .gt) : Compares a c (o.then o') := by
  cases h with
  | numbers ha hb h =>
    cases h' with
    | numbers hb' hc h' =>
      obtain rfl := Option.some.inj (hb.symm.trans hb')
      exact .numbers ha hc (compares_then h h' ho ho')
    | strings => simp [toExtended?, isText] at hb
    | chars => simp [toExtended?, isText] at hb
  | strings h =>
    cases h' with
    | numbers hb => simp [toExtended?, isText] at hb
    | strings h' => exact .strings (compares_then h h' ho ho')
  | chars h =>
    cases h' with
    | numbers hb => simp [toExtended?, isText] at hb
    | chars h' => exact .chars (compares_then h h' ho ho')

/-! ### When values compare -/

private theorem toNumber_bool_ne_nan (truth : Bool) : (bool truth).toNumber ≠ .nan := by
  cases truth with
  | false => simp [toNumber, Binary64.zero]
  | true =>
    rw [toNumber, if_pos rfl, Binary64.one, Binary64.ofInt, Binary64.ofRatio]
    exact Binary64.nearest_ne_nan _ _ _

private theorem exists_toExtended?_iff :
    (∃ p, v.toExtended? = some p) ↔ ¬v.isText ∧ v ≠ number .nan := by
  have hnan : (∃ p, v.toExtended? = some p) ↔ ¬v.isText ∧ v.toNumber ≠ .nan := by
    simp only [toExtended?_eq_some_iff, exists_and_left, Bool.not_eq_true]
    refine and_congr_right fun _ => ⟨?_, Binary64.exists_toExtended?⟩
    rintro ⟨p, hp⟩ hnan
    simp [hnan, Binary64.toExtended?] at hp
  rw [hnan]
  refine and_congr_right fun htext => ?_
  cases v with
  | number x => simp [toNumber]
  | bool truth => simp [toNumber_bool_ne_nan]
  | _ => simp [isText] at htext

private theorem exists_compares_iff_comparable : (∃ o, Compares l r o) ↔ Comparable l r := by
  constructor
  · rintro ⟨o, h⟩
    cases h with
    | numbers hl hr =>
      obtain ⟨hltext, hlnan⟩ := exists_toExtended?_iff.mp ⟨_, hl⟩
      obtain ⟨hrtext, hrnan⟩ := exists_toExtended?_iff.mp ⟨_, hr⟩
      exact .numbers hltext hrtext hlnan hrnan
    | strings => exact .strings _ _
    | chars => exact .chars _ _
  · intro h
    cases h with
    | numbers hl hr hl' hr' =>
      obtain ⟨p, hp⟩ := exists_toExtended?_iff.mpr ⟨hl, hl'⟩
      obtain ⟨q, hq⟩ := exists_toExtended?_iff.mpr ⟨hr, hr'⟩
      exact ⟨_, .numbers hp hq (cmp_compares p q)⟩
    | strings s t => exact ⟨_, .strings (cmp_compares s t)⟩
    | chars c d => exact ⟨_, .chars (cmp_compares c d)⟩

/-! ### Comparisons -/

/-- The comparison gives the truth value. -/
def Answers (op : Symbol) (l r : Value) (answer : Bool) : Prop :=
  ∃ apply, binaryOperator? op = some apply ∧ apply l r = .ok (bool answer)

/-- The comparison says that it is so. -/
def Holds (op : Symbol) (l r : Value) : Prop := Answers op l r true

private theorem answers_iff {op : Symbol} {holds : Option Ordering → Bool} {answer : Bool}
    (hop : binaryOperator? op = some fun l r => .ok (comparison holds l r)) :
    Answers op l r answer ↔ holds (l.compare? r) = answer := by
  simp [Answers, hop, comparison]

theorem holds_equal_iff : Holds .equal l r ↔ Compares l r .eq := by
  rw [Holds, answers_iff rfl, beq_iff_eq, compare?_eq_some_iff]

theorem holds_less_iff : Holds .less l r ↔ Compares l r .lt := by
  rw [Holds, answers_iff rfl, beq_iff_eq, compare?_eq_some_iff]

theorem holds_greater_iff : Holds .greater l r ↔ Compares l r .gt := by
  rw [Holds, answers_iff rfl, beq_iff_eq, compare?_eq_some_iff]

theorem holds_atMost_iff : Holds .atMost l r ↔ Compares l r .lt ∨ Compares l r .eq := by
  rw [Holds, answers_iff rfl, Bool.or_eq_true, beq_iff_eq, beq_iff_eq, compare?_eq_some_iff,
    compare?_eq_some_iff]

theorem holds_atLeast_iff : Holds .atLeast l r ↔ Compares l r .gt ∨ Compares l r .eq := by
  rw [Holds, answers_iff rfl, Bool.or_eq_true, beq_iff_eq, beq_iff_eq, compare?_eq_some_iff,
    compare?_eq_some_iff]

private theorem exists_answers {op : Symbol} (hop : op ∈ comparisonSymbols) (l r : Value) :
    ∃ answer, Answers op l r answer := by
  cases op with
  | equal | notEqual | greater | less | atLeast | atMost => exact ⟨_, _, rfl, rfl⟩
  | _ => simp [comparisonSymbols] at hop

/-- What the comparisons of any three values have to do with each other. -/
structure Consistent (a b c : Value) : Prop where
  /-- Every comparison has an answer. -/
  answered : ∀ op ∈ comparisonSymbols, ∃ answer, Answers op a b answer
  notEqual_iff : Holds .notEqual a b ↔ ¬Holds .equal a b
  greater_iff : Holds .greater a b ↔ Holds .less b a
  atLeast_iff : Holds .atLeast a b ↔ Holds .atMost b a
  atMost_iff : Holds .atMost a b ↔ Holds .less a b ∨ Holds .equal a b
  /-- At most one of three holds, -/
  less_not_equal : Holds .less a b → ¬Holds .equal a b
  less_not_greater : Holds .less a b → ¬Holds .greater a b
  equal_not_greater : Holds .equal a b → ¬Holds .greater a b
  /-- and one does if the values are of the same part of the order. -/
  decided_iff : Holds .less a b ∨ Holds .equal a b ∨ Holds .greater a b ↔ Comparable a b
  equal_symm : Holds .equal a b → Holds .equal b a
  equal_trans : Holds .equal a b → Holds .equal b c → Holds .equal a c
  less_irrefl : ¬Holds .less a a
  less_trans : Holds .less a b → Holds .less b c → Holds .less a c
  less_of_equal_of_less : Holds .equal a b → Holds .less b c → Holds .less a c
  less_of_less_of_equal : Holds .less a b → Holds .equal b c → Holds .less a c

private theorem exists_compares_iff :
    (∃ o, Compares a b o) ↔ Compares a b .lt ∨ Compares a b .eq ∨ Compares a b .gt := by
  constructor
  · rintro ⟨o, h⟩
    cases o with
    | lt => exact .inl h
    | eq => exact .inr (.inl h)
    | gt => exact .inr (.inr h)
  · rintro (h | h | h) <;> exact ⟨_, h⟩

theorem consistent (a b c : Value) : Consistent a b c where
  answered op hop := exists_answers hop a b
  notEqual_iff := by
    rw [Holds, Holds, answers_iff rfl, answers_iff rfl, bne_iff_ne, beq_iff_eq]
  greater_iff := by
    rw [holds_greater_iff, holds_less_iff]
    exact compares_swap_iff.symm
  atLeast_iff := by
    rw [holds_atLeast_iff, holds_atMost_iff]
    exact or_congr compares_swap_iff.symm compares_swap_iff.symm
  atMost_iff := by rw [holds_atMost_iff, holds_less_iff, holds_equal_iff]
  less_not_equal := by
    rw [holds_less_iff, holds_equal_iff]
    exact fun h h' => nomatch h.unique h'
  less_not_greater := by
    rw [holds_less_iff, holds_greater_iff]
    exact fun h h' => nomatch h.unique h'
  equal_not_greater := by
    rw [holds_equal_iff, holds_greater_iff]
    exact fun h h' => nomatch h.unique h'
  decided_iff := by
    rw [holds_less_iff, holds_equal_iff, holds_greater_iff, ← exists_compares_iff,
      exists_compares_iff_comparable]
  equal_symm := by
    rw [holds_equal_iff, holds_equal_iff]
    exact Compares.swap
  equal_trans := by
    simp only [holds_equal_iff]
    exact fun h h' => h.trans h' (by decide) (by decide)
  less_irrefl := by
    rw [holds_less_iff]
    exact fun h => nomatch h.unique h.swap
  less_trans := by
    simp only [holds_less_iff]
    exact fun h h' => h.trans h' (by decide) (by decide)
  less_of_equal_of_less := by
    simp only [holds_equal_iff, holds_less_iff]
    exact fun h h' => h.trans h' (by decide) (by decide)
  less_of_less_of_equal := by
    simp only [holds_equal_iff, holds_less_iff]
    exact fun h h' => h.trans h' (by decide) (by decide)

/-- Numbers and truth values are ordered by size. -/
theorem holds_less_of_toExtended? (hl : l.toExtended? = some p) (hr : r.toExtended? = some q) :
    Holds .less l r ↔ p < q := by
  rw [holds_less_iff]
  refine ⟨fun h => ?_, fun h => .numbers hl hr h⟩
  exact (cmp_eq_lt_iff p q).mp (h.unique (.numbers hl hr (cmp_compares p q))).symm

/-- Strings are ordered by the first code point at which they differ, and a string comes before
those that it is the start of. -/
theorem holds_less_string_iff (s t : String) :
    Holds .less (string s) (string t) ↔
      List.Lex (fun c d => c.toNat < d.toNat) s.toList t.toList := by
  have hcompares : Compares (string s) (string t) .lt ↔ s < t := by
    refine ⟨fun h => ?_, fun h => .strings h⟩
    cases h with
    | numbers hl => simp [toExtended?, isText] at hl
    | strings h => exact h
  rw [holds_less_iff, hcompares, String.lt_iff_toList_lt]
  exact Iff.rfl

/-- **One partial order.** The six comparisons of any values are consistent with each other. Numbers
and truth values are ordered by size, and strings by their code points. -/
theorem comparisons_consistent :
    (∀ a b c : Value, Consistent a b c) ∧
    (∀ a b p q, toExtended? a = some p → toExtended? b = some q → (Holds .less a b ↔ p < q)) ∧
    ∀ s t : String, Holds .less (string s) (string t) ↔
      List.Lex (fun c d => c.toNat < d.toNat) s.toList t.toList :=
  ⟨consistent, fun _ _ _ _ => holds_less_of_toExtended?, holds_less_string_iff⟩

/-- At a truth value and infinity, at NaN and itself, and at two strings of which the first has the
greater length and the lesser code point. -/
theorem comparisons_consistent_mixed :
    Holds .less (bool false) (number (.inf false)) ∧
    ¬Holds .equal (number .nan) (number .nan) ∧
    Holds .less (string "Za") (string "a") := by
  obtain ⟨hall, hnumbers, hstrings⟩ := comparisons_consistent
  refine ⟨(hnumbers _ _ _ _ rfl rfl).mpr ?_, fun h => ?_, (hstrings _ _).mpr (.rel (by decide))⟩
  · exact WithBot.coe_lt_coe.mpr (WithTop.coe_lt_top _)
  · cases (hall (number .nan) (number .nan) (number .nan)).decided_iff.mp (.inr (.inl h)) with
    | numbers _ _ hnan => exact hnan rfl

end Value

end Reckon
