import Reckon.Proofs.Binary64.Whole
import Reckon.Proofs.Eval.Outcome

/-!
# The algebra of texts

Between values of any kind `+` is not associative: `1 + 2 + "a"` and `1 + (2 + "a")` differ. With a
text in the middle both sums join display forms, and then it is, the greatest length included: a
part that is too long makes the whole too long, so it does not matter at which part the length is
looked at. Repetition goes with that, `s * m + s * n` being `s * (m + n)` and `(s * m) * n` being
`s * (m * n)` (`Value.text_algebra`).

The numbers of times are doubles, and `m + n` and `m * n` are operations on doubles. They are exact
because a text that is not empty and not too long bounds them. In a product with zero the other
factor may be of any size, but such a product is exact as well.
-/

namespace Reckon

namespace Value

/-! ### Bounded texts -/

/-- The outcome is that a text would be too long. -/
def TooLong (outcome : Except EvalError Value) : Prop :=
  ∃ length, outcome = .error (.textTooLong length)

/-- The outcome is the text, unless that is too long. -/
structure Yields (outcome : Except EvalError Value) (text : String) : Prop where
  short : text.length ≤ 2 ^ 24 → outcome = .ok (string text)
  long : 2 ^ 24 < text.length → TooLong outcome

variable {outcome : Except EvalError Value} {next : Value → Except EvalError Value}
  {part text : String}

/-- **Parts of a text.** A text can be built from a part of it, as a part that is too long makes the
text too long. -/
theorem Yields.bind (h : Yields outcome part) (hpart : part.length ≤ text.length)
    (hnext : Yields (next (string part)) text) : Yields (outcome >>= next) text := by
  rcases Nat.lt_or_ge (2 ^ 24) part.length with hlong | hshort
  · obtain ⟨length, rfl⟩ := h.long hlong
    exact ⟨fun htext => absurd (hpart.trans htext) hlong.not_ge, fun _ => ⟨length, rfl⟩⟩
  · rw [h.short hshort]
    exact hnext

variable {a b c l r s : Value}

private theorem yields_add (h : l.isText ∨ r.isText) :
    Yields (add l r) (l.display ++ r.display) := by
  have htext : (l.isText || r.isText) = true := by simpa using h
  rw [add_eq, if_pos htext, concat]
  constructor
  · intro hshort
    rw [String.length_append] at hshort
    exact if_neg hshort.not_gt
  · intro hlong
    rw [String.length_append] at hlong
    exact ⟨_, if_pos hlong⟩

/-- The first two values are joined, and the third to them. -/
private theorem yields_add_left (hb : b.isText) (a c : Value) :
    Yields (add a b >>= fun ab => add ab c) (a.display ++ b.display ++ c.display) := by
  refine (yields_add (.inr hb)).bind ?_ (yields_add (.inl rfl))
  rw [String.length_append _ c.display]
  exact Nat.le_add_right _ _

/-- The last two values are joined, and the first to them. -/
private theorem yields_add_right (hb : b.isText) (a c : Value) :
    Yields (add b c >>= fun bc => add a bc) (a.display ++ b.display ++ c.display) := by
  rw [String.append_assoc]
  refine (yields_add (.inl hb)).bind ?_ (yields_add (.inr rfl))
  rw [String.length_append a.display]
  exact Nat.le_add_left _ _

/-! ### Repetition -/

variable {x y : Binary64} {m n : ℕ}

private theorem join_replicate_add (unit : String) (m n : ℕ) :
    String.join (List.replicate (m + n) unit) =
      String.join (List.replicate m unit) ++ String.join (List.replicate n unit) := by
  rw [← List.replicate_append_replicate, String.join_append]

private theorem join_replicate_mul (unit : String) (m n : ℕ) :
    String.join (List.replicate n (String.join (List.replicate m unit))) =
      String.join (List.replicate (m * n) unit) := by
  induction n with
  | zero => rfl
  | succ n ih => rw [List.replicate_succ, String.join_cons, ih, Nat.mul_succ, Nat.add_comm,
      join_replicate_add]

private theorem length_join_replicate (unit : String) (k : ℕ) :
    (String.join (List.replicate k unit)).length = unit.length * k := by
  rw [← copies_eq_join, length_copies]

private theorem yields_mul (hs : s.isText) (hx : x.toRat? = some (m : ℚ)) :
    Yields (mul s (number x)) (String.join (List.replicate m s.display)) := by
  rw [(Repetition.textFirst hs x).mul_eq, repeatText_of_count hx]
  constructor
  · intro hshort
    rw [length_join_replicate] at hshort
    exact if_neg hshort.not_gt
  · intro hlong
    rw [length_join_replicate] at hlong
    exact ⟨_, if_pos hlong⟩

theorem isDouble_natCast (h : n ≤ 2 ^ 24) : Binary64.IsDouble n :=
  Binary64.isDouble_of_natAbs_le (by rw [Int.natAbs_natCast]; omega)

/-- Two numbers of times are added exactly, if the sum is no greater than texts are long. -/
private theorem toRat?_add_count (hx : x.toRat? = some (m : ℚ)) (hy : y.toRat? = some (n : ℚ))
    (hsum : m + n ≤ 2 ^ 24) : (x.add y).toRat? = some ((m + n : ℕ) : ℚ) := by
  have hexact := Binary64.toRat?_add hx hy (by push_cast; rfl) (isDouble_natCast hsum)
  rwa [Int.cast_natCast] at hexact

private theorem toRat?_mul_count (hx : x.toRat? = some (m : ℚ)) (hy : y.toRat? = some (n : ℚ))
    (hprod : m * n ≤ 2 ^ 24) : (x.mul y).toRat? = some ((m * n : ℕ) : ℚ) := by
  have hexact := Binary64.toRat?_mul hx hy (by push_cast; rfl) (isDouble_natCast hprod)
  rwa [Int.cast_natCast] at hexact

/-- A text that is not empty bounds the number of times it is repeated. -/
private theorem count_le (hs : s.display ≠ "") {k bound : ℕ} (h : s.display.length * k ≤ bound) :
    k ≤ bound := by
  have hpos : 0 < s.display.length := Nat.pos_of_ne_zero (mt String.length_eq_zero_iff.mp hs)
  exact (Nat.le_mul_of_pos_left k hpos).trans h

/-- **Repetition and sums.** -/
theorem mul_add_mul (hs : s.isText) (hne : s.display ≠ "") (hx : x.toRat? = some (m : ℚ))
    (hy : y.toRat? = some (n : ℚ)) (hlength : s.display.length * (m + n) ≤ 2 ^ 24) :
    (do let l ← mul s (number x); let r ← mul s (number y); add l r) =
        .ok (string (String.join (List.replicate (m + n) s.display))) ∧
      (do let k ← add (number x) (number y); mul s k) =
        .ok (string (String.join (List.replicate (m + n) s.display))) := by
  have hsum := toRat?_add_count hx hy (count_le hne hlength)
  have hm : s.display.length * m ≤ 2 ^ 24 :=
    (Nat.mul_le_mul_left _ (Nat.le_add_right m n)).trans hlength
  have hn : s.display.length * n ≤ 2 ^ 24 :=
    (Nat.mul_le_mul_left _ (Nat.le_add_left n m)).trans hlength
  rw [← length_join_replicate] at hm hn hlength
  constructor
  · rw [(yields_mul hs hx).short hm, (yields_mul hs hy).short hn]
    rw [join_replicate_add] at hlength ⊢
    -- Of the two parts only the lengths matter; spelled out they would be unfolded copy by copy.
    generalize String.join (List.replicate m s.display) = first at hlength ⊢
    generalize String.join (List.replicate n s.display) = second at hlength ⊢
    exact (yields_add (l := string first) (r := string second) (.inl rfl)).short hlength
  · exact (yields_mul hs hsum).short hlength

/-- **Repetition and products.** -/
theorem mul_mul_mul (hs : s.isText) (hne : s.display ≠ "") (hx : x.toRat? = some (m : ℚ))
    (hy : y.toRat? = some (n : ℚ)) (hm : s.display.length * m ≤ 2 ^ 24)
    (hlength : s.display.length * m * n ≤ 2 ^ 24) :
    (do let l ← mul s (number x); mul l (number y)) =
        .ok (string (String.join (List.replicate (m * n) s.display))) ∧
      (do let k ← mul (number x) (number y); mul s k) =
        .ok (string (String.join (List.replicate (m * n) s.display))) := by
  rw [Nat.mul_assoc] at hlength
  have hprod := toRat?_mul_count hx hy (count_le hne hlength)
  rw [← length_join_replicate] at hm hlength
  constructor
  · rw [(yields_mul hs hx).short hm]
    rw [← join_replicate_mul] at hlength ⊢
    exact (yields_mul (s := string _) rfl hy).short hlength
  · exact (yields_mul hs hprod).short hlength

/-- **The algebra of texts.** With a text in the middle `+` is associative, and it fails on both
sides exactly if the display forms are too long together; the empty string is neutral. The
repetition of a text takes sums of numbers to sums of texts, and products to repeated repetitions,
as long as no text is too long; it is the text once, as often as the sum or the product says. -/
theorem text_algebra :
    (∀ a b c : Value, b.isText →
      let total := a.display.length + b.display.length + c.display.length
      let left := do let ab ← add a b; add ab c
      let right := do let bc ← add b c; add a bc
      (total ≤ 2 ^ 24 → left = .ok (string (a.display ++ b.display ++ c.display)) ∧
        right = .ok (string (a.display ++ b.display ++ c.display))) ∧
      (2 ^ 24 < total → TooLong left ∧ TooLong right)) ∧
    (∀ b : Value, b.isText → b.display.length ≤ 2 ^ 24 →
      add (string "") b = .ok (string b.display) ∧ add b (string "") = .ok (string b.display)) ∧
    (∀ (s : Value) (x y : Binary64) (m n : ℕ), s.isText → s.display ≠ "" →
      x.toRat? = some (m : ℚ) → y.toRat? = some (n : ℚ) →
      s.display.length * (m + n) ≤ 2 ^ 24 →
      let repeated := String.join (List.replicate (m + n) s.display)
      (do let l ← mul s (number x); let r ← mul s (number y); add l r) = .ok (string repeated) ∧
        (do let k ← add (number x) (number y); mul s k) = .ok (string repeated)) ∧
    ∀ (s : Value) (x y : Binary64) (m n : ℕ), s.isText → s.display ≠ "" →
      x.toRat? = some (m : ℚ) → y.toRat? = some (n : ℚ) →
      s.display.length * m ≤ 2 ^ 24 → s.display.length * m * n ≤ 2 ^ 24 →
      let repeated := String.join (List.replicate (m * n) s.display)
      (do let l ← mul s (number x); mul l (number y)) = .ok (string repeated) ∧
        (do let k ← mul (number x) (number y); mul s k) = .ok (string repeated) := by
  refine ⟨?_, ?_, ?_, ?_⟩
  · intro a b c hb total left right
    have htotal : (a.display ++ b.display ++ c.display).length = total := by
      rw [String.length_append, String.length_append]
    have hleft : Yields left _ := yields_add_left hb a c
    have hright : Yields right _ := yields_add_right hb a c
    rw [← htotal]
    exact ⟨fun h => ⟨hleft.short h, hright.short h⟩, fun h => ⟨hleft.long h, hright.long h⟩⟩
  · intro b hb hlength
    have hleft : Yields (add (string "") b) ("" ++ b.display) := yields_add (.inr hb)
    have hright : Yields (add b (string "")) (b.display ++ "") := yields_add (.inl hb)
    rw [String.empty_append] at hleft
    rw [String.append_empty] at hright
    exact ⟨hleft.short hlength, hright.short hlength⟩
  · intro s x y m n hs hne hx hy hlength
    exact mul_add_mul hs hne hx hy hlength
  · intro s x y m n hs hne hx hy hm hlength
    exact mul_mul_mul hs hne hx hy hm hlength

/-- At texts that together have the greatest length and one character more, and at a character
repeated no times, a huge number of times. -/
theorem text_algebra_limits :
    let long := string (copies "a" (2 ^ 24 - 4))
    (do let ab ← add (bool true) long; add ab (string "")) =
      .ok (string ("true" ++ copies "a" (2 ^ 24 - 4) ++ "")) ∧
    TooLong (do let bc ← add long (char 'b'); add (bool true) bc) ∧
    (do let l ← mul (char 'b') (number (.ofRatio true 0 1)); mul l (number (.ofInt (2 ^ 1000))))
      = .ok (string "") ∧
    (do let k ← mul (number (.ofRatio true 0 1)) (number (.ofInt (2 ^ 1000))); mul (char 'b') k)
      = .ok (string "") := by
  intro long
  obtain ⟨hassoc, -, -, hmul⟩ := text_algebra
  have hlength : long.display.length = 1 * (2 ^ 24 - 4) := length_copies "a" (2 ^ 24 - 4)
  have hzero : (Binary64.ofRatio true 0 1).toRat? = some ((0 : ℕ) : ℚ) := by decide +kernel
  have hhuge : (Binary64.ofInt (2 ^ 1000)).toRat? = some ((2 ^ 1000 : ℕ) : ℚ) := by decide +kernel
  have hnone : (char 'b').display.length * 0 * 2 ^ 1000 ≤ 2 ^ 24 := by
    rw [Nat.mul_zero, Nat.zero_mul]
    exact Nat.zero_le _
  have hrepeated := hmul (char 'b') _ _ _ _ rfl (by decide) hzero hhuge (by decide) hnone
  rw [Nat.zero_mul] at hrepeated
  refine ⟨((hassoc (bool true) long (string "") rfl).1 ?_).1,
    ((hassoc (bool true) long (char 'b') rfl).2 ?_).2, hrepeated⟩
  · rw [hlength]
    decide
  · rw [hlength]
    decide

end Value

end Reckon
