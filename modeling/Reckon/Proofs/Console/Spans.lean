import Reckon.Proofs.Binary64.Display
import Reckon.Proofs.Console.Pattern
import Reckon.Value

/-!
# Where marks stand

The spans of a text are matches of two patterns that are looked for independently of each other.
They never overlap all the same (`Highlight.pairwise_spans`). Within one style, the search goes on
behind a match. Across the styles, what can be found is known from the shape of a match
(`Highlight.numberLength?_sound`, `Highlight.boolLength?_sound`): no number starts with a letter of
a truth value, and the only letter of a number that starts a truth value is the last one of `inf`,
behind which the word ends.

The text of a number or a truth value is one match (`Highlight.spans_number`,
`Highlight.spans_bool`).
-/

namespace Reckon

namespace Text

theorem isDecimalDigit_of_isDigit {c : Char} (h : c.isDigit) : isDecimalDigit c := by
  have hdigits : "0123456789".toList.all isDecimalDigit := by decide
  exact List.all_eq_true.mp hdigits c (isDigit_iff_mem.mp h)

private theorem isTerminalControl_eq_false {c : Char} (h : isDecimalDigit c) :
    isTerminalControl c = false := by
  obtain ⟨base, hbase, hle, -⟩ := isDecimalDigit_iff.mp h
  have hzeros : ∀ base ∈ zeros, 0x30 ≤ base := by decide
  have hlarge : 0x30 ≤ c.val.toNat := (hzeros base hbase).trans hle
  simp only [isTerminalControl, Bool.or_eq_false_iff, Bool.and_eq_false_iff, beq_eq_false_iff_ne,
    decide_eq_false_iff_not, ne_eq, ← UInt32.toNat_inj, UInt32.le_iff_toNat_le,
    UInt32.reduceToNat]
  omega

private theorem dropControls_eq {cs : List Char} (h : ∀ c ∈ cs, isTerminalControl c = false) :
    dropControls cs = cs := by
  rw [dropControls, List.filter_eq_self]
  intro c hc
  rw [h c hc, Bool.not_false]

end Text

namespace Highlight

/-! ### The shape of a match -/

/-- Numbers without a sign. -/
inductive UnsignedShape : List Char → Prop where
  | digits {digits : List Char} (hne : digits ≠ []) (h : ∀ c ∈ digits, Text.isDecimalDigit c) :
      UnsignedShape digits
  | fraction {digits fraction : List Char} (hne : digits ≠ [])
      (h : ∀ c ∈ digits, Text.isDecimalDigit c) (hne' : fraction ≠ [])
      (h' : ∀ c ∈ fraction, Text.isDecimalDigit c) : UnsignedShape (digits ++ '.' :: fraction)
  | inf : UnsignedShape ['i', 'n', 'f']

/-- Numbers. -/
inductive NumberShape : List Char → Prop where
  | unsigned {text : List Char} (h : UnsignedShape text) : NumberShape text
  | negative {text : List Char} (h : UnsignedShape text) : NumberShape ('-' :: text)
  | nan : NumberShape ['N', 'a', 'N']

/-- Truth values. -/
def BoolShape (text : List Char) : Prop := text = "true".toList ∨ text = "false".toList

/-- The first `n` characters have the given shape, and no word goes on behind them. -/
structure Match (shape : List Char → Prop) (cs : List Char) (n : Nat) : Prop where
  le : n ≤ cs.length
  shape : shape (cs.take n)
  ends : wordEnds (cs.drop n)

variable {shape : List Char → Prop} {before : Option Char} {cs rest : List Char} {n : Nat}

private theorem match_append {text : List Char} (h : shape text) (hrest : wordEnds rest) :
    Match shape (text ++ rest) text.length :=
  ⟨by simp, by rwa [List.take_left], by rwa [List.drop_left]⟩

private theorem Match.of_wordLength? {word : List Char} (hword : shape word)
    (h : wordLength? word cs = some n) : Match shape cs n := by
  simp only [wordLength?, Option.ite_none_right_eq_some, Bool.and_eq_true, Option.some.injEq] at h
  obtain ⟨⟨hstarts, hends⟩, rfl⟩ := h
  obtain ⟨rest, rfl⟩ := List.isPrefixOf_iff_prefix.mp hstarts
  rw [List.drop_left] at hends
  exact match_append hword hends

private theorem unsignedLength?_sound (h : unsignedLength? cs = some n) :
    Match UnsignedShape cs n := by
  cases leading cs with
  | other hother =>
    rw [unsignedLength?_of_other hother] at h
    exact .of_wordLength? .inf h
  | digits hne hdigits hrest hpoint =>
    rw [unsignedLength?_of_digits hne hdigits hrest hpoint, Option.ite_none_right_eq_some,
      Option.some.injEq] at h
    obtain ⟨hends, rfl⟩ := h
    exact match_append (.digits hne hdigits) hends
  | @point digits fraction rest hne hdigits hfraction hrest =>
    rw [unsignedLength?_of_point hne hdigits hfraction hrest] at h
    split at h
    · rename_i hends
      obtain rfl := Option.some.inj h
      have hmatch := match_append (UnsignedShape.fraction hne hdigits hends.1 hfraction) hends.2
      simpa [Nat.add_assoc, Nat.add_comm 1] using hmatch
    · obtain rfl := Option.some.inj h
      exact match_append (.digits hne hdigits) (wordEnds_point _)

theorem numberLength?_sound (h : numberLength? before cs = some n) :
    Match NumberShape cs n := by
  rw [numberLength?.eq_def] at h
  split at h
  · obtain ⟨m, hm, rfl⟩ := Option.map_eq_some_iff.mp h
    obtain ⟨hle, hshape, hends⟩ := unsignedLength?_sound hm
    exact ⟨Nat.succ_le_succ hle, .negative hshape, hends⟩
  · split at h
    · rename_i hsome
      obtain rfl := Option.some.inj h
      obtain ⟨hle, hshape, hends⟩ := unsignedLength?_sound hsome
      exact ⟨hle, .unsigned hshape, hends⟩
    · rw [Option.ite_none_left_eq_some] at h
      exact .of_wordLength? .nan h.2

theorem boolLength?_sound (h : boolLength? before cs = some n) : Match BoolShape cs n := by
  rw [boolLength?, Option.ite_none_left_eq_some, Option.or_eq_some_iff] at h
  obtain ⟨-, hword | ⟨-, hword⟩⟩ := h
  · exact .of_wordLength? (.inl rfl) hword
  · exact .of_wordLength? (.inr rfl) hword

/-! ### Numbers and truth values are apart -/

variable {text : List Char}

theorem UnsignedShape.ne_nil (h : UnsignedShape text) : text ≠ [] := by
  cases h with
  | digits hne => exact hne
  | fraction hne => simp
  | inf => simp

theorem NumberShape.ne_nil (h : NumberShape text) : text ≠ [] := by
  cases h with
  | unsigned h => exact h.ne_nil
  | negative => simp
  | nan => simp

theorem BoolShape.ne_nil (h : BoolShape text) : text ≠ [] := by
  rcases h with rfl | rfl <;> decide

/-- The letters of truth values. -/
def boolLetters : List Char := ['t', 'r', 'u', 'e', 'f', 'a', 'l', 's']

private theorem BoolShape.mem_boolLetters (h : BoolShape text) {c : Char} (hc : c ∈ text) :
    c ∈ boolLetters := by
  have hletters : text.all boolLetters.contains := by rcases h with rfl | rfl <;> decide
  simpa using List.all_eq_true.mp hletters c hc

private theorem UnsignedShape.digits_or_eq_inf (h : UnsignedShape text) :
    (∀ c ∈ text, Text.isDecimalDigit c ∨ c = '.') ∨ text = ['i', 'n', 'f'] := by
  cases h with
  | digits hne h => exact .inl fun c hc => .inl (h c hc)
  | fraction hne h hne' h' =>
    refine .inl (List.forall_mem_append.mpr ⟨fun c hc => .inl (h c hc), ?_⟩)
    exact List.forall_mem_cons.mpr ⟨.inr rfl, fun c hc => .inl (h' c hc)⟩
  | inf => exact .inr rfl

private theorem notMem_boolLetters {c : Char} (h : Text.isDecimalDigit c ∨ c = '.') :
    c ∉ boolLetters := by
  have hletters : boolLetters.all fun c => !(Text.isDecimalDigit c || c == '.') := by decide
  intro hmem
  have hletter := List.all_eq_true.mp hletters c hmem
  rcases h with hdigit | rfl
  · simp [hdigit] at hletter
  · simp at hletter

/-- No number starts with a letter of a truth value. -/
theorem NumberShape.head_notMem (h : NumberShape text) : ∀ c ∈ text.head?, c ∉ boolLetters := by
  cases h with
  | unsigned h =>
    rcases h.digits_or_eq_inf with hdigits | rfl
    · exact fun c hc => notMem_boolLetters (hdigits c (List.mem_of_head? hc))
    · simp [boolLetters]
  | negative => simp [boolLetters]
  | nan => simp [boolLetters]

/-- A number ends with any letter in it that starts a truth value. -/
theorem NumberShape.eq_length (h : NumberShape text) {k : Nat} {c : Char} (hk : text[k]? = some c)
    (hc : c = 't' ∨ c = 'f') : c = 'f' ∧ k + 1 = text.length := by
  have hmem : c ∈ boolLetters := by rcases hc with rfl | rfl <;> decide
  have hunsigned {text : List Char} {k : Nat} (h : UnsignedShape text) (hk : text[k]? = some c) :
      c = 'f' ∧ k + 1 = text.length := by
    rcases h.digits_or_eq_inf with hdigits | rfl
    · exact absurd hmem (notMem_boolLetters (hdigits c (List.mem_of_getElem? hk)))
    · rcases k with _ | _ | _ | k <;> simp at hk ⊢ <;> subst hk <;> simp at hc ⊢
  cases h with
  | unsigned h => exact hunsigned h hk
  | @negative text h =>
    cases k with
    | zero =>
      obtain rfl : '-' = c := Option.some.inj hk
      simp at hc
    | succ k =>
      obtain ⟨hf, hlast⟩ := hunsigned h hk
      exact ⟨hf, congrArg (· + 1) hlast⟩
  | nan => rcases k with _ | _ | _ | k <;> simp at hk <;> subst hk <;> simp at hc

private theorem getElem?_take_drop (cs : List Char) {i k n : Nat} (hk : k < n) :
    ((cs.drop i).take n)[k]? = cs[i + k]? := by
  rw [List.getElem?_take_of_lt hk, List.getElem?_drop]

/-- A number does not start inside a truth value. -/
theorem Match.not_number_inside {i j m : Nat} (hnumber : Match NumberShape (cs.drop i) n)
    (hbool : Match BoolShape (cs.drop j) m) (hij : j ≤ i) : j + m ≤ i := by
  by_contra hcon
  obtain ⟨c, tail, htext⟩ := List.exists_cons_of_ne_nil hnumber.shape.ne_nil
  have hhead : ((cs.drop i).take n).head? = some c := by rw [htext, List.head?_cons]
  have hplace : cs[i]? = some c := by
    rw [List.head?_take, List.head?_drop] at hhead
    split at hhead
    · simp at hhead
    · exact hhead
  have hinside : ((cs.drop j).take m)[i - j]? = some c := by
    rwa [getElem?_take_drop cs (by omega), Nat.add_sub_cancel' hij]
  exact hnumber.shape.head_notMem c hhead
    (hbool.shape.mem_boolLetters (List.mem_of_getElem? hinside))

/-- A truth value does not start inside a number. -/
theorem Match.not_bool_inside {i j m : Nat} (hnumber : Match NumberShape (cs.drop i) n)
    (hbool : Match BoolShape (cs.drop j) m) (hij : i ≤ j) : i + n ≤ j := by
  by_contra hcon
  have hstart {c : Char} (hc : cs[j]? = some c) (hletter : c = 't' ∨ c = 'f') :
      c = 'f' ∧ j + 1 = i + n := by
    have hinside : ((cs.drop i).take n)[j - i]? = some c := by
      rwa [getElem?_take_drop cs (by omega), Nat.add_sub_cancel' hij]
    obtain ⟨hf, hlast⟩ := hnumber.shape.eq_length hinside hletter
    rw [List.length_take_of_le hnumber.le] at hlast
    exact ⟨hf, by omega⟩
  have hplace (k : Nat) {c : Char} (hc : ((cs.drop j).take m)[k]? = some c) :
      cs[j + k]? = some c := by
    rw [List.getElem?_take] at hc
    split at hc
    · rwa [List.getElem?_drop] at hc
    · simp at hc
  rcases hbool.shape with htext | htext
  · have hfirst : ((cs.drop j).take m)[0]? = some 't' := by rw [htext]; rfl
    exact absurd (hstart (hplace 0 hfirst) (.inl rfl)).1 (by decide)
  · have hfirst : ((cs.drop j).take m)[0]? = some 'f' := by rw [htext]; rfl
    have hnext : ((cs.drop j).take m)[1]? = some 'a' := by rw [htext]; rfl
    -- The number ends with the letter, but the word goes on.
    obtain ⟨-, hlast⟩ := hstart (hplace 0 hfirst) (.inr rfl)
    have hends := hnumber.ends
    rw [List.drop_drop, ← hlast, wordEnds, List.head?_drop, hplace 1 hnext,
      Option.any_some] at hends
    exact absurd hends (by decide)

/-! ### Spans of one style -/

/-- Whatever is found has the shape, and the shape is not empty. -/
structure Finds (length? : Option Char → List Char → Option Nat) (shape : List Char → Prop) :
    Prop where
  sound : ∀ {before : Option Char} {cs : List Char} {n : Nat},
    length? before cs = some n → Match shape cs n
  ne_nil : ∀ {text : List Char}, shape text → text ≠ []

private theorem finds_number : Finds numberLength? NumberShape :=
  ⟨numberLength?_sound, NumberShape.ne_nil⟩

private theorem finds_bool : Finds boolLength? BoolShape :=
  ⟨boolLength?_sound, BoolShape.ne_nil⟩

namespace Finds

variable {length? : Option Char → List Char → Option Nat} {style : Style} {span : Span}

theorem pos (h : Finds length? shape) (hn : length? before cs = some n) : 0 < n := by
  have hne := h.ne_nil (h.sound hn).shape
  refine Nat.pos_of_ne_zero ?_
  rintro rfl
  exact hne List.take_zero

/-- **Every span is a match.** -/
theorem exists_match (h : Finds length? shape) {first : Nat}
    (hspan : span ∈ spansFrom length? style first before cs) :
    ∃ k n, span = ⟨first + k, first + k + n, style⟩ ∧ 0 < n ∧ Match shape (cs.drop k) n := by
  fun_induction spansFrom length? style first before cs with
  | case1 => simp at hspan
  | case2 first before c rest n hn ih =>
    have hpos := h.pos hn
    rw [List.mem_cons] at hspan
    rcases hspan with rfl | hspan
    · exact ⟨0, n, rfl, hpos, h.sound hn⟩
    · obtain ⟨k, m, rfl, hm, hmatch⟩ := ih hspan
      refine ⟨n + k, m, by rw [Nat.add_assoc first], hm, ?_⟩
      rw [List.drop_drop] at hmatch
      have hdrop : (c :: rest).drop (n + k) = rest.drop (n - 1 + k) := by
        rw [show n + k = n - 1 + k + 1 by omega, List.drop_succ_cons]
      rwa [hdrop]
  | case3 first before c rest hnone ih =>
    obtain ⟨k, m, rfl, hm, hmatch⟩ := ih hspan
    refine ⟨k + 1, m, by rw [Nat.add_assoc first, Nat.add_comm 1], hm, ?_⟩
    rwa [List.drop_succ_cons]

/-- Spans are not empty and end within the text. -/
theorem lt_stop_le (h : Finds length? shape) (hspan : span ∈ spansFrom length? style 0 none cs) :
    span.start < span.stop ∧ span.stop ≤ cs.length := by
  obtain ⟨k, n, rfl, hn, hmatch⟩ := h.exists_match hspan
  have hle := hmatch.le
  rw [List.length_drop] at hle
  simp only
  omega

private theorem le_start (h : Finds length? shape) {first : Nat}
    (hspan : span ∈ spansFrom length? style first before cs) : first ≤ span.start := by
  obtain ⟨k, n, rfl, -⟩ := h.exists_match hspan
  exact Nat.le_add_right first k

/-- The search goes on behind a match. -/
theorem pairwise (h : Finds length? shape) (first : Nat) (before : Option Char) (cs : List Char) :
    (spansFrom length? style first before cs).Pairwise fun a b => a.stop ≤ b.start := by
  fun_induction spansFrom length? style first before cs with
  | case1 => exact .nil
  | case2 first before c rest n hn ih => exact .cons (fun b hb => h.le_start hb) ih
  | case3 first before c rest hnone ih => exact ih

/-- A match that takes up everything is the only one. -/
private theorem eq_singleton (h : Finds length? shape) (hn : length? none cs = some cs.length) :
    spansFrom length? style 0 none cs = [⟨0, cs.length, style⟩] := by
  cases cs with
  | nil => exact absurd (h.pos hn) (Nat.lt_irrefl 0)
  | cons c rest =>
    rw [spansFrom, hn]
    simp [spansFrom]

end Finds

/-! ### All spans -/

/-- The numbers in a text, from left to right. -/
def numberSpans (cs : List Char) : List Span := spansFrom numberLength? .number 0 none cs

/-- The truth values in a text, from left to right. -/
def boolSpans (cs : List Char) : List Span := spansFrom boolLength? .bool 0 none cs

private theorem spans_eq (text : String) :
    spans text = (numberSpans (Text.dropControls text.toList) ++
      boolSpans (Text.dropControls text.toList)).mergeSort Span.before := rfl

variable {a b : Span}

/-- One of two spans stands in front of the other. -/
def Apart (a b : Span) : Prop := a.stop ≤ b.start ∨ b.stop ≤ a.start

private theorem apart_number_bool (ha : a ∈ numberSpans cs) (hb : b ∈ boolSpans cs) :
    Apart a b := by
  obtain ⟨i, n, rfl, hn, hnumber⟩ := finds_number.exists_match ha
  obtain ⟨j, m, rfl, hm, hbool⟩ := finds_bool.exists_match hb
  simp only [Apart, Nat.zero_add]
  rcases Nat.le_total i j with hij | hji
  · exact .inl (hnumber.not_bool_inside hbool hij)
  · exact .inr (hnumber.not_number_inside hbool hji)

private theorem pairwise_apart (cs : List Char) :
    (numberSpans cs ++ boolSpans cs).Pairwise Apart := by
  rw [List.pairwise_append]
  exact ⟨(finds_number.pairwise 0 none cs).imp .inl, (finds_bool.pairwise 0 none cs).imp .inl,
    fun a ha b hb => apart_number_bool ha hb⟩

theorem mem_spans_iff {text : String} {span : Span} : span ∈ spans text ↔
    span ∈ numberSpans (Text.dropControls text.toList) ∨
      span ∈ boolSpans (Text.dropControls text.toList) := by
  rw [spans_eq, List.mem_mergeSort, List.mem_append]

private theorem lt_stop_le {text : String} {span : Span} (h : span ∈ spans text) :
    span.start < span.stop ∧ span.stop ≤ (Text.dropControls text.toList).length := by
  rcases mem_spans_iff.mp h with hspan | hspan
  · exact finds_number.lt_stop_le hspan
  · exact finds_bool.lt_stop_le hspan

/-- **Spans stand one behind the other**, whatever their styles. -/
theorem pairwise_spans (text : String) :
    (spans text).Pairwise fun a b => a.stop ≤ b.start := by
  have hapart : (spans text).Pairwise Apart :=
    ((List.mergeSort_perm _ _).pairwise_iff fun h => Or.symm h).mpr (pairwise_apart _)
  have hsorted : (spans text).Pairwise fun a b => Span.before a b := by
    refine List.pairwise_mergeSort ?_ ?_ _
    · intro a b c hab hbc
      simp only [Span.before, Bool.or_eq_true, Bool.and_eq_true, decide_eq_true_eq,
        beq_iff_eq] at hab hbc ⊢
      omega
    · intro a b
      simp only [Span.before, Bool.or_eq_true, Bool.and_eq_true, decide_eq_true_eq, beq_iff_eq]
      omega
  refine (hsorted.and hapart).imp_of_mem ?_
  intro a b ha hb hab
  obtain ⟨hbefore, hle | hle⟩ := hab
  · exact hle
  · have hb := (lt_stop_le hb).1
    have ha := (lt_stop_le ha).1
    simp only [Span.before, Bool.or_eq_true, Bool.and_eq_true, decide_eq_true_eq,
      beq_iff_eq] at hbefore
    omega

/-! ### Numbers and truth values as texts -/

private theorem unsignedLength?_complete (h : UnsignedShape cs) :
    unsignedLength? cs = some cs.length := by
  cases h with
  | digits hne h =>
    have hlength : unsignedLength? (cs ++ []) = _ :=
      unsignedLength?_of_digits hne h (by simp) (by simp)
    rw [List.append_nil] at hlength
    simpa [wordEnds] using hlength
  | @fraction digits fraction hne h hne' h' =>
    have hlength : unsignedLength? (digits ++ '.' :: (fraction ++ [])) = _ :=
      unsignedLength?_of_point hne h h' (by simp)
    rw [List.append_nil] at hlength
    simpa [wordEnds, hne', Nat.add_assoc, Nat.add_comm 1] using hlength
  | inf => decide

private theorem numberLength?_complete (h : NumberShape cs) :
    numberLength? none cs = some cs.length := by
  cases h with
  | unsigned h =>
    have hlength := unsignedLength?_complete h
    rw [numberLength?, hlength]
    rintro rest rfl
    rw [unsignedLength?_minus] at hlength
    simp at hlength
  | negative h => rw [numberLength?, unsignedLength?_complete h, Option.map_some, List.length_cons]
  | nan => decide

private theorem boolLength?_complete (h : BoolShape cs) : boolLength? none cs = some cs.length := by
  rcases h with rfl | rfl <;> decide

theorem UnsignedShape.dropControls (h : UnsignedShape cs) : Text.dropControls cs = cs := by
  rcases h.digits_or_eq_inf with hdigits | rfl
  · refine Text.dropControls_eq ?_
    intro c hc
    rcases hdigits c hc with hdigit | rfl
    · exact Text.isTerminalControl_eq_false hdigit
    · decide
  · decide

theorem NumberShape.dropControls (h : NumberShape cs) : Text.dropControls cs = cs := by
  cases h with
  | unsigned h => exact h.dropControls
  | negative h =>
    rw [Text.dropControls, List.filter_cons_of_pos (by decide)]
    exact congrArg ('-' :: ·) h.dropControls
  | nan => decide

theorem BoolShape.dropControls (h : BoolShape cs) : Text.dropControls cs = cs := by
  rcases h with rfl | rfl <;> decide

/-- Next to a span that takes up everything there is no room. -/
private theorem eq_nil_of_apart {spans : List Span} {size : Nat} (style : Style)
    (h : ∀ span ∈ spans, span.start < span.stop ∧ span.stop ≤ size)
    (hapart : ∀ span ∈ spans, Apart ⟨0, size, style⟩ span) : spans = [] := by
  rw [List.eq_nil_iff_forall_not_mem]
  intro span hspan
  have hplace := h span hspan
  have hor := hapart span hspan
  simp only [Apart] at hor
  omega

theorem spans_number {text : String} (h : NumberShape text.toList) :
    spans text = [⟨0, text.length, .number⟩] := by
  have hnumbers : numberSpans text.toList = [⟨0, text.length, .number⟩] :=
    finds_number.eq_singleton (numberLength?_complete h)
  have hbools : boolSpans text.toList = [] := by
    refine eq_nil_of_apart .number (fun b hb => finds_bool.lt_stop_le hb) ?_
    intro b hb
    exact apart_number_bool (List.mem_of_mem_head? (by rw [hnumbers]; rfl)) hb
  rw [spans_eq, h.dropControls, hnumbers, hbools, List.append_nil, List.mergeSort_singleton]

theorem spans_bool {text : String} (h : BoolShape text.toList) :
    spans text = [⟨0, text.length, .bool⟩] := by
  have hbools : boolSpans text.toList = [⟨0, text.length, .bool⟩] :=
    finds_bool.eq_singleton (boolLength?_complete h)
  have hnumbers : numberSpans text.toList = [] := by
    refine eq_nil_of_apart .bool (fun a ha => finds_number.lt_stop_le ha) ?_
    intro a ha
    exact (apart_number_bool ha (List.mem_of_mem_head? (by rw [hbools]; rfl))).symm
  rw [spans_eq, h.dropControls, hnumbers, hbools, List.nil_append, List.mergeSort_singleton]

private theorem numberShape_signText (negative : Bool) (h : UnsignedShape cs) :
    NumberShape (Binary64.signText negative ++ cs) := by
  cases negative with
  | false => exact .unsigned h
  | true => exact .negative h

/-- Display forms are numbers. -/
theorem numberShape_displayChars (x : Binary64) : NumberShape x.displayChars := by
  cases x with
  | nan => exact .nan
  | inf negative => exact numberShape_signText negative .inf
  | finite negative n h =>
    have hdecimal {digits : List Char} (hdigits : ∀ c ∈ digits, c.isDigit) :
        ∀ c ∈ digits, Text.isDecimalDigit c :=
      fun c hc => Text.isDecimalDigit_of_isDigit (hdigits c hc)
    by_cases hwhole : n % quantaPerOne = 0
    · rw [Binary64.displayChars_of_whole hwhole]
      exact numberShape_signText negative (.digits Nat.toDigits_ne_nil
        (hdecimal fun c => Decimal.isDigit_of_mem_toDigits))
    · have hexponent := Decimal.exponent_shortest_neg (h := h) hwhole
      obtain ⟨whole, fraction, htext, hsplits⟩ := Decimal.exists_splits hexponent
      obtain ⟨hdigits, hdigits'⟩ := List.forall_mem_append.mp hsplits.isDigit
      have hne : fraction ≠ [] := by
        rintro rfl
        rw [hsplits.exponent_eq] at hexponent
        simp at hexponent
      rw [Binary64.displayChars_of_fraction hwhole, htext]
      exact numberShape_signText negative
        (.fraction hsplits.whole_ne_nil (hdecimal hdigits) hne (hdecimal hdigits'))

private theorem boolShape_display (b : Bool) : BoolShape (Value.bool b).display.toList := by
  cases b with
  | false => exact .inr rfl
  | true => exact .inl rfl

/-- **Marks.** The marks of a text are what a search for the two patterns finds. They are not empty,
lie within the text and stand one behind the other. A number or a truth value that is printed is
marked as one from its first character to its last. -/
theorem spans_mark_values :
    (∀ text : String, spans text =
      (spansFrom numberPattern.first? .number 0 none (Text.dropControls text.toList) ++
        spansFrom boolPattern.first? .bool 0 none (Text.dropControls text.toList)).mergeSort
          Span.before) ∧
    (∀ text : String,
      (∀ span ∈ spans text,
        span.start < span.stop ∧ span.stop ≤ (Text.dropControls text.toList).length) ∧
      (spans text).Pairwise fun a b => a.stop ≤ b.start) ∧
    (∀ x : Binary64, (spans (Value.number x).display).map
        (fun span => (span.start, span.stop, span.style.name)) =
      [(0, (Value.number x).display.length, "ember.number")]) ∧
    ∀ b : Bool, (spans (Value.bool b).display).map
        (fun span => (span.start, span.stop, span.style.name)) =
      [(0, (Value.bool b).display.length, "ember.bool")] := by
  -- The scanners written by hand find what the patterns match, so facts about them carry over.
  have hnumber : numberPattern.first? = numberLength? := by
    funext before cs
    exact first?_numberPattern before cs
  have hbool : boolPattern.first? = boolLength? := by
    funext before cs
    exact first?_boolPattern before cs
  refine ⟨?_, fun text => ⟨fun span => lt_stop_le, pairwise_spans text⟩, ?_, ?_⟩
  · intro text
    rw [hnumber, hbool]
    rfl
  · intro x
    have hshape : NumberShape (Value.number x).display.toList := by
      rw [Value.display, Binary64.toList_display]
      exact numberShape_displayChars x
    rw [spans_number hshape]
    rfl
  · intro b
    rw [spans_bool (boolShape_display b)]
    rfl

/-- Negative infinity, whose letters are marked together with the sign. -/
theorem spans_mark_values_minus_inf :
    (Value.number (.inf true)).display = "-inf" ∧
    (spans "-inf").map (fun span => (span.start, span.stop, span.style.name)) =
      [(0, 4, "ember.number")] ∧
    ∃ span ∈ spans "-inf", span.start < span.stop ∧ span.stop ≤ 4 := by
  have hmarks : (spans "-inf").map (fun span => (span.start, span.stop, span.style.name)) =
      [(0, 4, "ember.number")] := spans_mark_values.2.2.1 (.inf true)
  obtain ⟨span, hspan⟩ : ∃ span, span ∈ spans "-inf" := by
    refine List.exists_mem_of_ne_nil _ ?_
    intro hnil
    rw [hnil] at hmarks
    simp at hmarks
  exact ⟨rfl, hmarks, span, hspan, (spans_mark_values.2.1 "-inf").1 span hspan⟩

end Highlight

end Reckon
