import Mathlib.Data.List.Chain
import Mathlib.Data.List.TakeWhile
import Reckon.Console.Highlight
import Reckon.Proofs.Decimal.Layout

/-!
# What is marked

Numbers and truth values are found by looking for a pattern, and the pattern is written down here:
`Highlight.numberPattern` and `Highlight.boolPattern`. A pattern can match in several ways at one
place. They are tried in a fixed order, runs of characters from the longest to the shortest and the
first of two alternatives before the second, and the first way that leads to the end of the pattern
counts (`Highlight.Pattern.first?`).

`Highlight.numberLength?` and `Highlight.boolLength?` try one way only, or two. They find the same
matches nevertheless (`Highlight.first?_numberPattern`, `Highlight.first?_boolPattern`): a decimal
digit of any script is a word character, so that giving up some digits of a run never leads to the
end of a word.
-/

namespace Reckon

namespace Text

theorem isDecimalDigit_iff {c : Char} :
    isDecimalDigit c ↔ ∃ base ∈ zeros, base ≤ c.toNat ∧ c.toNat ≤ base + 9 := by
  simp [isDecimalDigit, decimalDigit?, List.find?_isSome]

private theorem inRanges_of_mem {code : Nat} {ranges : List (Nat × Nat)} {range : Nat × Nat}
    (hsorted : (ranges.map Prod.fst).Pairwise (· ≤ ·)) (hmem : range ∈ ranges)
    (hle : range.1 ≤ code) (hle' : code ≤ range.2) : inRanges code ranges := by
  induction ranges with
  | nil => simp at hmem
  | cons first rest ih =>
    rw [List.map_cons, List.pairwise_cons] at hsorted
    rw [List.mem_cons] at hmem
    rcases hmem with rfl | hmem
    · simp [inRanges, hle, hle']
    · have hfirst := hsorted.1 range.1 (List.mem_map_of_mem hmem)
      simp [inRanges, Nat.le_trans hfirst hle, ih hsorted.2 hmem]

private theorem alphanumericRanges_sorted : (alphanumericRanges.map Prod.fst).Pairwise (· ≤ ·) := by
  refine List.isChain_iff_pairwise.mp ?_
  decide +kernel

/-- If ranges, one after the other, use up the numbers from the front, every number lies in one. -/
private theorem exists_of_foldl_dropWhile {p : Nat × Nat → Nat → Bool} {ranges : List (Nat × Nat)}
    {left : List Nat} (h : ranges.foldl (fun left range => left.dropWhile (p range)) left = []) :
    ∀ n ∈ left, ∃ range ∈ ranges, p range n := by
  induction ranges generalizing left with
  | nil =>
    obtain rfl : left = [] := h
    simp
  | cons range ranges ih =>
    intro n hn
    rw [← List.takeWhile_append_dropWhile (p := p range) (l := left), List.mem_append] at hn
    rcases hn with hn | hn
    · exact ⟨range, List.mem_cons_self .., List.mem_takeWhile_imp hn⟩
    · obtain ⟨range', hrange', hp⟩ := ih h n hn
      exact ⟨range', List.mem_cons_of_mem _ hrange', hp⟩

/-- Past ASCII, the ten digits that start with a zero lie in a range of word characters. -/
private theorem exists_range_of_mem_zeros {base : Nat} (h : base ∈ zeros.tail) :
    ∃ range ∈ alphanumericRanges, range.1 ≤ base ∧ base + 9 ≤ range.2 := by
  -- Both tables are sorted, so that one pass through them is enough.
  have hpass : alphanumericRanges.foldl
      (fun left range => left.dropWhile fun n => range.1 ≤ n && n + 9 ≤ range.2)
      zeros.tail = [] := by decide +kernel
  obtain ⟨range, hrange, hwithin⟩ := exists_of_foldl_dropWhile
    (p := fun range n => range.1 ≤ n && n + 9 ≤ range.2) hpass base h
  exact ⟨range, hrange, by simpa using hwithin⟩

/-- Decimal digits are word characters. -/
theorem isWordChar_of_isDecimalDigit {c : Char} (h : isDecimalDigit c) : isWordChar c := by
  obtain ⟨base, hbase, hle, hle'⟩ := isDecimalDigit_iff.mp h
  have hzeros : zeros = 0x30 :: zeros.tail := rfl
  rw [hzeros, List.mem_cons] at hbase
  rcases hbase with rfl | hbase
  · have hval : c.val < 0x80 := by
      rw [UInt32.lt_iff_toNat_lt]
      exact Nat.lt_of_le_of_lt hle' (by decide)
    have hdigit : c.isDigit := by
      rw [Char.isDigit, Bool.and_eq_true, decide_eq_true_iff, decide_eq_true_iff]
      exact ⟨UInt32.le_iff_toNat_le.mpr hle, UInt32.le_iff_toNat_le.mpr hle'⟩
    simp [isWordChar, hval, Char.isAlphanum, hdigit]
  · have hascii : ∀ base ∈ zeros.tail, 0x80 ≤ base := by decide
    have hval : ¬c.val < 0x80 := by
      rw [UInt32.lt_iff_toNat_lt, Nat.not_lt]
      exact Nat.le_trans (hascii base hbase) hle
    obtain ⟨range, hrange, hfirst, hlast⟩ := exists_range_of_mem_zeros hbase
    rw [isWordChar, if_neg hval]
    exact inRanges_of_mem alphanumericRanges_sorted hrange (Nat.le_trans hfirst hle)
      (Nat.le_trans hle' hlast)

end Text

namespace Highlight

/-! ### Patterns -/

/-- What to look for in a text. -/
inductive Pattern where
  /-- Nothing at all. -/
  | nothing
  /-- A character that passes the test. -/
  | char (test : Char → Bool)
  /-- One or more characters that pass the test. -/
  | run (test : Char → Bool)
  /-- A place where a word begins or ends. -/
  | boundary
  /-- The second pattern behind the first. -/
  | both (first second : Pattern)
  /-- The first pattern, or else the second. -/
  | either (first second : Pattern)

/-- The character in front of the place that is `n` characters on. -/
def behind (before : Option Char) (cs : List Char) (n : Nat) : Option Char :=
  (cs.take n).getLast?.or before

/-- A word begins or ends at the place that is `n` characters on. -/
def isBoundary (before : Option Char) (cs : List Char) (n : Nat) : Bool :=
  (behind before cs n).any Text.isWordChar != (cs.drop n).head?.any Text.isWordChar

namespace Pattern

/-- The lengths of all matches at the front of `cs`, in the order in which they are tried, when
`before` is the character in front. -/
def lengths : Pattern → Option Char → List Char → List Nat
  | nothing, _, _ => [0]
  | char test, _, cs => if cs.head?.any test then [1] else []
  | run test, _, cs => (List.range (cs.takeWhile test).length).reverse.map (· + 1)
  | boundary, before, cs => if isBoundary before cs 0 then [0] else []
  | both p q, before, cs =>
    (p.lengths before cs).flatMap fun n =>
      (q.lengths (behind before cs n) (cs.drop n)).map (n + ·)
  | either p q, before, cs => p.lengths before cs ++ q.lengths before cs

/-- The length of the match that counts. -/
def first? (p : Pattern) (before : Option Char) (cs : List Char) : Option Nat :=
  (p.lengths before cs).head?

/-- The characters of a word, one after the other. -/
def word : List Char → Pattern
  | [] => nothing
  | c :: rest => both (char (· == c)) (word rest)

/-- A pattern that may be left out. -/
def perhaps (p : Pattern) : Pattern := either p nothing

end Pattern

open Pattern

/-- A point and digits, if they are there. -/
def fractionPattern : Pattern := perhaps (both (char (· == '.')) (run Text.isDecimalDigit))

/-- Digits and a fraction, or the word for infinity. -/
def unsignedPattern : Pattern :=
  either (both (run Text.isDecimalDigit) fractionPattern) (word "inf".toList)

/-- Numbers end with a word. The word for what is no number is a word of its own. -/
def numberPattern : Pattern :=
  either (both (perhaps (char (· == '-'))) (both unsignedPattern boundary))
    (both boundary (both (word "NaN".toList) boundary))

/-- Truth values are words of their own. -/
def boolPattern : Pattern :=
  both boundary (both (either (word "true".toList) (word "false".toList)) boundary)

/-! ### Matches of the parts -/

variable {before : Option Char} {cs rest : List Char} {p q : Pattern}

private theorem behind_zero (before : Option Char) (cs : List Char) :
    behind before cs 0 = before := by
  simp [behind]

theorem behind_append {front : List Char} {c : Char} (h : front.getLast? = some c)
    (before : Option Char) (rest : List Char) :
    behind before (front ++ rest) front.length = some c := by
  rw [behind, List.take_left, h, Option.some_or]

theorem isBoundary_zero (before : Option Char) (cs : List Char) :
    isBoundary before cs 0 = (before.any Text.isWordChar != cs.head?.any Text.isWordChar) := by
  rw [isBoundary, behind_zero, List.drop_zero]

/-- Behind a word character, a boundary is the end of the word. -/
theorem isBoundary_append {front : List Char} {c : Char} (h : front.getLast? = some c)
    (hc : Text.isWordChar c) (before : Option Char) (rest : List Char) :
    isBoundary before (front ++ rest) front.length = wordEnds rest := by
  rw [isBoundary, behind_append h, List.drop_left, Option.any_some, hc, wordEnds, Bool.true_bne]

theorem first?_either (p q : Pattern) (before : Option Char) (cs : List Char) :
    (either p q).first? before cs = (p.first? before cs).or (q.first? before cs) :=
  List.head?_append

theorem first?_both (p q : Pattern) (before : Option Char) (cs : List Char) :
    (both p q).first? before cs =
      (p.lengths before cs).findSome? fun n =>
        (q.first? (behind before cs n) (cs.drop n)).map (n + ·) := by
  rw [first?, lengths, List.head?_flatMap]
  simp only [first?, List.head?_map]

/-- In front of a boundary, the first match that ends there counts. -/
private theorem first?_both_boundary (p : Pattern) (before : Option Char) (cs : List Char) :
    (both p boundary).first? before cs =
      (p.lengths before cs).find? (isBoundary before cs) := by
  rw [first?_both]
  induction p.lengths before cs with
  | nil => rfl
  | cons n more ih =>
    have hplace : isBoundary (behind before cs n) (cs.drop n) 0 = isBoundary before cs n := by
      rw [isBoundary_zero, isBoundary]
    rw [List.findSome?_cons, List.find?_cons, first?, lengths, hplace, ih]
    cases isBoundary before cs n <;> simp

private theorem first?_boundary_both (p : Pattern) (before : Option Char) (cs : List Char) :
    (both boundary p).first? before cs =
      if isBoundary before cs 0 then p.first? before cs else none := by
  rw [first?_both, lengths]
  split <;> simp [behind_zero]

private theorem lengths_word (w : List Char) (before : Option Char) (cs : List Char) :
    (word w).lengths before cs = if w.isPrefixOf cs then [w.length] else [] := by
  induction w generalizing before cs with
  | nil => simp [word, lengths]
  | cons c w ih =>
    rcases cs with _ | ⟨d, cs⟩
    · simp [word, lengths]
    by_cases hc : c = d
    · subst hc
      have hword := ih (behind before (c :: cs) 1) cs
      simp only [word, lengths, List.head?_cons, Option.any_some, beq_self_eq_true, if_true,
        List.flatMap_cons, List.flatMap_nil, List.append_nil, List.drop_one, List.tail_cons, hword,
        List.isPrefixOf_cons_cons, Bool.true_and, List.length_cons]
      split <;> simp [Nat.add_comm]
    · have hne : (d == c) = false := by simpa using Ne.symm hc
      simp [word, lengths, hne, hc]

/-- A word that ends with a word character ends where no word character follows. -/
private theorem first?_word_boundary {w : List Char} {c : Char} (h : w.getLast? = some c)
    (hc : Text.isWordChar c) (before : Option Char) (cs : List Char) :
    (both (word w) boundary).first? before cs = wordLength? w cs := by
  rw [first?_both_boundary, lengths_word, wordLength?]
  by_cases hstarts : w.isPrefixOf cs
  · obtain ⟨rest, rfl⟩ := List.isPrefixOf_iff_prefix.mp hstarts
    simp only [hstarts, if_true, Bool.true_and, List.find?_cons, List.find?_nil,
      isBoundary_append h hc, List.drop_left]
    cases wordEnds rest <;> rfl
  · simp [hstarts]

/-! ### Runs of digits -/

/-- If giving up characters of a run does not help, the longest match is the only one to try. -/
private theorem findSome?_run {α : Type} {n : Nat} {f : Nat → Option α} (hn : 0 < n)
    (h : ∀ k, 0 < k → k < n → f k = none) :
    ((List.range n).reverse.map (· + 1)).findSome? f = f n := by
  obtain ⟨m, rfl⟩ : ∃ m, n = m + 1 := ⟨n - 1, by omega⟩
  have hshorter : ((List.range m).reverse.map (· + 1)).findSome? f = none := by
    rw [List.findSome?_eq_none_iff]
    intro k hk
    simp only [List.mem_map, List.mem_reverse, List.mem_range] at hk
    obtain ⟨k, hk, rfl⟩ := hk
    exact h (k + 1) (by omega) (by omega)
  rw [List.range_succ, List.reverse_append, List.map_append, List.findSome?_append, hshorter,
    Option.or_none]
  simp

/-- The longest match is also the only one to try if what is asked for is a test. -/
private theorem find?_run {n : Nat} {f : Nat → Nat} {p : Nat → Bool} (hn : 0 < n)
    (h : ∀ k, 0 < k → k < n → p (f k) = false) :
    (((List.range n).reverse.map (· + 1)).map f).find? p =
      if p (f n) then some (f n) else none := by
  rw [← List.findSome?_guard, List.findSome?_map, findSome?_run hn]
  · simp [Option.guard]
  · intro k hk hlt
    simp [Option.guard, h k hk hlt]

variable {digits : List Char}

private theorem isBoundary_end (hne : digits ≠ []) (h : ∀ c ∈ digits, Text.isDecimalDigit c)
    (before : Option Char) (front rest : List Char) :
    isBoundary before (front ++ (digits ++ rest)) (front.length + digits.length) =
      wordEnds rest := by
  obtain ⟨c, hlast⟩ := Option.isSome_iff_exists.mp (List.getLast?_isSome.mpr hne)
  have hc := Text.isWordChar_of_isDecimalDigit (h c (List.mem_of_getLast? hlast))
  have hlast' : (front ++ digits).getLast? = some c := by
    rw [List.getLast?_append, hlast, Option.some_or]
  rw [← List.append_assoc, ← List.length_append]
  exact isBoundary_append hlast' hc before rest

private theorem isBoundary_inside (h : ∀ c ∈ digits, Text.isDecimalDigit c) {k : Nat} (hk : 0 < k)
    (hlt : k < digits.length) (before : Option Char) (front rest : List Char) :
    isBoundary before (front ++ (digits ++ rest)) (front.length + k) = false := by
  have hlength : (digits.take k).length = k := List.length_take_of_le (Nat.le_of_lt hlt)
  have hne : digits.take k ≠ [] := List.ne_nil_of_length_pos (by omega)
  have hend := isBoundary_end hne (fun c hc => h c (List.mem_of_mem_take hc)) before front
    (digits.drop k ++ rest)
  rw [← List.append_assoc (digits.take k), List.take_append_drop, hlength] at hend
  have hword := Text.isWordChar_of_isDecimalDigit (h _ (List.getElem_mem hlt))
  rw [hend, List.drop_eq_getElem_cons hlt, wordEnds, List.cons_append, List.head?_cons,
    Option.any_some, hword, Bool.not_true]

private theorem lengths_run (h : ∀ c ∈ digits, Text.isDecimalDigit c)
    (hrest : ∀ c ∈ rest.head?, Text.isDecimalDigit c = false) :
    (run Text.isDecimalDigit).lengths before (digits ++ rest) =
      (List.range digits.length).reverse.map (· + 1) := by
  rw [lengths, (Text.span_append h hrest).1]

/-! ### Unsigned numbers -/

/-- How characters can begin: not with a digit, with digits and no point behind them, or with digits
and a point. -/
inductive Leading : List Char → Prop where
  | other {cs : List Char} (h : ∀ c ∈ cs.head?, Text.isDecimalDigit c = false) : Leading cs
  | digits {digits rest : List Char} (hne : digits ≠ [])
      (hdigits : ∀ c ∈ digits, Text.isDecimalDigit c)
      (hrest : ∀ c ∈ rest.head?, Text.isDecimalDigit c = false) (hpoint : rest.head? ≠ some '.') :
      Leading (digits ++ rest)
  | point {digits fraction rest : List Char} (hne : digits ≠ [])
      (hdigits : ∀ c ∈ digits, Text.isDecimalDigit c)
      (hfraction : ∀ c ∈ fraction, Text.isDecimalDigit c)
      (hrest : ∀ c ∈ rest.head?, Text.isDecimalDigit c = false) :
      Leading (digits ++ '.' :: (fraction ++ rest))

private theorem exists_digits_append (cs : List Char) :
    ∃ digits rest, cs = digits ++ rest ∧ (∀ c ∈ digits, Text.isDecimalDigit c) ∧
      ∀ c ∈ rest.head?, Text.isDecimalDigit c = false := by
  refine ⟨_, _, List.takeWhile_append_dropWhile.symm, fun c => List.mem_takeWhile_imp, ?_⟩
  intro c hc
  have hhead := List.head?_dropWhile_not Text.isDecimalDigit cs
  rw [Option.mem_def.mp hc] at hhead
  simpa using hhead

theorem leading (cs : List Char) : Leading cs := by
  obtain ⟨digits, rest, rfl, hdigits, hrest⟩ := exists_digits_append cs
  by_cases hne : digits = []
  · subst hne
    exact .other hrest
  by_cases hpoint : rest.head? = some '.'
  · obtain ⟨tail, rfl⟩ : ∃ tail, rest = '.' :: tail := List.head?_eq_some_iff.mp hpoint
    obtain ⟨fraction, rest, rfl, hfraction, hrest⟩ := exists_digits_append tail
    exact .point hne hdigits hfraction hrest
  · exact .digits hne hdigits hrest hpoint

private theorem isDecimalDigit_point : Text.isDecimalDigit '.' = false := by decide

theorem wordEnds_point (cs : List Char) : wordEnds ('.' :: cs) := by
  simp only [wordEnds, List.head?_cons, Option.any_some]
  decide

theorem unsignedLength?_of_other (h : ∀ c ∈ cs.head?, Text.isDecimalDigit c = false) :
    unsignedLength? cs = wordLength? "inf".toList cs := by
  have hspan : ([] ++ cs).takeWhile Text.isDecimalDigit = [] ∧
      ([] ++ cs).dropWhile Text.isDecimalDigit = cs := Text.span_append (by simp) h
  rw [List.nil_append] at hspan
  simp [unsignedLength?, hspan]

theorem unsignedLength?_of_digits (hne : digits ≠ [])
    (hdigits : ∀ c ∈ digits, Text.isDecimalDigit c)
    (hrest : ∀ c ∈ rest.head?, Text.isDecimalDigit c = false) (hpoint : rest.head? ≠ some '.') :
    unsignedLength? (digits ++ rest) = if wordEnds rest then some digits.length else none := by
  obtain ⟨htake, hdrop⟩ := Text.span_append hdigits hrest
  simp only [unsignedLength?, htake, hdrop, List.isEmpty_iff, hne, if_false]
  split
  · simp at hpoint
  · rfl

theorem unsignedLength?_of_point {fraction : List Char} (hne : digits ≠ [])
    (hdigits : ∀ c ∈ digits, Text.isDecimalDigit c)
    (hfraction : ∀ c ∈ fraction, Text.isDecimalDigit c)
    (hrest : ∀ c ∈ rest.head?, Text.isDecimalDigit c = false) :
    unsignedLength? (digits ++ '.' :: (fraction ++ rest)) =
      if fraction ≠ [] ∧ wordEnds rest then some (digits.length + 1 + fraction.length)
      else some digits.length := by
  have hpoint : ∀ c ∈ ('.' :: (fraction ++ rest)).head?, Text.isDecimalDigit c = false := by
    simp [isDecimalDigit_point]
  obtain ⟨htake, hdrop⟩ := Text.span_append hdigits hpoint
  obtain ⟨htake', hdrop'⟩ := Text.span_append hfraction hrest
  simp [unsignedLength?, htake, hdrop, htake', hdrop', hne]

private theorem lengths_fractionPattern_of_ne (h : cs.head? ≠ some '.') :
    fractionPattern.lengths before cs = [0] := by
  have hpoint : cs.head?.any (· == '.') = false := by
    rw [Option.any_eq_false]
    intro c hc
    rw [beq_eq_false_iff_ne]
    rintro rfl
    exact h hc
  simp [fractionPattern, perhaps, lengths, hpoint]

private theorem lengths_fractionPattern_of_point {fraction : List Char}
    (hfraction : ∀ c ∈ fraction, Text.isDecimalDigit c)
    (hrest : ∀ c ∈ rest.head?, Text.isDecimalDigit c = false) :
    fractionPattern.lengths before ('.' :: (fraction ++ rest)) =
      ((List.range fraction.length).reverse.map (· + 1)).map (1 + ·) ++ [0] := by
  have hpoint : (char (· == '.')).lengths before ('.' :: (fraction ++ rest)) = [1] := by
    simp [lengths]
  rw [fractionPattern, perhaps, lengths, lengths, lengths, hpoint, List.flatMap_singleton,
    List.drop_one, List.tail_cons, lengths_run hfraction hrest]

/-- Behind digits, the pattern goes on with what stands behind all of them. -/
private theorem find?_unsignedPattern (hne : digits ≠ [])
    (hdigits : ∀ c ∈ digits, Text.isDecimalDigit c)
    (hrest : ∀ c ∈ rest.head?, Text.isDecimalDigit c = false) (before : Option Char) :
    (unsignedPattern.lengths before (digits ++ rest)).find? (isBoundary before (digits ++ rest)) =
      ((fractionPattern.lengths (behind before (digits ++ rest) digits.length) rest).map
        (digits.length + ·)).find? (isBoundary before (digits ++ rest)) := by
  have hword : "inf".toList.isPrefixOf (digits ++ rest) = false := by
    obtain ⟨c, more, rfl⟩ := List.exists_cons_of_ne_nil hne
    have hc : ('i' == c) = false := by
      rw [beq_eq_false_iff_ne]
      rintro rfl
      exact absurd (hdigits 'i' (by simp)) (by decide)
    show ['i', 'n', 'f'].isPrefixOf (c :: (more ++ rest)) = false
    rw [List.isPrefixOf_cons_cons, hc, Bool.false_and]
  have hshorter (k : Nat) (hk : 0 < k) (hlt : k < digits.length) :
      ((fractionPattern.lengths (behind before (digits ++ rest) k) ((digits ++ rest).drop k)).map
        (k + ·)).find? (isBoundary before (digits ++ rest)) = none := by
    have hinside : isBoundary before (digits ++ rest) k = false := by
      simpa using isBoundary_inside hdigits hk hlt before [] rest
    have hhead : ((digits ++ rest).drop k).head? ≠ some '.' := by
      rw [List.head?_drop, List.getElem?_append_left hlt, List.getElem?_eq_getElem hlt]
      intro hpoint
      have hdigit := hdigits _ (List.getElem_mem hlt)
      rw [Option.some.inj hpoint, isDecimalDigit_point] at hdigit
      simp at hdigit
    simp [lengths_fractionPattern_of_ne hhead, hinside]
  rw [unsignedPattern, lengths, lengths_word, hword, if_neg (by simp), List.append_nil, lengths,
    List.find?_flatMap, lengths_run hdigits hrest,
    findSome?_run (List.length_pos_iff.mpr hne) hshorter, List.drop_left]

/-- Of a fraction that is there, all digits are taken or none. -/
private theorem find?_fraction {fraction : List Char} (hne : fraction ≠ [])
    (hfraction : ∀ c ∈ fraction, Text.isDecimalDigit c) (before : Option Char) :
    ((((List.range fraction.length).reverse.map (· + 1)).map (1 + ·)).map
        (digits.length + ·)).find? (isBoundary before (digits ++ '.' :: (fraction ++ rest))) =
      if wordEnds rest then some (digits.length + (1 + fraction.length)) else none := by
  have hfront (k : Nat) :
      isBoundary before (digits ++ '.' :: (fraction ++ rest)) (digits.length + (1 + k)) =
        isBoundary before (digits ++ ['.'] ++ (fraction ++ rest))
          ((digits ++ ['.']).length + k) := by
    rw [List.append_assoc, List.singleton_append, List.length_append, List.length_singleton,
      Nat.add_assoc]
  rw [List.map_map, find?_run (List.length_pos_iff.mpr hne), Function.comp_apply, hfront,
    isBoundary_end hne hfraction]
  intro k hk hlt
  exact (hfront k).trans (isBoundary_inside hfraction hk hlt ..)

/-- **Unsigned numbers.** -/
theorem first?_unsignedPattern (before : Option Char) (cs : List Char) :
    (both unsignedPattern boundary).first? before cs = unsignedLength? cs := by
  rw [first?_both_boundary]
  cases leading cs with
  | other h =>
    have hnone : (run Text.isDecimalDigit).lengths before ([] ++ cs) = [] :=
      lengths_run (by simp) h
    rw [List.nil_append] at hnone
    rw [unsignedLength?_of_other h, unsignedPattern, lengths, lengths, hnone, List.flatMap_nil,
      List.nil_append, ← first?_both_boundary]
    exact first?_word_boundary (c := 'f') rfl (by decide) before cs
  | @digits digits rest hne hdigits hrest hpoint =>
    have hend : isBoundary before (digits ++ rest) digits.length = wordEnds rest := by
      simpa using isBoundary_end hne hdigits before [] rest
    rw [find?_unsignedPattern hne hdigits hrest, lengths_fractionPattern_of_ne hpoint,
      unsignedLength?_of_digits hne hdigits hrest hpoint]
    cases hends : wordEnds rest <;> simp [hend, hends]
  | @point digits fraction rest hne hdigits hfraction hrest =>
    have hpoint : ∀ c ∈ ('.' :: (fraction ++ rest)).head?, Text.isDecimalDigit c = false := by
      simp [isDecimalDigit_point]
    -- Without the fraction the number ends at the point, which is no word character.
    have hwhole : isBoundary before (digits ++ '.' :: (fraction ++ rest)) digits.length := by
      have hend := isBoundary_end hne hdigits before [] ('.' :: (fraction ++ rest))
      rw [wordEnds_point] at hend
      simpa using hend
    rw [find?_unsignedPattern hne hdigits hpoint, lengths_fractionPattern_of_point hfraction hrest,
      unsignedLength?_of_point hne hdigits hfraction hrest, List.map_append, List.find?_append]
    by_cases hnone : fraction = []
    · subst hnone
      simpa using hwhole
    · rw [find?_fraction hnone hfraction]
      cases hlast : wordEnds rest <;> simp [hwhole, hnone, Nat.add_assoc]

/-! ### Numbers and truth values -/

private theorem lengths_perhaps_minus (before : Option Char) (cs : List Char) :
    (perhaps (char (· == '-'))).lengths before cs =
      if cs.head? = some '-' then [1, 0] else [0] := by
  rcases cs with _ | ⟨c, cs⟩
  · rfl
  · by_cases hc : c = '-' <;> simp [perhaps, lengths, hc]

private theorem wordLength?_of_ne {w : List Char} {c d : Char} (h : w.head? = some c) (hd : c ≠ d)
    (cs : List Char) : wordLength? w (d :: cs) = none := by
  obtain ⟨w, rfl⟩ := List.head?_eq_some_iff.mp h
  simp [wordLength?, hd]

theorem unsignedLength?_minus (cs : List Char) : unsignedLength? ('-' :: cs) = none := by
  have hminus : ∀ c ∈ ('-' :: cs).head?, Text.isDecimalDigit c = false := by
    simp only [List.head?_cons, Option.mem_some_iff, forall_eq']
    decide
  rw [unsignedLength?_of_other hminus]
  exact wordLength?_of_ne (c := 'i') rfl (by decide) cs

/-- In front of a word, a boundary is the start of the word. -/
private theorem isBoundary_of_wordLength? {w : List Char} {c : Char} {n : Nat}
    (h : w.head? = some c)
    (hc : Text.isWordChar c) (hn : wordLength? w cs = some n) (before : Option Char) :
    isBoundary before cs 0 = !before.any Text.isWordChar := by
  have hstarts : w.isPrefixOf cs := by
    simp only [wordLength?, Option.ite_none_right_eq_some, Bool.and_eq_true] at hn
    exact hn.1.1
  obtain ⟨rest, rfl⟩ := List.isPrefixOf_iff_prefix.mp hstarts
  rw [isBoundary_zero, List.head?_append, h, Option.some_or, Option.any_some, hc, Bool.bne_true]

/-- Behind a boundary, what is only found at the start of a word is found where no word character
is in front. -/
private theorem first?_boundary_both_eq (h : ∀ n, p.first? before cs = some n →
      isBoundary before cs 0 = !before.any Text.isWordChar) :
    (both boundary p).first? before cs =
      if before.any Text.isWordChar then none else p.first? before cs := by
  rw [first?_boundary_both]
  cases hfirst : p.first? before cs with
  | none => simp
  | some n =>
    rw [h n hfirst]
    cases before.any Text.isWordChar <;> rfl

private theorem first?_nan (before : Option Char) (cs : List Char) :
    (both boundary (both (word "NaN".toList) boundary)).first? before cs =
      if before.any Text.isWordChar then none else wordLength? "NaN".toList cs := by
  have hword := first?_word_boundary (w := "NaN".toList) (c := 'N') rfl (by decide) before cs
  rw [first?_boundary_both_eq, hword]
  intro n hn
  exact isBoundary_of_wordLength? (c := 'N') rfl (by decide) (hword.symm.trans hn) before

/-- **Numbers.** A match for the pattern is found by trying all digits, with a fraction and
without it. -/
theorem first?_numberPattern (before : Option Char) (cs : List Char) :
    numberPattern.first? before cs = numberLength? before cs := by
  rw [numberPattern, first?_either, first?_both, lengths_perhaps_minus, first?_nan]
  simp only [first?_unsignedPattern]
  by_cases hminus : cs.head? = some '-'
  · obtain ⟨rest, rfl⟩ := List.head?_eq_some_iff.mp hminus
    have hnan := wordLength?_of_ne (w := "NaN".toList) (c := 'N') (d := '-') rfl (by decide) rest
    rw [if_pos hminus, hnan, ite_self, Option.or_none, List.findSome?_cons, List.drop_one,
      List.tail_cons, List.findSome?_singleton, List.drop_zero, unsignedLength?_minus]
    cases hfirst : unsignedLength? rest <;> simp [numberLength?, hfirst, Nat.add_comm]
  · rw [if_neg hminus, List.findSome?_singleton, List.drop_zero, numberLength?]
    · cases unsignedLength? cs <;> simp
    · rintro rest rfl
      exact hminus rfl

/-- **Truth values.** -/
theorem first?_boolPattern (before : Option Char) (cs : List Char) :
    boolPattern.first? before cs = boolLength? before cs := by
  have htrue := first?_word_boundary (w := "true".toList) (c := 'e') rfl (by decide) before cs
  have hfalse := first?_word_boundary (w := "false".toList) (c := 'e') rfl (by decide) before cs
  have hwords :
      (both (either (word "true".toList) (word "false".toList)) boundary).first? before cs =
        (wordLength? "true".toList cs).or (wordLength? "false".toList cs) := by
    rw [first?_both_boundary] at htrue hfalse ⊢
    rw [lengths, List.find?_append, htrue, hfalse]
  rw [boolPattern, boolLength?, first?_boundary_both_eq, hwords]
  intro n hn
  rcases Option.or_eq_some_iff.mp (hwords.symm.trans hn) with hn | ⟨-, hn⟩
  · exact isBoundary_of_wordLength? (c := 't') rfl (by decide) hn before
  · exact isBoundary_of_wordLength? (c := 'f') rfl (by decide) hn before

end Highlight

end Reckon
