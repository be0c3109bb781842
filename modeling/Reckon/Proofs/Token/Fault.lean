import Reckon.Proofs.Token.LiteralUnit
import Reckon.Proofs.Token.Tiling

/-!
# Where a text has no token

Lexing stops at the first token that is none. What stands in front of it has tokens, and the error
is the one that the text from there on has by itself (`Token.lex_error_local`). The lexer loop keeps
the first of these facts: each step leaves a front part that lexes without what follows
(`Token.exists_of_lexFrom_error`). The second comes from positions being offsets.

What can be wrong with one token is listed by `Token.Offends`. All errors are at the start of the
token, but for an escape that is not known, which is further on in a literal.
-/

namespace Reckon

open LiteralUnit

namespace Token

/-! ### One token -/

/-- `Offends c rest err`: the token that starts with `c`, with `rest` behind it, has the error
`err`, at an offset from `c`. -/
inductive Offends (c : Char) (rest : List Char) : LexError → Prop where
  | character (hc : startsSymbol c) (hsymbol : Symbol.ofChar? c = none) :
      Offends c rest ⟨.unexpectedCharacter c, 0⟩
  | number {run : List Char} (hc : isNumeralChar c) (hrun : rest.takeWhile isNumeralChar = run)
      (hpoints : 1 < (c :: run).count '.' ∨ c :: run = ['.']) :
      Offends c rest ⟨.malformedNumber (String.ofList (c :: run)), 0⟩
  | string (hc : c = '"') : Offends c rest ⟨.unterminatedString, 0⟩
  | char {fault : LexFault} (hc : c = '\'')
      (hfault : fault ∈ [.unterminatedChar, .charLiteralTooLong, .emptyCharLiteral]) :
      Offends c rest ⟨fault, 0⟩
  | escape {us : List LiteralUnit} {text : List Char} {letter : Char} {more : List Char}
      (hc : c = '"' ∨ c = '\'') (hrest : rest = spell us ++ '\\' :: letter :: more)
      (hus : StandFor c us text) (hletter : Text.escapes.lookup letter = none) :
      Offends c rest ⟨.unknownEscape letter, (spell us).length + 1⟩

variable {c : Char} {rest : List Char} {err : LexError}

private theorem offends_of_stringBody (h : stringBody 1 rest = .error err) :
    Offends '"' rest err := by
  rcases stringBody_eq_error_iff.mp h with
    ⟨us, text, letter, more, hrest, hus, hletter, rfl⟩ | ⟨us, text, -, -, rfl⟩
  · rw [Nat.add_comm]
    exact .escape (.inl rfl) hrest hus hletter
  · exact .string rfl

private theorem offends_of_charBody (h : charBody rest = .error err) : Offends '\'' rest err := by
  rcases charBody_eq_error_iff.mp h with ⟨-, rfl⟩ | ⟨letter, more, hrest, hletter, rfl⟩ |
    ⟨u, d, more, -, -, -, rfl⟩ | ⟨-, rfl⟩
  · exact .char rfl (by simp)
  · exact .escape (.inr rfl) hrest (standFor_nil _) hletter
  · exact .char rfl (by simp)
  · exact .char rfl (by simp)

private theorem offends_of_numeral {run : List Char} (hc : isNumeralChar c)
    (hrun : rest.takeWhile isNumeralChar = run) (h : numeral (c :: run) = .error err) :
    Offends c rest err := by
  unfold numeral at h
  split at h
  next hpoints =>
    obtain rfl : _ = err := Except.error.inj h
    exact .number hc hrun (by simpa using hpoints)
  next => simp at h

private theorem offends_of_scanSymbol (hc : startsSymbol c) (h : scanSymbol c rest = .error err) :
    Offends c rest err := by
  unfold scanSymbol at h
  repeat' split at h
  all_goals try simp only [reduceCtorEq] at h
  next hsymbol =>
    obtain rfl : _ = err := by simpa using h
    exact .character hc hsymbol

/-- **Tokens that are none.** The scanner has no other errors. -/
theorem offends_of_scan (h : scan c rest = .error err) : Offends c rest err := by
  by_cases hc : startsSymbol c
  · exact offends_of_scanSymbol hc (by rwa [scan_of_startsSymbol hc] at h)
  cases hnumeral : isNumeralChar c with
  | true =>
    rcases hvalue : numeral (c :: rest.takeWhile isNumeralChar) with err' | x
    · obtain rfl : err' = err := by simpa [scan, hnumeral, hvalue] using h
      exact offends_of_numeral hnumeral rfl hvalue
    · simp [scan, hnumeral, hvalue] at h
  | false =>
    cases hstart : isIdentifierStart c with
    | true => simp [scan, hnumeral, hstart] at h
    | false =>
      by_cases hstring : c = '"'
      · subst hstring
        rw [scan_string, map_eq_error_iff] at h
        exact offends_of_stringBody h
      · obtain rfl : c = '\'' := by simpa [startsSymbol, hnumeral, hstart, hstring] using hc
        rw [scan_char, map_eq_error_iff] at h
        exact offends_of_charBody h

namespace Offends

/-- An error is at a character of the text. -/
theorem pos_le (h : Offends c rest err) : err.pos ≤ rest.length := by
  cases h with
  | character | number | string | char => exact Nat.zero_le _
  | escape hc hrest hus hletter =>
    simp only [hrest, List.length_append, List.length_cons]
    omega

/-- It is at the start of the token, unless it is an escape that is not known. -/
theorem pos_eq_zero (h : Offends c rest err)
    (hfault : ∀ letter, err.fault ≠ .unknownEscape letter) : err.pos = 0 := by
  cases h with
  | character | number | string | char => rfl
  | escape => exact absurd rfl (hfault _)

/-- An escape that is not known stands in a literal, where its backslash is. -/
theorem exists_escape (h : Offends c rest err) {letter : Char}
    (hfault : err.fault = .unknownEscape letter) :
    (c = '"' ∨ c = '\'') ∧ ∃ us text more, rest = spell us ++ '\\' :: letter :: more ∧
      StandFor c us text ∧ err.pos = (spell us).length + 1 := by
  cases h with
  | character | number | string => simp at hfault
  | char hc hmem =>
    subst hfault
    simp at hmem
  | @escape us text letter' more hc hrest hus hletter =>
    obtain rfl : letter' = letter := by simpa using hfault
    exact ⟨hc, us, text, more, hrest, hus, rfl⟩

end Offends

/-! ### Texts -/

variable {pos : Nat} {cs : List Char}

/-- **The lexer loop.** If a text has an error, it is one of the token at some offset `n`, and what
stands in front of that token has tokens with nothing behind it. -/
theorem exists_of_lexFrom_error (h : lexFrom pos cs = .error err) :
    ∃ n c rest err₀ tokens, cs.drop n = c :: rest ∧ Text.isBlank c = false ∧
      scan c rest = .error err₀ ∧ err = err₀.shift (pos + n) ∧ Lexes pos (cs.take n) tokens := by
  induction pos, cs using lexFrom.induct with
  | case1 pos => simp [lexFrom_nil] at h
  | case2 pos c rest hblank ih =>
    rw [lexFrom_blank hblank] at h
    obtain ⟨n, d, rest', err₀, tokens, hdrop, hd, hscan, rfl, hlexes⟩ := ih h
    refine ⟨n + 1, d, rest', err₀, tokens, hdrop, hd, hscan, ?_, .blank hblank hlexes⟩
    rw [Nat.add_assoc, Nat.add_comm 1]
  | case3 pos c rest hblank err' hscan =>
    rw [Bool.not_eq_true] at hblank
    obtain rfl : err'.shift pos = err := by
      simpa [lexFrom_of_scan_error hblank hscan] using h
    exact ⟨0, c, rest, err', _, rfl, hblank, hscan, rfl, .stop pos⟩
  | case4 pos c rest hblank lexeme width hscan err' hrest ih =>
    rw [Bool.not_eq_true] at hblank
    obtain rfl : err' = err := by
      simpa [lexFrom_of_scan_ok hblank hscan, hrest, Except.map] using h
    obtain ⟨n, d, rest', err₀, tokens, hdrop, hd, hscan₀, rfl, hlexes⟩ := ih hrest
    have hscanned := scan_eq_ok_iff.mp hscan
    obtain ⟨k, rfl⟩ : ∃ k, width = k + 1 := ⟨width - 1, by have := hscanned.width_pos_le; omega⟩
    -- The token ends in front of the offending one, so cutting the text there leaves it alone.
    rw [Nat.add_sub_cancel] at hdrop hlexes
    have hpiece : (rest.take (k + n)).drop k = (rest.drop k).take n := by
      rw [List.drop_take, Nat.add_sub_cancel_left]
    refine ⟨k + n + 1, d, rest', err₀, ⟨lexeme, pos⟩ :: tokens, ?_, hd, hscan₀, ?_, ?_⟩
    · rw [List.drop_succ_cons, ← List.drop_drop, hdrop]
    · rw [Nat.add_assoc, Nat.add_right_comm k 1]
    · refine .token hblank (hscanned.take (by omega)) ?_
      rwa [Nat.add_sub_cancel, hpiece]
  | case5 pos c rest hblank lexeme width hscan tokens hrest ih =>
    rw [Bool.not_eq_true] at hblank
    simp [lexFrom_of_scan_ok hblank hscan, hrest, Except.map] at h

/-- No text has a literal that is taken for a character and is none. -/
theorem isInternal_eq_false_of_lex {source : String} (h : lex source = .error err) :
    err.isInternal = false := by
  obtain ⟨n, c, rest, err₀, tokens, -, -, hscan, rfl, -⟩ := exists_of_lexFrom_error h
  cases offends_of_scan hscan with
  | character | number | string | escape => rfl
  | char hc hfault =>
    simp only [List.mem_cons, List.not_mem_nil, or_false] at hfault
    rcases hfault with rfl | rfl | rfl <;> rfl

/-- **Errors are local and well placed.** If a text has an error, then at some offset `s` stands the
first character of a token that has this error.

* The offset of the error is not in front of `s`, and it is one of the text.
* What stands in front of `s` has tokens, and the text from `s` on has the same error by itself, at
  an offset from there.
* The error is at `s`, unless it is an escape that is not known. In that case a quote stands at
  `s`, and the error is at the backslash, behind units that do not close the literal. -/
theorem lex_error_local {source : String} {err : LexError} (h : lex source = .error err) :
    ∃ s c rest, source.toList.drop s = c :: rest ∧ Text.isBlank c = false ∧
      Offends c rest ⟨err.fault, err.pos - s⟩ ∧
      s ≤ err.pos ∧ err.pos < source.length ∧
      (∃ tokens, lex (Text.slice source 0 s) = .ok tokens) ∧
      lex (Text.slice source s source.length) = .error ⟨err.fault, err.pos - s⟩ ∧
      ((∀ letter, err.fault ≠ .unknownEscape letter) → err.pos = s) ∧
      ∀ letter, err.fault = .unknownEscape letter → (c = '"' ∨ c = '\'') ∧
        ∃ us text more, rest = spell us ++ '\\' :: letter :: more ∧ StandFor c us text ∧
          err.pos = s + 1 + (spell us).length := by
  -- All tokens in front of `s` are whole, so the error is the one the scanner finds there.
  obtain ⟨s, c, rest, ⟨fault, offset⟩, tokens, hdrop, hc, hscan, rfl, hlexes⟩ :=
    exists_of_lexFrom_error h
  have hoffends := offends_of_scan hscan
  have hlength : source.length = s + (rest.length + 1) := by
    have hdropped := congrArg List.length hdrop
    simp only [List.length_drop, List.length_cons, String.length_toList] at hdropped
    omega
  have hoffset : 0 + s + offset - s = offset := by omega
  refine ⟨s, c, rest, hdrop, hc, ?_⟩
  simp only [LexError.shift, hoffset]
  refine ⟨hoffends, by omega, ?_, ⟨tokens, ?_⟩, ?_, fun hfault => ?_, fun letter hfault => ?_⟩
  · have hle : offset ≤ rest.length := hoffends.pos_le
    omega
  · rw [lex, Text.slice, String.toList_ofList, List.drop_zero, Nat.sub_zero]
    exact lexFrom_eq_ok_iff.mpr hlexes
  · have hslice : (Text.slice source s source.length).toList = c :: rest := by
      rw [Text.slice, String.toList_ofList, hdrop, List.take_of_length_le]
      rw [List.length_cons]
      omega
    rw [lex, hslice, lexFrom_of_scan_error hc hscan]
    simp [LexError.shift]
  · have hzero : offset = 0 := hoffends.pos_eq_zero hfault
    omega
  · obtain ⟨hquote, us, text, more, hrest, hus, hpos⟩ := hoffends.exists_escape hfault
    refine ⟨hquote, us, text, more, hrest, hus, ?_⟩
    simp only at hpos
    omega

/-- At a literal behind other tokens, which holds a known escape and then one that is not known. -/
theorem lex_error_local_escape :
    lex "let s = \"\\n\\q\"; 1" = .error ⟨.unknownEscape 'q', 11⟩ ∧
    ∃ s, s < 11 ∧ (∃ tokens, lex (Text.slice "let s = \"\\n\\q\"; 1" 0 s) = .ok tokens) ∧
      lex (Text.slice "let s = \"\\n\\q\"; 1" s 17) = .error ⟨.unknownEscape 'q', 11 - s⟩ := by
  have hlex : lex "let s = \"\\n\\q\"; 1" = .error ⟨.unknownEscape 'q', 11⟩ := by
    with_unfolding_all rfl
  obtain ⟨s, c, rest, -, -, -, -, -, hfront, hback, -, hescape⟩ := lex_error_local hlex
  obtain ⟨-, us, text, more, -, -, hpos⟩ := hescape 'q' rfl
  exact ⟨hlex, s, by simp only at hpos; omega, hfront, hback⟩

end Token

end Reckon
