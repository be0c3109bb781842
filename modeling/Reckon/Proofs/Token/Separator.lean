import Reckon.Proofs.Token.Literal

/-!
# Lexing across a separator

No token goes on over a semicolon: no number and no name contains one, and no symbol of two
characters ends in one. Only a literal does, and a literal that is closed in front of it is not
touched. So the tokens of a text stay what they are in front of a semicolon
(`Token.exists_lexFrom_append`), and what stands behind it is lexed as if it stood alone, further
left (`Token.lexFrom_add`).

How a text gets its tokens is said by a relation with one rule for a blank and one for a token
(`Token.Lexes`). The first fact is proved by induction on it.
-/

namespace Reckon

namespace Token

/-! ### One token -/

/-- No token without quotes goes on with the character. -/
structure Separates (sep : Char) : Prop where
  isNumeralChar_eq : isNumeralChar sep = false
  isIdentifierChar_eq : isIdentifierChar sep = false
  ofPair?_eq : ∀ c, Symbol.ofPair? c sep = none

/-- These are the characters that a symbol of two characters can end in. -/
theorem ofPair?_eq_none {d : Char} (h : d ∉ ['*', '=', '>', '<']) (c : Char) :
    Symbol.ofPair? c d = none := by
  unfold Symbol.ofPair?
  split <;> first | rfl | simp at h

theorem separates_semicolon : Separates ';' where
  isNumeralChar_eq := by decide
  isIdentifierChar_eq := by decide
  ofPair?_eq := ofPair?_eq_none (by decide)

variable {sep c : Char} {rest : List Char} {lexeme : Lexeme} {width : Nat}

/-- A character that starts no escape, whether it is the last one or not, is no backslash. -/
theorem ne_backslash (h : c = '\\' → rest = [] → False)
    (h' : ∀ letter rest', c = '\\' → rest = letter :: rest' → False) : c ≠ '\\' := by
  rintro rfl
  cases rest with
  | nil => exact h rfl rfl
  | cons letter rest' => exact h' letter rest' rfl rfl

/-- A body that is closed is read the same with anything behind it, and it is closed among its own
characters. -/
theorem stringBody_append {offset past : Nat} {cs : List Char}
    (h : stringBody offset rest = .ok (cs, past)) (more : List Char) :
    stringBody offset (rest ++ more) = .ok (cs, past) ∧
      offset < past ∧ past ≤ offset + rest.length := by
  fun_induction stringBody offset rest generalizing cs with
  | case1 | case2 | case3 | case4 | case7 => simp at h
  | case5 offset letter rest c hletter cs' past' hbody ih =>
    obtain ⟨rfl, rfl⟩ : c :: cs' = cs ∧ past' = past := by simpa using h
    obtain ⟨hread, hlt, hle⟩ := ih hbody
    refine ⟨stringBody_unit hletter hread, by omega, ?_⟩
    simp only [List.length_cons]
    omega
  | case6 offset rest hslash hslash' =>
    obtain ⟨rfl, rfl⟩ : [] = cs ∧ offset + 1 = past := by simpa using h
    refine ⟨by simp [stringBody], by omega, ?_⟩
    simp only [List.length_cons]
    omega
  | case8 offset c rest hslash hslash' hquote cs' past' hbody ih =>
    obtain ⟨rfl, rfl⟩ : c :: cs' = cs ∧ past' = past := by simpa using h
    obtain ⟨hread, hlt, hle⟩ := ih hbody
    have hplain := ne_backslash hslash hslash'
    refine ⟨stringBody_plain hquote hplain hread, by omega, ?_⟩
    simp only [List.length_cons]
    omega

theorem closeChar_append {d : Char} {offset past : Nat}
    (h : closeChar c offset rest = .ok (d, past)) (more : List Char) :
    closeChar c offset (rest ++ more) = .ok (d, past) ∧
      past = offset + 1 ∧ 0 < rest.length := by
  by_cases hclose : rest.head? = some '\''
  · obtain ⟨rest', rfl⟩ := List.head?_eq_some_iff.mp hclose
    obtain ⟨rfl, rfl⟩ : c = d ∧ offset + 1 = past := by simpa [closeChar_eq] using h
    simp [closeChar_eq]
  · rw [closeChar_eq, if_neg hclose] at h
    split at h <;> simp at h

theorem charBody_plain (hquote : c ≠ '\'') (hslash : c ≠ '\\') (rest : List Char) :
    charBody (c :: rest) = closeChar c 2 rest := by
  rw [charBody, if_neg hquote]
  · simp [hslash]
  · simp [hslash]

/-- The same of a character body. -/
theorem charBody_append {d : Char} {past : Nat} (h : charBody rest = .ok (d, past))
    (more : List Char) :
    charBody (rest ++ more) = .ok (d, past) ∧ 0 < past ∧ past ≤ rest.length + 1 := by
  fun_cases charBody rest with
  | case1 | case2 | case5 => simp [charBody] at h
  | case3 letter rest hletter => simp [charBody, hletter] at h
  | case4 letter rest c hletter =>
    have hclose : closeChar c 3 rest = .ok (d, past) := by simpa [charBody, hletter] using h
    obtain ⟨hread, rfl, hlt⟩ := closeChar_append hclose more
    refine ⟨by simpa [charBody, hletter] using hread, by omega, ?_⟩
    simp only [List.length_cons]
    omega
  | case6 c rest hslash hslash' hquote =>
    have hbody := charBody_plain hquote (ne_backslash hslash hslash')
    rw [hbody] at h
    obtain ⟨hread, rfl, hlt⟩ := closeChar_append h more
    refine ⟨by rwa [List.cons_append, hbody], by omega, ?_⟩
    simp only [List.length_cons]
    omega

/-- Runs of characters end at a character that is none of them. -/
theorem takeWhile_append_separator {test : Char → Bool} (hsep : test sep = false)
    (more : List Char) : (rest ++ sep :: more).takeWhile test = rest.takeWhile test := by
  induction rest with
  | nil => simp [hsep]
  | cons c rest ih =>
    cases hc : test c <;> simp [hc, ih]

/-- The character starts neither a number nor a name nor a literal. -/
def startsSymbol (c : Char) : Bool :=
  !isNumeralChar c && !isIdentifierStart c && c != '"' && c != '\''

/-- `Scanned c rest lexeme width`: with `rest` behind it, the character starts a token that says
`lexeme` and takes `width` characters. -/
inductive Scanned : Char → List Char → Lexeme → Nat → Prop where
  | number {c : Char} {rest run : List Char} {x : Binary64} (hc : isNumeralChar c)
      (hrun : rest.takeWhile isNumeralChar = run) (hvalue : numeral (c :: run) = .ok x) :
      Scanned c rest (.number x) (run.length + 1)
  | identifier {c : Char} {rest run : List Char} (hc : isNumeralChar c = false)
      (hstart : isIdentifierStart c) (hrun : rest.takeWhile isIdentifierChar = run) :
      Scanned c rest (.identifier (String.ofList (c :: run))) (run.length + 1)
  | string {rest cs : List Char} {past : Nat} (hbody : stringBody 1 rest = .ok (cs, past)) :
      Scanned '"' rest (.string (String.ofList cs)) past
  | char {rest : List Char} {d : Char} {past : Nat} (hbody : charBody rest = .ok (d, past)) :
      Scanned '\'' rest (.char d) past
  | pair {c d : Char} {s : Symbol} (rest : List Char) (hc : startsSymbol c)
      (hpair : Symbol.ofPair? c d = some s) : Scanned c (d :: rest) (.symbol s) 2
  | single {c : Char} {rest : List Char} {s : Symbol} (hc : startsSymbol c)
      (hpair : rest.head?.bind (Symbol.ofPair? c) = none) (hsingle : Symbol.ofChar? c = some s) :
      Scanned c rest (.symbol s) 1

private theorem scanned_of_scanSymbol (hc : startsSymbol c)
    (h : scanSymbol c rest = .ok (lexeme, width)) : Scanned c rest lexeme width := by
  unfold scanSymbol at h
  split at h
  next s hpair =>
    obtain ⟨rfl, rfl⟩ : .symbol s = lexeme ∧ 2 = width := by simpa using h
    cases rest with
    | nil => simp at hpair
    | cons d rest => exact .pair rest hc hpair
  next hpair =>
    split at h
    next s hsingle =>
      obtain ⟨rfl, rfl⟩ : .symbol s = lexeme ∧ 1 = width := by simpa using h
      exact .single hc hpair hsingle
    · simp at h

theorem scan_of_startsSymbol (hc : startsSymbol c) : scan c rest = scanSymbol c rest := by
  obtain ⟨⟨⟨hnumeral, hstart⟩, hstring⟩, hchar⟩ : ((isNumeralChar c = false ∧
      isIdentifierStart c = false) ∧ c ≠ '"') ∧ c ≠ '\'' := by
    simpa [startsSymbol] using hc
  simp [scan, hnumeral, hstart, hstring, hchar]

/-- **Tokens.** The scanner returns a token exactly where there is one. -/
theorem scan_eq_ok_iff : scan c rest = .ok (lexeme, width) ↔ Scanned c rest lexeme width := by
  constructor
  · intro h
    by_cases hc : startsSymbol c
    · exact scanned_of_scanSymbol hc (by rwa [scan_of_startsSymbol hc] at h)
    -- No symbol, so what begins here is a number, a name or a literal, tried in this order.
    cases hnumeral : isNumeralChar c with
    | true =>
      rcases hvalue : numeral (c :: rest.takeWhile isNumeralChar) with err | x
      · simp [scan, hnumeral, hvalue] at h
      · obtain ⟨rfl, rfl⟩ : .number x = lexeme ∧ _ = width := by
          simpa [scan, hnumeral, hvalue] using h
        exact .number hnumeral rfl hvalue
    | false =>
      cases hstart : isIdentifierStart c with
      | true =>
        obtain ⟨rfl, rfl⟩ : _ = lexeme ∧ _ = width := by
          simpa only [scan, hnumeral, hstart, Bool.false_eq_true, if_false, if_true,
            Except.ok.injEq, Prod.mk.injEq] using h
        exact .identifier hnumeral hstart rfl
      | false =>
        by_cases hstring : c = '"'
        · subst hstring
          rcases hbody : stringBody 1 rest with err | ⟨cs, past⟩
          · simp [scan, hnumeral, hstart, hbody] at h
          · obtain ⟨rfl, rfl⟩ : .string (String.ofList cs) = lexeme ∧ past = width := by
              simpa [scan, hnumeral, hstart, hbody] using h
            exact .string hbody
        · obtain rfl : c = '\'' := by
            simpa [startsSymbol, hnumeral, hstart, hstring] using hc
          rcases hbody : charBody rest with err | ⟨d, past⟩
          · simp [scan, hnumeral, hstart, hbody] at h
          · obtain ⟨rfl, rfl⟩ : .char d = lexeme ∧ past = width := by
              simpa [scan, hnumeral, hstart, hbody] using h
            exact .char hbody
  · intro h
    cases h with
    | number hc hrun hvalue => simp [scan, hc, hrun, hvalue]
    | identifier hc hstart hrun => simp [scan, hc, hstart, hrun]
    | string hbody =>
      have hplain : isNumeralChar '"' = false ∧ isIdentifierStart '"' = false := by decide
      simp [scan, hplain, hbody]
    | char hbody =>
      have hplain : isNumeralChar '\'' = false ∧ isIdentifierStart '\'' = false := by decide
      simp [scan, hplain, hbody]
    | pair rest hc hpair => simp [scan_of_startsSymbol hc, scanSymbol, hpair]
    | single hc hpair hsingle => simp [scan_of_startsSymbol hc, scanSymbol, hpair, hsingle]

namespace Scanned

private theorem lexeme_ne (h : Scanned c rest lexeme width) : lexeme ≠ .endOfInput := by
  cases h <;> simp

/-- A token takes at least its first character, and no more than there are. -/
theorem width_pos_le (h : Scanned c rest lexeme width) : 0 < width ∧ width ≤ rest.length + 1 := by
  cases h with
  | number hc hrun hvalue =>
    subst hrun
    exact ⟨Nat.succ_pos _, Nat.succ_le_succ (List.takeWhile_sublist _).length_le⟩
  | identifier hc hstart hrun =>
    subst hrun
    exact ⟨Nat.succ_pos _, Nat.succ_le_succ (List.takeWhile_sublist _).length_le⟩
  | string hbody =>
    have hbounds := (stringBody_append hbody []).2
    omega
  | char hbody => exact (charBody_append hbody []).2
  | pair rest hc hpair => simp
  | single hc hpair hsingle => simp

/-- **A token in front of a separator.** It is the same token. -/
theorem append (h : Scanned c rest lexeme width) (hsep : Separates sep) (more : List Char) :
    Scanned c (rest ++ sep :: more) lexeme width := by
  cases h with
  | number hc hrun hvalue =>
    exact .number hc ((takeWhile_append_separator hsep.isNumeralChar_eq more).trans hrun) hvalue
  | identifier hc hstart hrun =>
    exact .identifier hc hstart
      ((takeWhile_append_separator hsep.isIdentifierChar_eq more).trans hrun)
  | string hbody => exact .string (stringBody_append hbody _).1
  | char hbody => exact .char (charBody_append hbody _).1
  | pair rest hc hpair => exact .pair _ hc hpair
  | single hc hpair hsingle =>
    refine .single hc ?_ hsingle
    cases rest with
    | nil => exact hsep.ofPair?_eq c
    | cons d rest => exact hpair

end Scanned

/-! ### Texts -/

theorem lexFrom_blank (hblank : Text.isBlank c) (pos : Nat) :
    lexFrom pos (c :: rest) = lexFrom (pos + 1) rest := by
  rw [lexFrom.eq_def]
  simp [hblank]

theorem lexFrom_of_scan_error {err : LexError} (hblank : Text.isBlank c = false)
    (h : scan c rest = .error err) (pos : Nat) :
    lexFrom pos (c :: rest) = .error (err.shift pos) := by
  rw [lexFrom.eq_def]
  simp [hblank, h]

theorem lexFrom_of_scan_ok (hblank : Text.isBlank c = false)
    (h : scan c rest = .ok (lexeme, width)) (pos : Nat) :
    lexFrom pos (c :: rest) =
      (lexFrom (pos + width) (rest.drop (width - 1))).map (⟨lexeme, pos⟩ :: ·) := by
  rw [lexFrom.eq_def]
  simp only [hblank, h, Bool.false_eq_true, if_false]
  cases lexFrom (pos + width) (rest.drop (width - 1)) <;> rfl

/-- A text of blanks has no tokens but the marker of its end. -/
theorem lexFrom_of_forall_blank {cs : List Char} (h : ∀ c ∈ cs, Text.isBlank c) (pos : Nat) :
    lexFrom pos cs = .ok [⟨.endOfInput, pos + cs.length⟩] := by
  induction cs generalizing pos with
  | nil => exact lexFrom_nil pos
  | cons c rest ih =>
    obtain ⟨hc, hrest⟩ := List.forall_mem_cons.mp h
    rw [lexFrom_blank hc, ih hrest, List.length_cons, Nat.add_assoc, Nat.add_comm 1]

/-- **Positions.** Further right, a text has the same tokens, and the same error if it has none. -/
theorem lexFrom_add (offset pos : Nat) (cs : List Char) :
    lexFrom (offset + pos) cs =
      ((lexFrom pos cs).map (·.map (shift offset))).mapError (LexError.shift offset) := by
  induction pos, cs using lexFrom.induct with
  | case1 pos =>
    rw [lexFrom_nil, lexFrom_nil]
    rfl
  | case2 pos c rest hblank ih =>
    rw [lexFrom_blank hblank, lexFrom_blank hblank]
    exact ih
  | case3 pos c rest hblank err hscan =>
    rw [Bool.not_eq_true] at hblank
    rw [lexFrom_of_scan_error hblank hscan, lexFrom_of_scan_error hblank hscan]
    simp [Except.map, Except.mapError, LexError.shift, Nat.add_assoc]
  | case4 pos c rest hblank lexeme width hscan err hrest ih =>
    rw [Bool.not_eq_true] at hblank
    rw [lexFrom_of_scan_ok hblank hscan, lexFrom_of_scan_ok hblank hscan, Nat.add_assoc, ih, hrest]
    rfl
  | case5 pos c rest hblank lexeme width hscan tokens hrest ih =>
    rw [Bool.not_eq_true] at hblank
    rw [lexFrom_of_scan_ok hblank hscan, lexFrom_of_scan_ok hblank hscan, Nat.add_assoc, ih, hrest]
    rfl

/-! ### The lexer as a relation

One rule for each thing that a text can start with, for proofs by induction on how a text was
lexed. -/

/-- `Lexes pos cs tokens`: the characters `cs`, which start at offset `pos`, have the tokens
`tokens`. -/
inductive Lexes : Nat → List Char → List Token → Prop where
  | stop (pos : Nat) : Lexes pos [] [⟨.endOfInput, pos⟩]
  | blank {pos : Nat} {c : Char} {rest : List Char} {tokens : List Token} (hc : Text.isBlank c)
      (h : Lexes (pos + 1) rest tokens) : Lexes pos (c :: rest) tokens
  | token {pos width : Nat} {c : Char} {rest : List Char} {lexeme : Lexeme} {tokens : List Token}
      (hc : Text.isBlank c = false) (hscan : Scanned c rest lexeme width)
      (h : Lexes (pos + width) (rest.drop (width - 1)) tokens) :
      Lexes pos (c :: rest) (⟨lexeme, pos⟩ :: tokens)

variable {pos : Nat} {cs : List Char} {tokens : List Token}

theorem lexFrom_eq_ok_iff : lexFrom pos cs = .ok tokens ↔ Lexes pos cs tokens := by
  constructor
  · intro h
    induction pos, cs using lexFrom.induct generalizing tokens with
    | case1 pos =>
      obtain rfl : [⟨.endOfInput, pos⟩] = tokens := by simpa [lexFrom_nil] using h
      exact .stop pos
    | case2 pos c rest hblank ih =>
      rw [lexFrom_blank hblank] at h
      exact .blank hblank (ih h)
    | case3 pos c rest hblank err hscan =>
      rw [Bool.not_eq_true] at hblank
      simp [lexFrom_of_scan_error hblank hscan] at h
    | case4 pos c rest hblank lexeme width hscan err hrest ih =>
      rw [Bool.not_eq_true] at hblank
      simp [lexFrom_of_scan_ok hblank hscan, hrest, Except.map] at h
    | case5 pos c rest hblank lexeme width hscan tokens' hrest ih =>
      rw [Bool.not_eq_true] at hblank
      obtain rfl : ⟨lexeme, pos⟩ :: tokens' = tokens := by
        simpa [lexFrom_of_scan_ok hblank hscan, hrest, Except.map] using h
      exact .token hblank (scan_eq_ok_iff.mp hscan) (ih hrest)
  · intro h
    induction h with
    | stop pos => exact lexFrom_nil pos
    | blank hc h ih => rwa [lexFrom_blank hc]
    | token hc hscan h ih => exact lexFrom_cons hc (scan_eq_ok_iff.mpr hscan) ih

/-- **Texts in front of a separator.** The tokens of a text end with the marker of its end and hold
no other. In front of a separator they are the same up to that marker, and the tokens from the
separator on follow. -/
theorem exists_lexFrom_append (hsep : Separates sep) (h : lexFrom pos cs = .ok tokens) :
    ∃ body, tokens = body ++ [⟨.endOfInput, pos + cs.length⟩] ∧ (∀ t ∈ body, t.isEnd = false) ∧
      ∀ more, lexFrom pos (cs ++ sep :: more) =
        (lexFrom (pos + cs.length) (sep :: more)).map (body ++ ·) := by
  rw [lexFrom_eq_ok_iff] at h
  induction h with
  | stop pos =>
    refine ⟨[], rfl, by simp, fun more => ?_⟩
    simp only [List.nil_append, List.length_nil, Nat.add_zero]
    cases lexFrom pos (sep :: more) <;> rfl
  | @blank pos c rest tokens hblank h ih =>
    obtain ⟨body, hbody, hends, hread⟩ := ih
    have hstop : pos + 1 + rest.length = pos + (c :: rest).length := by
      rw [List.length_cons]
      omega
    rw [hstop] at hbody hread
    refine ⟨body, hbody, hends, fun more => ?_⟩
    rw [List.cons_append, lexFrom_blank hblank]
    exact hread more
  | @token pos width c rest lexeme tokens hblank hscanned h ih =>
    -- The token ends within the text, so dropping it leaves the separator where it is.
    obtain ⟨hpos, hle⟩ := hscanned.width_pos_le
    obtain ⟨body, rfl, hends, hread⟩ := ih
    have hstop : pos + width + (rest.drop (width - 1)).length = pos + (c :: rest).length := by
      rw [List.length_drop, List.length_cons]
      omega
    rw [hstop] at hread
    refine ⟨⟨lexeme, pos⟩ :: body, by rw [hstop]; rfl, ?_, fun more => ?_⟩
    · intro t ht
      rcases List.mem_cons.mp ht with rfl | ht
      · simpa [isEnd] using hscanned.lexeme_ne
      · exact hends t ht
    · have hscan' := scan_eq_ok_iff.mpr (hscanned.append hsep more)
      rw [List.cons_append, lexFrom_of_scan_ok hblank hscan',
        List.drop_append_of_le_length (by omega), hread more]
      cases lexFrom (pos + (c :: rest).length) (sep :: more) <;> rfl

private theorem lexFrom_semicolon (pos : Nat) (cs : List Char) :
    lexFrom pos (';' :: cs) = (lexFrom (pos + 1) cs).map (⟨.symbol .semicolon, pos⟩ :: ·) := by
  have hscan : scan ';' cs = .ok (.symbol .semicolon, 1) := by
    cases cs <;> rfl
  exact lexFrom_of_scan_ok (by decide) hscan pos

/-- **Texts joined by a semicolon.** If the first one has tokens, the whole has these, a semicolon
and the tokens of the second; otherwise it has the error of the second. -/
theorem exists_lex_append_semicolon {a : String} {tokens : List Token}
    (h : lex a = .ok tokens) :
    ∃ body, tokens = body ++ [⟨.endOfInput, a.length⟩] ∧ (∀ t ∈ body, t.isEnd = false) ∧
      ∀ b, lex (a ++ ";" ++ b) =
        ((lex b).map fun ts =>
          body ++ ⟨.symbol .semicolon, a.length⟩ :: ts.map (shift (a.length + 1))).mapError
            (LexError.shift (a.length + 1)) := by
  obtain ⟨body, hbody, hends, hread⟩ := exists_lexFrom_append separates_semicolon h
  rw [Nat.zero_add, String.length_toList] at hbody hread
  refine ⟨body, hbody, hends, fun b => ?_⟩
  have hchars : (a ++ ";" ++ b).toList = a.toList ++ ';' :: b.toList := by
    simp [String.toList_append]
  have hshift := lexFrom_add (a.length + 1) 0 b.toList
  rw [Nat.add_zero] at hshift
  rw [lex, hchars, hread, lexFrom_semicolon, hshift, ← lex]
  cases lex b <;> rfl

end Token

end Reckon
