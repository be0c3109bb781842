import Reckon.Proofs.Token.Spacing
import Reckon.Proofs.Value.ReadBack

/-!
# Spelling tokens

Each lexeme that can stand in a text is spelled in one way: numbers as they are displayed, strings
and characters as literals, names and symbols as they are. The spelling of a lexeme is one token
(`Token.lex_spelling`), and spellings with a blank between neighbours are the tokens they spell, in
order and where each of them starts (`Token.lex_spelled`).

The sign of a number is a token of its own, so only numbers without one are spelled here. The
infinities and NaN are spelled by names.
-/

namespace Reckon

namespace Lexeme

/-- How a lexeme is written. The end of the input is not. -/
def spelling : Lexeme → String
  | number x => x.display
  | identifier name => name
  | string s => (Value.string s).literal
  | char c => (Value.char c).literal
  | symbol s => s.spelling
  | endOfInput => ""

/-- The lexeme is written as one token: it is a finite number without a sign, an identifier that is
spelled as a name, a string, a character or a symbol. -/
def hasSpelling : Lexeme → Bool
  | number (.finite negative _ _) => !negative
  | number _ => false
  | identifier name => Text.isName name
  | string _ | char _ | symbol _ => true
  | endOfInput => false

/-- The spellings of some lexemes, with one character between neighbours. The characters are taken
from `gaps` in order. -/
def spelled (gaps : Nat → Char) : List Lexeme → String
  | [] => ""
  | [lexeme] => lexeme.spelling
  | lexeme :: next :: rest =>
    lexeme.spelling ++ String.singleton (gaps 0) ++ spelled (fun i => gaps (i + 1)) (next :: rest)

end Lexeme

namespace Token

/-- Some lexemes as tokens, the first one at `pos` and each of the others one character behind the
spelling of the one before it. -/
def placed (pos : Nat) : List Lexeme → List Token
  | [] => []
  | lexeme :: rest => ⟨lexeme, pos⟩ :: placed (pos + lexeme.spelling.length + 1) rest

private theorem map_lexeme_placed (pos : Nat) (lexemes : List Lexeme) :
    (placed pos lexemes).map lexeme = lexemes := by
  induction lexemes generalizing pos with
  | nil => rfl
  | cons lexeme rest ih => rw [placed, List.map_cons, ih]

theorem map_shift_placed (offset pos : Nat) (lexemes : List Lexeme) :
    (placed pos lexemes).map (shift offset) = placed (offset + pos) lexemes := by
  induction lexemes generalizing pos with
  | nil => rfl
  | cons lexeme rest ih =>
    rw [placed, List.map_cons, ih, placed, ← Nat.add_assoc, ← Nat.add_assoc]
    rfl

/-- The tokens behind the first one are placed as they are alone, further right. -/
theorem placed_zero_cons (lexeme : Lexeme) (rest : List Lexeme) :
    placed 0 (lexeme :: rest) =
      ⟨lexeme, 0⟩ :: (placed 0 rest).map (shift (lexeme.spelling.length + 1)) := by
  rw [placed, map_shift_placed, Nat.zero_add, Nat.add_zero]

/-! ### One token -/

/-- A text that is spelled as a name is one identifier. -/
theorem lex_name {name : String} (h : Text.isName name) :
    lex name = .ok [⟨.identifier name, 0⟩, ⟨.endOfInput, name.length⟩] := by
  obtain ⟨c, rest, hchars⟩ : ∃ c rest, name.toList = c :: rest := by
    refine List.exists_cons_of_ne_nil fun hnil => ?_
    simp [Text.isName, hnil] at h
  simp only [Text.isName, hchars, Bool.and_eq_true, List.all_eq_true] at h
  obtain ⟨hstart, hrest⟩ := h
  rw [← isIdentifierStart_eq] at hstart
  have hnumeral : isNumeralChar c = false := by
    by_contra hc
    rw [Bool.not_eq_false] at hc
    have hlow := toNat_of_isNumeralChar hc
    have hhigh := toNat_of_isIdentifierStart hstart
    omega
  have hrun : rest.takeWhile isIdentifierChar = rest :=
    List.takeWhile_eq_self_iff.mpr fun d hd => by rw [isIdentifierChar_eq]; exact hrest d hd
  have hscan := scan_eq_ok_iff.mpr (.identifier hnumeral hstart hrun)
  have hblank := isBlank_eq_false_of_isIdentifierChar (c := c) (by simp [isIdentifierChar, hstart])
  have hlex := lexFrom_of_scan hblank hscan 0
  rwa [← hchars, String.ofList_toList, Nat.zero_add, ← List.length_cons, ← hchars,
    String.length_toList] at hlex

private theorem lex_number {n : Nat} (h : Representable n) :
    lex (Binary64.finite false n h).display =
      .ok [⟨.number (.finite false n h), 0⟩,
        ⟨.endOfInput, (Binary64.finite false n h).display.length⟩] := by
  obtain ⟨text, htext, hspells⟩ := Binary64.exists_displayChars false n h
  have hchars : (Binary64.finite false n h).displayChars = text := htext
  rw [Binary64.display, hchars, lex, String.toList_ofList, lexFrom_spells hspells, Nat.zero_add,
    String.length_ofList]

/-- A text with one token and the marker of its end has that marker behind its last character. -/
theorem lex_of_single {source : String} {t : Token} {stop : Nat}
    (h : lex source = .ok [t, ⟨.endOfInput, stop⟩]) :
    lex source = .ok [t, ⟨.endOfInput, source.length⟩] := by
  obtain ⟨body, hbody, -⟩ := exists_body_of_lex h
  have hstop := congrArg List.getLast? hbody
  rw [List.getLast?_concat] at hstop
  obtain rfl : stop = source.length := by simpa using hstop
  exact h

theorem lex_symbol (s : Symbol) :
    lex s.spelling = .ok [⟨.symbol s, 0⟩, ⟨.endOfInput, s.spelling.length⟩] := by
  cases s <;> exact lexFrom_of_scan (by decide) rfl 0

/-- **One token.** The spelling of a lexeme is one token, and it says the lexeme. -/
theorem lex_spelling {lexeme : Lexeme} (h : lexeme.hasSpelling) :
    lex lexeme.spelling = .ok [⟨lexeme, 0⟩, ⟨.endOfInput, lexeme.spelling.length⟩] := by
  cases lexeme with
  | number x =>
    rcases x with _ | s | ⟨_ | _, n, hn⟩
    · simp [Lexeme.hasSpelling] at h
    · simp [Lexeme.hasSpelling] at h
    · exact lex_number hn
    · simp [Lexeme.hasSpelling] at h
  | identifier name => exact lex_name h
  | string s =>
    obtain ⟨stop, hlex⟩ := lexFrom_string s.toList 0
    rw [String.ofList_toList, ← String.toList_ofList (l := '"' :: _)] at hlex
    exact lex_of_single hlex
  | char c =>
    obtain ⟨stop, hlex⟩ := lexFrom_char c 0
    rw [← String.toList_ofList (l := '\'' :: _)] at hlex
    exact lex_of_single hlex
  | symbol s => exact lex_symbol s
  | endOfInput => simp [Lexeme.hasSpelling] at h

/-! ### Tokens with blanks between them -/

/-- **Tokens with blanks between them.** -/
theorem lex_spelled_eq {gaps : Nat → Char} (hgaps : ∀ i, Text.isBlank (gaps i))
    {lexemes : List Lexeme} (h : ∀ l ∈ lexemes, l.hasSpelling) :
    lex (Lexeme.spelled gaps lexemes) =
      .ok (placed 0 lexemes ++ [⟨.endOfInput, (Lexeme.spelled gaps lexemes).length⟩]) := by
  fun_induction Lexeme.spelled gaps lexemes with
  | case1 gaps => exact lexFrom_nil 0
  | case2 gaps lexeme => exact lex_spelling (h lexeme (by simp))
  | case3 gaps lexeme next rest ih =>
    obtain ⟨hfirst, hmore⟩ := List.forall_mem_cons.mp h
    have hrest := ih (fun i => hgaps (i + 1)) hmore
    have hone : lex lexeme.spelling =
        .ok ([⟨lexeme, 0⟩] ++ [⟨.endOfInput, lexeme.spelling.length⟩]) := lex_spelling hfirst
    rw [lex_append_blank hone (hgaps 0), hrest, placed_zero_cons lexeme]
    simp [Except.map, Except.mapError, shift, String.length_append]

/-- The spelling of each lexeme starts where its token is placed. -/
theorem spelling_prefix_spelled (gaps : Nat → Char) (lexemes : List Lexeme) :
    ∀ t ∈ placed 0 lexemes,
      t.lexeme.spelling.toList <+: (Lexeme.spelled gaps lexemes).toList.drop t.pos := by
  fun_induction Lexeme.spelled gaps lexemes with
  | case1 gaps => simp [placed]
  | case2 gaps lexeme => simp [placed]
  | case3 gaps lexeme next rest ih =>
    rw [placed_zero_cons, List.forall_mem_cons]
    refine ⟨by simp [String.toList_append], fun t ht => ?_⟩
    obtain ⟨t', ht', rfl⟩ := List.mem_map.mp ht
    -- Behind the first spelling and the gap stands the text of the others.
    have hchars : (lexeme.spelling ++ String.singleton (gaps 0) ++
        Lexeme.spelled (fun i => gaps (i + 1)) (next :: rest)).toList.drop
          (lexeme.spelling.length + 1) =
        (Lexeme.spelled (fun i => gaps (i + 1)) (next :: rest)).toList := by
      have hlength : (lexeme.spelling ++ String.singleton (gaps 0)).toList.length =
          lexeme.spelling.length + 1 := by
        rw [String.length_toList, String.length_append, String.length_singleton]
      rw [String.toList_append, ← hlength, List.drop_left]
    rw [shift, ← List.drop_drop, hchars]
    exact ih t' ht'

/-- **Lexing inverts spelling.** Spell any lexemes that have a spelling, with any one blank between
neighbours. The tokens of that text say these lexemes and are followed by the marker of the end, and
each of them stands where its spelling starts. -/
theorem lex_spelled (gaps : Nat → Char) (hgaps : ∀ i, Text.isBlank (gaps i))
    (lexemes : List Lexeme) (h : ∀ l ∈ lexemes, l.hasSpelling) :
    lex (Lexeme.spelled gaps lexemes) =
      .ok (placed 0 lexemes ++ [⟨.endOfInput, (Lexeme.spelled gaps lexemes).length⟩]) ∧
    (placed 0 lexemes).map lexeme = lexemes ∧
    ∀ t ∈ placed 0 lexemes,
      t.lexeme.spelling.toList <+: (Lexeme.spelled gaps lexemes).toList.drop t.pos :=
  ⟨lex_spelled_eq hgaps h, map_lexeme_placed 0 lexemes, spelling_prefix_spelled gaps lexemes⟩

/-- At two stars, which would be one symbol without the blank, and a string with a quote in it. -/
theorem lex_spelled_stars :
    Lexeme.spelled (fun _ => '\n') [.number .zero, .symbol .star, .symbol .star, .string "a\"",
      .identifier "x"] = "0\n*\n*\n\"a\\\"\"\nx" ∧
    lex "0\n*\n*\n\"a\\\"\"\nx" = .ok [⟨.number .zero, 0⟩, ⟨.symbol .star, 2⟩,
      ⟨.symbol .star, 4⟩, ⟨.string "a\"", 6⟩, ⟨.identifier "x", 12⟩, ⟨.endOfInput, 13⟩] := by
  have htext : Lexeme.spelled (fun _ => '\n') [.number .zero, .symbol .star, .symbol .star,
      .string "a\"", .identifier "x"] = "0\n*\n*\n\"a\\\"\"\nx" := by decide +kernel
  have hplaced : placed 0 [.number .zero, .symbol .star, .symbol .star, .string "a\"",
      .identifier "x"] ++ [⟨.endOfInput, "0\n*\n*\n\"a\\\"\"\nx".length⟩] =
      [⟨.number .zero, 0⟩, ⟨.symbol .star, 2⟩, ⟨.symbol .star, 4⟩, ⟨.string "a\"", 6⟩,
        ⟨.identifier "x", 12⟩, ⟨.endOfInput, 13⟩] := by decide +kernel
  have hlex := (lex_spelled (fun _ => '\n') (fun _ => by decide) [.number .zero, .symbol .star,
    .symbol .star, .string "a\"", .identifier "x"] (by decide +kernel)).1
  rw [htext, hplaced] at hlex
  exact ⟨htext, hlex⟩

end Token

end Reckon
