import Reckon.Proofs.Session.Reload
import Reckon.Proofs.Text.NumberPattern

/-!
# Numbers as source texts

A text that holds a number is a number in two ways: as an operand that is coerced, and as source
text that is run. Both give the same double (`Session.number_text_agrees`), although they are read
by different grammars. As source text, the sign is an operator, the words `inf` and `NaN` are
constants of the parser, and blanks are what the lexer skips.

The two meet in the lexemes of the text. `Lexeme.Denotes` says which double a single lexeme stands
for, and `Expr.Means` which value some lexemes have wherever they are placed; so blanks around them
do not matter (`Token.reading_pad`), and the sign is put on by evaluation (`Expr.means_signed`).
-/

namespace Reckon

/-- The lexeme stands for the double: it is its numeral, or a word for it. A numeral can be too
large to be finite, so that infinity has two lexemes. -/
inductive Lexeme.Denotes : Lexeme → Binary64 → Prop where
  | number (x : Binary64) : Denotes (.number x) x
  | inf : Denotes (.identifier "inf") (.inf false)
  | nan : Denotes (.identifier "NaN") .nan

/-- The lexemes of a double with an optional sign. -/
inductive Lexeme.DenotesSigned : List Lexeme → Binary64 → Prop where
  | plain {lexeme : Lexeme} {x : Binary64} (h : Denotes lexeme x) : DenotesSigned [lexeme] x
  | plus {lexeme : Lexeme} {x : Binary64} (h : Denotes lexeme x) :
      DenotesSigned [.symbol .plus, lexeme] x
  | minus {lexeme : Lexeme} {x : Binary64} (h : Denotes lexeme x) :
      DenotesSigned [.symbol .minus, lexeme] x.neg

namespace Token

/-! ### Lexing -/

variable {text : List Char} {x : Binary64}

/-- A number without a sign is one token. -/
private theorem exists_lexFrom_magnitude (h : Binary64.Magnitude text x) (pos : Nat) :
    ∃ lexeme stop, lexFrom pos text = .ok [⟨lexeme, pos⟩, ⟨.endOfInput, stop⟩] ∧
      lexeme.Denotes x := by
  cases h with
  | whole hne hdigits =>
    exact ⟨_, _, lexFrom_spells (spells_whole _ hne hdigits) pos, .number _⟩
  | point hne hwhole hfraction =>
    exact ⟨_, _, lexFrom_spells (spells_fraction _ _ hne hwhole hfraction) pos, .number _⟩
  | inf => exact ⟨_, _, lexFrom_of_scan (by decide) rfl pos, .inf⟩
  | nan => exact ⟨_, _, lexFrom_of_scan (by decide) rfl pos, .nan⟩

private theorem exists_reading_of_signed (h : Binary64.Signed text x) :
    ∃ lexemes, reading (String.ofList text) = .ok (lexemes ++ [.endOfInput]) ∧
      Lexeme.DenotesSigned lexemes x := by
  rw [reading, lex, String.toList_ofList]
  cases h with
  | plain h =>
    obtain ⟨lexeme, stop, hlex, hdenotes⟩ := exists_lexFrom_magnitude h 0
    exact ⟨[lexeme], by rw [hlex]; rfl, .plain hdenotes⟩
  | @plus body _ h =>
    obtain ⟨lexeme, stop, hlex, hdenotes⟩ := exists_lexFrom_magnitude h 1
    have hscan : scan '+' body = .ok (.symbol .plus, 1) := by
      cases body <;> rfl
    have hsign : lexFrom 0 ('+' :: body) =
        .ok [⟨.symbol .plus, 0⟩, ⟨lexeme, 1⟩, ⟨.endOfInput, stop⟩] :=
      lexFrom_cons (by decide) hscan hlex
    exact ⟨[.symbol .plus, lexeme], by rw [hsign]; rfl, .plus hdenotes⟩
  | @minus body _ h =>
    obtain ⟨lexeme, stop, hlex, hdenotes⟩ := exists_lexFrom_magnitude h 1
    exact ⟨[.symbol .minus, lexeme], by rw [lexFrom_minus hlex]; rfl, .minus hdenotes⟩

/-- Blanks around a text do not change what is read. -/
theorem reading_pad {lead trail : List Char} {lexemes : List Lexeme}
    (hlead : ∀ c ∈ lead, Text.isBlank c)
    (h : reading (String.ofList text) = .ok (lexemes ++ [.endOfInput]))
    (htrail : ∀ c ∈ trail, Text.isBlank c) :
    reading (String.ofList (lead ++ text ++ trail)) = .ok (lexemes ++ [.endOfInput]) := by
  rw [List.append_assoc, String.ofList_append, reading_blanks hlead]
  by_cases hempty : trail = []
  · rw [hempty, List.append_nil, h]
  · obtain ⟨body, stop, hlex, rfl⟩ := exists_lex_of_reading h
    obtain ⟨body', hbody, -⟩ := exists_body_of_lex hlex
    obtain ⟨rfl, hstop⟩ := List.append_inj' hbody rfl
    rw [hbody] at hlex
    have hgap : IsGap (String.ofList trail) := by
      refine ⟨?_, by rwa [String.toList_ofList]⟩
      intro heq
      exact hempty (by simpa using congrArg String.toList heq)
    have hempty : reading "" = .ok [.endOfInput] := by
      rw [reading, lex, String.toList_empty, lexFrom_nil]
      rfl
    have hread := reading_gap hlex hgap ""
    rw [String.append_empty, ← String.ofList_append, hempty] at hread
    exact hread

/-- **Lexing a number.** Up to a sign, a text that holds a number is one token for it. -/
theorem exists_reading_of_numberText (h : Binary64.NumberText text x) :
    ∃ lexemes, reading (String.ofList text) = .ok (lexemes ++ [.endOfInput]) ∧
      Lexeme.DenotesSigned lexemes x := by
  obtain ⟨hlead, htext, htrail⟩ := h
  obtain ⟨lexemes, hread, hdenotes⟩ := exists_reading_of_signed htext
  refine ⟨lexemes, reading_pad ?_ hread ?_, hdenotes⟩
  · intro c hc
    exact Text.isBlank_of_isAsciiBlank (hlead c hc)
  · intro c hc
    exact Text.isBlank_of_isAsciiBlank (htrail c hc)

end Token

namespace Expr

/-! ### Parsing and evaluating -/

/-- Wherever they are placed, the lexemes are a program with the value `v` that leaves the scope
alone. There is enough room for it if there is for a declaration. -/
def Means (lexemes : List Lexeme) (v : Value) : Prop :=
  ∃ e : Expr, e.depth ≤ 3 ∧
    (∀ (k : Nat) (body : List Token) (stop : Nat), body.map Token.lexeme = lexemes →
      parseProgramWithin (k + 11) (body ++ [⟨.endOfInput, stop⟩]) = .ok [e]) ∧
    ∀ k scope, e.evaluate (k + 3) scope = (.ok v, scope)

private theorem parseProgramWithin_denotes {lexeme : Lexeme} {x : Binary64} (h : lexeme.Denotes x)
    (k pos stop : Nat) :
    parseProgramWithin (k + 11) [⟨lexeme, pos⟩, ⟨.endOfInput, stop⟩] =
      .ok [.literal (.number x)] := by
  cases h with
  | number => rfl
  | inf => rfl
  | nan => rfl

/-- A sign and a lexeme for a double. -/
private theorem parseProgramWithin_sign {sign : Symbol} (hsign : sign = .plus ∨ sign = .minus)
    {lexeme : Lexeme} {x : Binary64} (h : lexeme.Denotes x) (k pos pos' stop : Nat) :
    parseProgramWithin (k + 11) [⟨.symbol sign, pos⟩, ⟨lexeme, pos'⟩, ⟨.endOfInput, stop⟩] =
      .ok [.unary sign (.literal (.number x))] := by
  rcases hsign with rfl | rfl
  all_goals
    cases h with
    | number => rfl
    | inf => rfl
    | nan => rfl

/-- The sign is an operator on the double. -/
private theorem means_sign {sign : Symbol} (hsign : sign = .plus ∨ sign = .minus)
    {apply : Value → Except EvalError Value} (hop : Value.unaryOperator? sign = some apply)
    {lexeme : Lexeme} {x : Binary64} (h : lexeme.Denotes x) {v : Value}
    (happly : apply (.number x) = .ok v) : Means [.symbol sign, lexeme] v := by
  refine ⟨.unary sign (.literal (.number x)), Nat.le_of_ble_eq_true rfl, ?_, ?_⟩
  · intro k body stop hbody
    obtain ⟨⟨_, pos⟩, rest, rfl, rfl, hrest⟩ := List.map_eq_cons_iff.mp hbody
    obtain ⟨⟨_, pos'⟩, rfl, rfl⟩ := List.map_eq_singleton_iff.mp hrest
    exact parseProgramWithin_sign hsign h k pos pos' stop
  · intro k scope
    have hliteral : (literal (.number x)).evaluate (k + 2) scope = (.ok (.number x), scope) := rfl
    rw [evaluate_unary hop, hliteral, Evaluated.andThen_ok, happly]

/-- **Numbers mean what they stand for.** -/
theorem means_signed {lexemes : List Lexeme} {x : Binary64} (h : Lexeme.DenotesSigned lexemes x) :
    Means lexemes (.number x) := by
  cases h with
  | plain h =>
    refine ⟨.literal (.number x), Nat.le_of_ble_eq_true rfl, ?_, fun _ _ => rfl⟩
    intro k body stop hbody
    obtain ⟨⟨_, pos⟩, rfl, rfl⟩ := List.map_eq_singleton_iff.mp hbody
    exact parseProgramWithin_denotes h k pos stop
  | plus h => exact means_sign (.inl rfl) rfl h rfl
  | minus h => exact means_sign (.inr rfl) rfl h (Value.negate_number _)

end Expr

namespace Session

/-- A source text has the value of its lexemes. -/
private theorem eval_of_means {limits : Limits} (hample : limits.Ample) {source : String}
    {lexemes : List Lexeme} {v : Value}
    (hread : Token.reading source = .ok (lexemes ++ [.endOfInput])) (h : Expr.Means lexemes v)
    (scope : Scope) : eval limits source scope = (.ok (some v), scope) := by
  obtain ⟨body, stop, hlex, hbody⟩ := Token.exists_lex_of_reading hread
  obtain ⟨e, hdepth, hparse, hevaluate⟩ := h
  obtain ⟨k, hk⟩ := Nat.exists_eq_add_of_le' hample.reading
  obtain ⟨l, hl⟩ := Nat.exists_eq_add_of_le' hample.evaluating
  have hshown : ∀ e' ∈ [e], limits.shows e' := by simpa using hample.showing e hdepth
  refine eval_eq_ok_iff.mpr ⟨_, [e], hlex, ?_, hshown, .snoc (.nil scope) ?_⟩
  · rw [hk]
    exact hparse k body stop hbody
  · rw [hl]
    exact hevaluate l scope

end Session

/-! ### The lexer and the pattern -/

/-- A text of digits and points has neither blanks nor a sign nor words. -/
theorem Binary64.NumberText.magnitude {text : List Char} {x : Binary64} (h : NumberText text x)
    (hchars : ∀ c ∈ text, Token.isNumeralChar c) : Magnitude text x := by
  have hnone {part : List Char} (hpart : ∀ c ∈ part, Token.isNumeralChar c)
      (hblank : ∀ c ∈ part, Text.isAsciiBlank c) : part = [] := by
    refine List.eq_nil_iff_forall_not_mem.mpr fun c hc => ?_
    have hnot := Token.isAsciiBlank_eq_false_of_isNumeralChar (hpart c hc)
    simp [hblank c hc] at hnot
  obtain ⟨hlead, htext, htrail⟩ := h
  rename_i lead text trail
  obtain ⟨⟨hleadChars, htextChars⟩, htrailChars⟩ :
      ((∀ c ∈ lead, Token.isNumeralChar c) ∧ ∀ c ∈ text, Token.isNumeralChar c) ∧
        ∀ c ∈ trail, Token.isNumeralChar c := by
    simpa only [List.forall_mem_append] using hchars
  rw [hnone hleadChars hlead, hnone htrailChars htrail, List.nil_append, List.append_nil]
  cases htext with
  | plain h => exact h
  | plus => exact absurd (htextChars '+' (by simp)) (by decide)
  | minus => exact absurd (htextChars '-' (by simp)) (by decide)

theorem Binary64.ofText_eq {source : String} {x : Binary64} (h : NumberText source.toList x) :
    ofText source = x := by
  rw [ofText, ofChars?_eq_some_iff.mpr h, Option.getD_some]

namespace Token

/-- A text of digits and points has tokens if it is one numeral. -/
theorem exists_lex_iff_exists_spells {source : String} (hne : source.toList ≠ [])
    (hchars : ∀ c ∈ source.toList, isNumeralChar c) :
    (∃ tokens, lex source = .ok tokens) ↔ ∃ x, Spells source.toList x := by
  constructor
  · rintro ⟨tokens, hlex⟩
    rcases hnumeral : numeral source.toList with err | x
    · obtain ⟨c, rest, htext⟩ := List.exists_cons_of_ne_nil hne
      rw [htext] at hnumeral hchars
      have hscan := scan_of_isNumeralChar hchars
      rw [hnumeral] at hscan
      have hblank := isBlank_eq_false_of_isNumeralChar (hchars c (List.mem_cons_self ..))
      rw [lex, htext, lexFrom_of_scan_error hblank hscan] at hlex
      simp at hlex
    · exact ⟨x, hne, hchars, hnumeral⟩
  · rintro ⟨x, hspells⟩
    exact ⟨_, lexFrom_spells hspells 0⟩

/-- **Digits and points.** The lexer takes the texts that match the pattern. -/
theorem mem_numberPattern_iff_exists_lex {source : String} (hne : source ≠ "")
    (hchars : ∀ c ∈ source.toList, c.isDigit ∨ c = '.') :
    source.toList ∈ Text.numberPattern.matches' ↔ ∃ tokens, lex source = .ok tokens := by
  have hnumeral : ∀ c ∈ source.toList, isNumeralChar c := by
    simpa [isNumeralChar] using hchars
  rw [exists_lex_iff_exists_spells (by simpa using hne) hnumeral, Text.mem_numberPattern_iff]
  refine exists_congr fun x => ?_
  rw [spells_iff]
  constructor
  · intro h
    exact ⟨h.magnitude hnumeral, hnumeral⟩
  · rintro ⟨h, -⟩
    exact .of_signed (.plain h)

end Token

namespace Session

/-- **Numbers in texts and as source texts.** A text that matches the pattern of numbers runs as
source text in any scope, if there is room for a declaration, to the number that it is coerced to,
and leaves the scope alone; any other text is coerced to NaN. Of the texts of digits and points but
the empty one, those that match are those that have tokens. Display forms of numbers match, and are
coerced to the number they came from. -/
theorem number_text_agrees :
    (∀ (limits : Limits) (source : String) (scope : Scope), limits.Ample →
      source.toList ∈ Text.numberPattern.matches' →
      eval limits source scope = (.ok (some (.number (.ofText source))), scope)) ∧
    (∀ source : String, source.toList ∉ Text.numberPattern.matches' →
      Binary64.ofText source = .nan) ∧
    (∀ source : String, source ≠ "" → (∀ c ∈ source.toList, c.isDigit ∨ c = '.') →
      (source.toList ∈ Text.numberPattern.matches' ↔ ∃ tokens, Token.lex source = .ok tokens)) ∧
    ∀ x : Binary64, x.display.toList ∈ Text.numberPattern.matches' ∧
      Binary64.ofText x.display = x ∧ (Value.string x.display).toNumber = x := by
  refine ⟨?_, ?_, ?_, ?_⟩
  · intro limits source scope hample hmatch
    obtain ⟨x, hx⟩ := Text.mem_numberPattern_iff.mp hmatch
    obtain ⟨lexemes, hread, hdenotes⟩ := Token.exists_reading_of_numberText hx
    rw [String.ofList_toList] at hread
    rw [Binary64.ofText_eq hx]
    exact eval_of_means hample hread (Expr.means_signed hdenotes) scope
  · intro source hmatch
    rcases hread : Binary64.ofChars? source.toList with _ | x
    · rw [Binary64.ofText, hread, Option.getD_none]
    · have htext := Binary64.ofChars?_eq_some_iff.mp hread
      exact absurd (Text.mem_numberPattern_iff.mpr ⟨x, htext⟩) hmatch
  · intro source hne hchars
    exact Token.mem_numberPattern_iff_exists_lex hne hchars
  · intro x
    have hdisplay : Binary64.NumberText x.display.toList x := by
      rw [Binary64.display, String.toList_ofList]
      exact x.numberText_display
    have htext := Binary64.ofText_eq hdisplay
    exact ⟨Text.mem_numberPattern_iff.mpr ⟨x, hdisplay⟩, htext, htext⟩

theorem number_text_agrees_edges :
    " -0\n".toList ∈ Text.numberPattern.matches' ∧
      Binary64.ofText " -0\n" = .finite true 0 representable_zero ∧
      (∀ watched scope, eval (.usual watched) " -0\n" scope =
        (.ok (some (.number (.ofText " -0\n"))), scope)) ∧
      (∃ tokens, Token.lex "7." = .ok tokens) ∧ ¬∃ tokens, Token.lex "1.2.3" = .ok tokens := by
  have hzero : " -0\n".toList ∈ Text.numberPattern.matches' := by decide
  have hseven : "7.".toList ∈ Text.numberPattern.matches' := by decide
  have hpoints : "1.2.3".toList ∉ Text.numberPattern.matches' := by decide
  obtain ⟨heval, -, hlex, -⟩ := number_text_agrees
  refine ⟨hzero, by decide +kernel, fun watched scope => ?_, ?_, ?_⟩
  · exact heval _ _ scope (.usual watched) hzero
  · exact (hlex "7." (by decide) (by simp)).mp hseven
  · exact mt (hlex "1.2.3" (by decide) (by simp)).mpr hpoints

end Session

end Reckon
