import Reckon.Proofs.Token.Separator

/-!
# What tokens hold

An identifier is spelled with letters, digits, `_` and `$` and does not start with a digit
(`Text.isName`), and a string token holds no more characters than there are in the text it stands
in. Both are facts about one token (`Token.Scanned.fits`) that hold of all tokens of a text.

A line feed separates tokens, as a semicolon does. A string literal can hold one, but a text that
ends within a literal has no tokens. So if a text has tokens and a line is added to it, the new
tokens are those of the line, and only the length of the line bounds them
(`Token.fits_of_lex_line`).
-/

namespace Reckon

/-! ### Names -/

namespace Text

/-- `A` to `Z`, `a` to `z`, `_` and `$`. -/
def isNameStart (c : Char) : Bool :=
  ('A' ≤ c && c ≤ 'Z') || ('a' ≤ c && c ≤ 'z') || c == '_' || c == '$'

/-- The same, and `0` to `9`. -/
def isNameChar (c : Char) : Bool := isNameStart c || ('0' ≤ c && c ≤ '9')

/-- The text is spelled as a name: it is not empty, and no digit stands in front. -/
def isName (s : String) : Bool :=
  match s.toList with
  | [] => false
  | c :: rest => isNameStart c && rest.all isNameChar

end Text

/-- An identifier is spelled as a name, and a string has at most `bound` characters. -/
def Lexeme.Fits (bound : Nat) : Lexeme → Prop
  | identifier name => Text.isName name
  | string text => text.length ≤ bound
  | number _ | char _ | symbol _ | endOfInput => True

theorem Lexeme.Fits.mono {bound bound' : Nat} (hle : bound ≤ bound') {lexeme : Lexeme}
    (h : lexeme.Fits bound) : lexeme.Fits bound' := by
  cases lexeme with
  | string text => exact Nat.le_trans h hle
  | _ => exact h

namespace Token

theorem isIdentifierStart_eq (c : Char) : isIdentifierStart c = Text.isNameStart c := by
  have hupper : c.isUpper = ('A' ≤ c && c ≤ 'Z') := Bool.decide_and _ _
  have hlower : c.isLower = ('a' ≤ c && c ≤ 'z') := rfl
  rw [Text.isNameStart, ← hupper, ← hlower]
  rfl

theorem isIdentifierChar_eq (c : Char) : isIdentifierChar c = Text.isNameChar c := by
  rw [isIdentifierChar, isIdentifierStart_eq]
  rfl

/-! ### One token -/

/-- The body of a string stands for no more characters than it has. -/
theorem length_le_of_stringBody {offset past : Nat} {rest cs : List Char}
    (h : stringBody offset rest = .ok (cs, past)) : cs.length ≤ rest.length := by
  fun_induction stringBody offset rest generalizing cs with
  | case1 | case2 | case3 | case4 | case7 => simp at h
  | case5 offset letter rest c hletter cs' past' hbody ih =>
    obtain ⟨rfl, rfl⟩ : c :: cs' = cs ∧ past' = past := by simpa using h
    have hle := ih hbody
    simp only [List.length_cons]
    omega
  | case6 offset rest =>
    obtain ⟨rfl, rfl⟩ : [] = cs ∧ offset + 1 = past := by simpa using h
    exact Nat.zero_le _
  | case8 offset c rest _ _ _ cs' past' hbody ih =>
    obtain ⟨rfl, rfl⟩ : c :: cs' = cs ∧ past' = past := by simpa using h
    exact Nat.succ_le_succ (ih hbody)

/-- **One token.** Its identifier is a name, and its string comes from the characters behind the
quote. -/
theorem Scanned.fits {c : Char} {rest : List Char} {lexeme : Lexeme} {width : Nat}
    (h : Scanned c rest lexeme width) : lexeme.Fits rest.length := by
  cases h with
  | @identifier _ _ run hc hstart hrun =>
    have hall : ∀ d ∈ run, Text.isNameChar d := by
      subst hrun
      intro d hd
      rw [← isIdentifierChar_eq]
      exact List.mem_takeWhile_imp hd
    rw [isIdentifierStart_eq] at hstart
    simp only [Lexeme.Fits, Text.isName, String.toList_ofList, hstart, Bool.true_and]
    exact List.all_eq_true.mpr hall
  | string hbody =>
    rw [Lexeme.Fits, String.length_ofList]
    exact length_le_of_stringBody hbody
  | number | char | pair | single => trivial

/-! ### Texts -/

/-- **All tokens of a text.** -/
theorem fits_of_lexFrom {pos : Nat} {cs : List Char} {tokens : List Token}
    (h : lexFrom pos cs = .ok tokens) : ∀ t ∈ tokens, t.lexeme.Fits cs.length := by
  rw [lexFrom_eq_ok_iff] at h
  induction h with
  | stop pos => simp [Lexeme.Fits]
  | blank hblank h ih => exact fun t ht => (ih t ht).mono (Nat.le_succ _)
  | token hblank hscanned h ih =>
    refine List.forall_mem_cons.mpr ⟨hscanned.fits.mono (Nat.le_succ _), fun t ht => ?_⟩
    refine (ih t ht).mono ?_
    rw [List.length_drop, List.length_cons]
    omega

theorem fits_of_lex {source : String} {tokens : List Token} (h : lex source = .ok tokens) :
    ∀ t ∈ tokens, t.lexeme.Fits source.length := by
  rw [← String.length_toList]
  exact fits_of_lexFrom h

private theorem separates_lineFeed : Separates '\n' where
  isNumeralChar_eq := by decide
  isIdentifierChar_eq := by decide
  ofPair?_eq := ofPair?_eq_none (by decide)

/-- **One more line.** It adds its own tokens to those that were there. -/
theorem fits_of_lex_line {bound : Nat} {source line : String} {tokens tokens' : List Token}
    (h : lex source = .ok tokens) (hfits : ∀ t ∈ tokens, t.lexeme.Fits bound)
    (hline : line.length ≤ bound) (h' : lex (source ++ "\n" ++ line) = .ok tokens') :
    ∀ t ∈ tokens', t.lexeme.Fits bound := by
  obtain ⟨body, rfl, -, hread⟩ := exists_lexFrom_append separates_lineFeed h
  have hchars : (source ++ "\n" ++ line).toList = source.toList ++ '\n' :: line.toList := by
    simp [String.toList_append]
  rw [lex, hchars, hread, lexFrom_blank (by decide)] at h'
  rcases hown : lexFrom (0 + source.toList.length + 1) line.toList with err | own <;>
    rw [hown] at h'
  · simp [Except.map] at h'
  obtain rfl : body ++ own = tokens' := by simpa [Except.map] using h'
  intro t ht
  rcases List.mem_append.mp ht with hbody | hlast
  · exact hfits t (List.mem_append_left _ hbody)
  · refine (fits_of_lexFrom hown t hlast).mono ?_
    rwa [String.length_toList]

end Token

end Reckon
