import Reckon.Proofs.Token.Separator

/-!
# Units of literals

The body of a literal is made of units: a character that is no backslash, or a backslash and the
character behind it. `Token.scan_literal` says in terms of units what becomes of every text behind
an opening quote.

* Units that stand for something and are not the bare quote are read one after the other
  (`Token.stringBody_spell`). Every text starts with such units, and it is what stands behind them
  that decides: a quote, an escape that is not known, or the end (`Token.exists_units`).
* A character literal reads one such unit. After that it only looks for a quote that is no part of
  an escape (`Token.closesLater_iff`), to tell a literal that is too long from one without an end.
-/

namespace Reckon

/-- The escapes of literals: the character behind the backslash, and what the two stand for. -/
def Text.escapes : List (Char × Char) :=
  [('n', '\n'), ('r', '\r'), ('t', '\t'), ('0', '\x00'), ('"', '"'), ('\\', '\\'), ('\'', '\'')]

theorem Text.unescape?_eq_lookup (letter : Char) : unescape? letter = escapes.lookup letter := by
  simp only [unescape?, escapes, List.lookup_cons, List.lookup_nil]
  repeat' split
  all_goals simp_all

/-! ### Units -/

/-- A unit of the body of a literal. -/
inductive LiteralUnit where
  /-- A character that is no backslash. -/
  | plain (c : Char) (h : c ≠ '\\')
  /-- A backslash and the character behind it. -/
  | escape (letter : Char)
deriving DecidableEq

namespace LiteralUnit

def spelling : LiteralUnit → List Char
  | plain c _ => [c]
  | escape letter => ['\\', letter]

/-- What the unit stands for. Only an escape that is not known stands for nothing. -/
def value? : LiteralUnit → Option Char
  | plain c _ => some c
  | escape letter => Text.escapes.lookup letter

/-- The unit is the character alone, with no backslash in front. -/
def isBare (c : Char) : LiteralUnit → Bool
  | plain d _ => d == c
  | escape _ => false

/-- Units one after the other. -/
def spell (us : List LiteralUnit) : List Char := us.flatMap spelling

@[simp]
theorem spell_nil : spell [] = [] := rfl

@[simp]
theorem spell_cons (u : LiteralUnit) (us : List LiteralUnit) :
    spell (u :: us) = u.spelling ++ spell us := List.flatMap_cons

/-- In a literal with this quote the units stand for the text: none of them closes the literal, and
each is the next character of the text. -/
structure StandFor (quote : Char) (us : List LiteralUnit) (text : List Char) : Prop where
  isBare_eq : ∀ u ∈ us, u.isBare quote = false
  map_value?_eq : us.map value? = text.map some

theorem standFor_nil (quote : Char) : StandFor quote [] [] where
  isBare_eq := by simp
  map_value?_eq := rfl

private theorem standFor_cons_iff {quote : Char} {u : LiteralUnit} {us : List LiteralUnit}
    {text : List Char} :
    StandFor quote (u :: us) text ↔ u.isBare quote = false ∧
      ∃ c more, u.value? = some c ∧ text = c :: more ∧ StandFor quote us more := by
  constructor
  · rintro ⟨hbare, hvalue⟩
    obtain ⟨hu, hus⟩ := List.forall_mem_cons.mp hbare
    obtain ⟨c, more, rfl, hc, hmore⟩ := List.map_eq_cons_iff.mp hvalue.symm
    exact ⟨hu, c, more, hc.symm, rfl, hus, hmore.symm⟩
  · rintro ⟨hu, c, more, hc, rfl, hus, hmore⟩
    refine ⟨List.forall_mem_cons.mpr ⟨hu, hus⟩, ?_⟩
    rw [List.map_cons, List.map_cons, hc, hmore]

end LiteralUnit

open LiteralUnit

namespace Token

/-! ### String literals -/

variable {cs text : List Char} {us : List LiteralUnit} {offset : Nat}

/-- One unit of a string literal. -/
theorem stringBody_spelling {u : LiteralUnit} {c : Char} (hbare : u.isBare '"' = false)
    (hc : u.value? = some c) :
    stringBody offset (u.spelling ++ cs) =
      (stringBody (offset + u.spelling.length) cs).map fun (more, past) => (c :: more, past) := by
  cases u with
  | plain d hslash =>
    obtain rfl : d = c := by simpa [value?] using hc
    have hquote : d ≠ '"' := by simpa [isBare] using hbare
    rcases hbody : stringBody (offset + 1) cs with err | ⟨more, past⟩
    · simp only [spelling, List.singleton_append, List.length_singleton, hbody]
      rw [stringBody]
      · simp [hquote, hbody, Except.map]
      · simp [hslash]
      · simp [hslash]
    · simp only [spelling, List.singleton_append, List.length_singleton, hbody]
      exact stringBody_plain hquote hslash hbody
  | escape letter =>
    rw [value?, ← Text.unescape?_eq_lookup] at hc
    rcases hbody : stringBody (offset + 2) cs with err | ⟨more, past⟩
    · simp [spelling, stringBody, hc, hbody, Except.map]
    · simp [spelling, stringBody, hc, hbody, Except.map]

/-- **Units of a string literal.** They are read one after the other. -/
theorem stringBody_spell (h : StandFor '"' us text) :
    stringBody offset (spell us ++ cs) =
      (stringBody (offset + (spell us).length) cs).map
        fun (more, past) => (text ++ more, past) := by
  induction us generalizing offset text with
  | nil =>
    obtain rfl : text = [] := by simpa using h.map_value?_eq.symm
    simp only [spell_nil, List.nil_append, List.length_nil, Nat.add_zero]
    cases stringBody offset cs <;> rfl
  | cons u us ih =>
    obtain ⟨hbare, c, more, hc, rfl, hus⟩ := standFor_cons_iff.mp h
    rw [spell_cons, List.append_assoc, stringBody_spelling hbare hc, ih hus, List.length_append,
      Nat.add_assoc]
    cases stringBody (offset + (u.spelling.length + (spell us).length)) cs <;> rfl

/-- What can stand behind the units of a literal that belong to its body. -/
inductive BodyEnd (quote : Char) : List Char → Prop where
  | closed (rest : List Char) : BodyEnd quote (quote :: rest)
  | unknown {letter : Char} (rest : List Char) (h : Text.escapes.lookup letter = none) :
      BodyEnd quote ('\\' :: letter :: rest)
  | missing : BodyEnd quote []
  | dangling : BodyEnd quote ['\\']

/-- **Every text starts with units.** Behind those that belong to the body of a literal, its end is
decided. -/
theorem exists_units (quote : Char) (cs : List Char) :
    ∃ us text rest, cs = spell us ++ rest ∧ StandFor quote us text ∧ BodyEnd quote rest := by
  fun_induction closesLater cs with
  | case1 => exact ⟨[], [], [], rfl, standFor_nil quote, .missing⟩
  | case2 => exact ⟨[], [], ['\\'], rfl, standFor_nil quote, .dangling⟩
  | case3 letter rest ih =>
    cases hletter : Text.escapes.lookup letter with
    | none => exact ⟨[], [], _, rfl, standFor_nil quote, .unknown rest hletter⟩
    | some c =>
      obtain ⟨us, text, rest', rfl, hus, hend⟩ := ih
      refine ⟨.escape letter :: us, c :: text, rest', by simp [spelling], ?_, hend⟩
      exact standFor_cons_iff.mpr ⟨rfl, c, text, hletter, rfl, hus⟩
  | case4 c rest hslash hslash' ih =>
    by_cases hquote : c = quote
    · subst hquote
      exact ⟨[], [], _, rfl, standFor_nil c, .closed rest⟩
    · obtain ⟨us, text, rest', rfl, hus, hend⟩ := ih
      refine ⟨.plain c (ne_backslash hslash hslash') :: us, c :: text, rest', by simp [spelling],
        ?_, hend⟩
      exact standFor_cons_iff.mpr ⟨by simpa [isBare] using hquote, c, text, rfl, rfl, hus⟩

/-- **String literals that are accepted.** Their bodies are the units up to a closing quote. -/
theorem stringBody_eq_ok_iff {past : Nat} :
    stringBody offset cs = .ok (text, past) ↔
      ∃ us rest, cs = spell us ++ '"' :: rest ∧ StandFor '"' us text ∧
        past = offset + (spell us).length + 1 := by
  constructor
  · intro h
    obtain ⟨us, text', rest, rfl, hus, hend⟩ := exists_units '"' cs
    rw [stringBody_spell hus] at h
    cases hend with
    | closed rest =>
      obtain ⟨rfl, rfl⟩ : text' = text ∧ _ = past := by simpa [stringBody, Except.map] using h
      exact ⟨us, rest, rfl, hus, rfl⟩
    | unknown rest hletter =>
      rw [← Text.unescape?_eq_lookup] at hletter
      simp [stringBody, hletter, Except.map] at h
    | missing | dangling => simp [stringBody, Except.map] at h
  · rintro ⟨us, rest, rfl, hus, rfl⟩
    rw [stringBody_spell hus]
    simp [stringBody, Except.map]

/-- **String literals that are refused.** An escape comes first that is not known, or the end. -/
theorem stringBody_eq_error_iff {err : LexError} :
    stringBody offset cs = .error err ↔
      (∃ us text letter rest, cs = spell us ++ '\\' :: letter :: rest ∧ StandFor '"' us text ∧
        Text.escapes.lookup letter = none ∧
        err = ⟨.unknownEscape letter, offset + (spell us).length⟩) ∨
      ∃ us text, (cs = spell us ∨ cs = spell us ++ ['\\']) ∧ StandFor '"' us text ∧
        err = ⟨.unterminatedString, 0⟩ := by
  constructor
  · intro h
    obtain ⟨us, text, rest, rfl, hus, hend⟩ := exists_units '"' cs
    rw [stringBody_spell hus] at h
    cases hend with
    | closed rest => simp [stringBody, Except.map] at h
    | @unknown letter rest hletter =>
      obtain rfl : _ = err := by
        simpa [stringBody, Text.unescape?_eq_lookup, hletter, Except.map] using h
      exact .inl ⟨us, text, letter, rest, rfl, hus, hletter, rfl⟩
    | missing =>
      obtain rfl : _ = err := by simpa [stringBody, Except.map] using h
      exact .inr ⟨us, text, .inl (List.append_nil _), hus, rfl⟩
    | dangling =>
      obtain rfl : _ = err := by simpa [stringBody, Except.map] using h
      exact .inr ⟨us, text, .inr rfl, hus, rfl⟩
  · rintro (⟨us, text, letter, rest, rfl, hus, hletter, rfl⟩ | ⟨us, text, rfl | rfl, hus, rfl⟩)
    · rw [stringBody_spell hus]
      simp [stringBody, Text.unescape?_eq_lookup, hletter, Except.map]
    · rw [← List.append_nil (spell us), stringBody_spell hus]
      simp [stringBody, Except.map]
    · rw [stringBody_spell hus]
      simp [stringBody, Except.map]

/-! ### Character literals -/

/-- A quote that is no part of an escape stands behind some units. Here they need not stand for
anything. -/
theorem closesLater_iff : closesLater cs ↔ ∃ us rest, cs = spell us ++ '\'' :: rest := by
  constructor
  · intro h
    fun_induction closesLater cs with
    | case1 | case2 => simp at h
    | case3 letter rest ih =>
      obtain ⟨us, rest', rfl⟩ := ih h
      exact ⟨.escape letter :: us, rest', by simp [spelling]⟩
    | case4 c rest hslash hslash' ih =>
      by_cases hquote : c = '\''
      · subst hquote
        exact ⟨[], rest, rfl⟩
      · obtain ⟨us, rest', rfl⟩ := ih (by simpa [hquote] using h)
        exact ⟨.plain c (ne_backslash hslash hslash') :: us, rest', by simp [spelling]⟩
  · rintro ⟨us, rest, rfl⟩
    induction us with
    | nil => rfl
    | cons u us ih =>
      cases u with
      | plain c hslash =>
        rw [spell_cons, spelling, List.singleton_append, List.cons_append, closesLater]
        · simp [ih]
        · simp [hslash]
        · simp [hslash]
      | escape letter => simpa [spelling, closesLater] using ih

/-- The text starts with a unit that stands for `c` and is not the quote of a character literal. -/
structure StartsWith (u : LiteralUnit) (c : Char) (cs rest : List Char) : Prop where
  eq_append : cs = u.spelling ++ rest
  isBare_eq : u.isBare '\'' = false
  value?_eq : u.value? = some c

private theorem StartsWith.charBody_eq {u : LiteralUnit} {c : Char} {rest : List Char}
    (h : StartsWith u c cs rest) : charBody cs = closeChar c (u.spelling.length + 1) rest := by
  obtain ⟨rfl, hbare, hc⟩ := h
  cases u with
  | plain d hslash =>
    obtain rfl : d = c := by simpa [value?] using hc
    exact charBody_plain (by simpa [isBare] using hbare) hslash rest
  | escape letter =>
    rw [value?, ← Text.unescape?_eq_lookup] at hc
    simp [spelling, charBody, hc]

/-- Every text starts with such a unit, unless the end of a body is decided at once. -/
theorem bodyEnd_or_startsWith (cs : List Char) :
    BodyEnd '\'' cs ∨ ∃ u c rest, StartsWith u c cs rest := by
  obtain ⟨us, text, rest, rfl, hus, hend⟩ := exists_units '\'' cs
  cases us with
  | nil => exact .inl hend
  | cons u us =>
    obtain ⟨hbare, c, -, hc, -⟩ := standFor_cons_iff.mp hus
    exact .inr ⟨u, c, _, by rw [spell_cons, List.append_assoc], hbare, hc⟩

/-- **Character literals that are accepted.** They hold one unit. -/
theorem charBody_eq_ok_iff {c : Char} {past : Nat} :
    charBody cs = .ok (c, past) ↔
      ∃ u rest, StartsWith u c cs ('\'' :: rest) ∧ past = u.spelling.length + 2 := by
  constructor
  · intro h
    rcases bodyEnd_or_startsWith cs with hend | ⟨u, d, rest, hstart⟩
    · cases hend with
      | closed rest => simp [charBody] at h
      | unknown rest hletter => simp [charBody, Text.unescape?_eq_lookup, hletter] at h
      | missing | dangling => simp [charBody] at h
    · rw [hstart.charBody_eq, closeChar_eq] at h
      by_cases hclose : rest.head? = some '\''
      · obtain ⟨rest', rfl⟩ := List.head?_eq_some_iff.mp hclose
        obtain ⟨rfl, rfl⟩ : d = c ∧ _ = past := by simpa using h
        exact ⟨u, rest', hstart, rfl⟩
      · rw [if_neg hclose] at h
        split at h <;> simp at h
  · rintro ⟨u, rest, hstart, rfl⟩
    rw [hstart.charBody_eq]
    simp [closeChar_eq]

/-- **Character literals that are refused.** Four faults exclude each other. -/
theorem charBody_eq_error_iff {err : LexError} :
    charBody cs = .error err ↔
      (cs.head? = some '\'' ∧ err = ⟨.emptyCharLiteral, 0⟩) ∨
      (∃ letter rest, cs = '\\' :: letter :: rest ∧ Text.escapes.lookup letter = none ∧
        err = ⟨.unknownEscape letter, 1⟩) ∨
      (∃ u c rest, StartsWith u c cs rest ∧ rest.head? ≠ some '\'' ∧
        (∃ us more, rest = spell us ++ '\'' :: more) ∧ err = ⟨.charLiteralTooLong, 0⟩) ∨
      (cs = [] ∨ cs = ['\\'] ∨ ∃ u c rest, StartsWith u c cs rest ∧
        ¬∃ us more, rest = spell us ++ '\'' :: more) ∧ err = ⟨.unterminatedChar, 0⟩ := by
  constructor
  · intro h
    -- Without a first unit that is good there are four ways to end. Behind one, it depends on the
    -- quotes that follow.
    rcases bodyEnd_or_startsWith cs with hend | ⟨u, c, rest, hstart⟩
    · cases hend with
      | closed rest =>
        obtain rfl : _ = err := by simpa [charBody] using h
        exact .inl ⟨rfl, rfl⟩
      | @unknown letter rest hletter =>
        obtain rfl : _ = err := by
          simpa [charBody, Text.unescape?_eq_lookup, hletter] using h
        exact .inr (.inl ⟨letter, rest, rfl, hletter, rfl⟩)
      | missing =>
        obtain rfl : _ = err := by simpa [charBody] using h
        exact .inr (.inr (.inr ⟨.inl rfl, rfl⟩))
      | dangling =>
        obtain rfl : _ = err := by simpa [charBody] using h
        exact .inr (.inr (.inr ⟨.inr (.inl rfl), rfl⟩))
    · rw [hstart.charBody_eq, closeChar_eq] at h
      by_cases hclose : rest.head? = some '\''
      · simp [hclose] at h
      · rw [if_neg hclose] at h
        by_cases hlater : closesLater rest
        · obtain rfl : _ = err := by simpa [hlater] using h
          have hquote := closesLater_iff.mp hlater
          exact .inr (.inr (.inl ⟨u, c, rest, hstart, hclose, hquote, rfl⟩))
        · obtain rfl : _ = err := by simpa [hlater] using h
          have hquote := mt closesLater_iff.mpr hlater
          exact .inr (.inr (.inr ⟨.inr (.inr ⟨u, c, rest, hstart, hquote⟩), rfl⟩))
  · rintro (⟨hhead, rfl⟩ | ⟨letter, rest, rfl, hletter, rfl⟩ |
      ⟨u, c, rest, hstart, hclose, hquote, rfl⟩ | ⟨rfl | rfl | ⟨u, c, rest, hstart, hquote⟩, rfl⟩)
    · obtain ⟨rest, rfl⟩ := List.head?_eq_some_iff.mp hhead
      simp [charBody]
    · simp [charBody, Text.unescape?_eq_lookup, hletter]
    · rw [hstart.charBody_eq, closeChar_eq, if_neg hclose, if_pos (closesLater_iff.mpr hquote)]
    · rfl
    · rfl
    · have hclose : rest.head? ≠ some '\'' := by
        intro hhead
        obtain ⟨more, rfl⟩ := List.head?_eq_some_iff.mp hhead
        exact hquote ⟨[], more, rfl⟩
      rw [hstart.charBody_eq, closeChar_eq, if_neg hclose, if_neg (mt closesLater_iff.mp hquote)]

/-! ### Literals -/

private theorem map_eq_ok_iff {ε α β : Type} {f : α → β} {x : Except ε α} {b : β} :
    x.map f = .ok b ↔ ∃ a, x = .ok a ∧ f a = b := by
  cases x <;> simp [Except.map]

theorem map_eq_error_iff {ε α β : Type} {f : α → β} {x : Except ε α} {err : ε} :
    x.map f = .error err ↔ x = .error err := by
  cases x <;> simp [Except.map]

theorem scan_string (cs : List Char) :
    scan '"' cs =
      (stringBody 1 cs).map fun (text, past) => (.string (String.ofList text), past) := by
  have hplain : isNumeralChar '"' = false ∧ isIdentifierStart '"' = false := by decide
  simp only [scan, hplain, Bool.false_eq_true, if_false, if_true]
  cases stringBody 1 cs <;> rfl

theorem scan_char (cs : List Char) :
    scan '\'' cs = (charBody cs).map fun (c, past) => (.char c, past) := by
  have hplain : isNumeralChar '\'' = false ∧ isIdentifierStart '\'' = false := by decide
  have hother : '\'' ≠ '"' := by decide
  simp only [scan, hplain, hother, Bool.false_eq_true, if_false, if_true]
  cases charBody cs <;> rfl

/-- **Literals.** What becomes of the characters `cs` behind an opening quote.

* A string literal is accepted exactly if there are units up to a bare double quote that all stand
  for something. It says what they stand for, in order, and ends behind that quote.
* Otherwise it is refused at the first escape that is not known, or as not terminated if there is
  none before the end; a backslash at the very end is no escape.
* A character literal is accepted exactly if one unit that stands for something, and that is no bare
  quote, stands in front of the closing quote.
* Otherwise it is empty if the quote comes at once, refused at an escape that is not known, and too
  long if the first unit is good and a quote follows later, outside of escapes. In the remaining
  cases it is not terminated: there is nothing, or only a backslash, or no quote follows. -/
theorem scan_literal (cs : List Char) :
    (∀ lexeme width, scan '"' cs = .ok (lexeme, width) ↔
      ∃ us text rest, cs = spell us ++ '"' :: rest ∧ StandFor '"' us text ∧
        lexeme = .string (String.ofList text) ∧ width = (spell us).length + 2) ∧
    (∀ err, scan '"' cs = .error err ↔
      (∃ us text letter rest, cs = spell us ++ '\\' :: letter :: rest ∧ StandFor '"' us text ∧
        Text.escapes.lookup letter = none ∧
        err = ⟨.unknownEscape letter, (spell us).length + 1⟩) ∨
      ∃ us text, (cs = spell us ∨ cs = spell us ++ ['\\']) ∧ StandFor '"' us text ∧
        err = ⟨.unterminatedString, 0⟩) ∧
    (∀ lexeme width, scan '\'' cs = .ok (lexeme, width) ↔
      ∃ u c rest, StartsWith u c cs ('\'' :: rest) ∧ lexeme = .char c ∧
        width = u.spelling.length + 2) ∧
    ∀ err, scan '\'' cs = .error err ↔
      (cs.head? = some '\'' ∧ err = ⟨.emptyCharLiteral, 0⟩) ∨
      (∃ letter rest, cs = '\\' :: letter :: rest ∧ Text.escapes.lookup letter = none ∧
        err = ⟨.unknownEscape letter, 1⟩) ∨
      (∃ u c rest, StartsWith u c cs rest ∧ rest.head? ≠ some '\'' ∧
        (∃ us more, rest = spell us ++ '\'' :: more) ∧ err = ⟨.charLiteralTooLong, 0⟩) ∨
      (cs = [] ∨ cs = ['\\'] ∨ ∃ u c rest, StartsWith u c cs rest ∧
        ¬∃ us more, rest = spell us ++ '\'' :: more) ∧ err = ⟨.unterminatedChar, 0⟩ := by
  refine ⟨fun lexeme width => ?_, fun err => ?_, fun lexeme width => ?_, fun err => ?_⟩
  · rw [scan_string, map_eq_ok_iff]
    constructor
    · rintro ⟨⟨text, past⟩, hbody, heq⟩
      obtain ⟨rfl, rfl⟩ : .string (String.ofList text) = lexeme ∧ past = width := by simpa using heq
      obtain ⟨us, rest, rfl, hus, rfl⟩ := stringBody_eq_ok_iff.mp hbody
      exact ⟨us, text, rest, rfl, hus, rfl, by omega⟩
    · rintro ⟨us, text, rest, hcs, hus, rfl, rfl⟩
      exact ⟨(text, _), stringBody_eq_ok_iff.mpr ⟨us, rest, hcs, hus, by omega⟩, rfl⟩
  · rw [scan_string, map_eq_error_iff, stringBody_eq_error_iff]
    simp only [Nat.add_comm 1]
  · rw [scan_char, map_eq_ok_iff]
    constructor
    · rintro ⟨⟨c, past⟩, hbody, heq⟩
      obtain ⟨rfl, rfl⟩ : .char c = lexeme ∧ past = width := by simpa using heq
      obtain ⟨u, rest, hstart, hpast⟩ := charBody_eq_ok_iff.mp hbody
      exact ⟨u, c, rest, hstart, rfl, hpast⟩
    · rintro ⟨u, c, rest, hstart, rfl, rfl⟩
      exact ⟨(c, _), charBody_eq_ok_iff.mpr ⟨u, rest, hstart, rfl⟩, rfl⟩
  · rw [scan_char, map_eq_error_iff, charBody_eq_error_iff]

end Token

end Reckon
