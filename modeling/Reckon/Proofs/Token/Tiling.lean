import Reckon.Proofs.Token.Separator

/-!
# Tokens tile their text

A text that has tokens is cut up by them: blanks come first, and from each token up to the next one
stands a piece that, lexed alone, is that token and nothing else (`Token.lex_tiles`).

Two facts carry this. A scanner stops where its token ends, so a token is the same when the text is
cut off behind it (`Token.Scanned.take`). And the positions of the tokens grow, so a text can be
cut in front of any of its tokens: the tokens before the cut are those of the first part, and the
others those of the second (`Token.Lexes.cut`). A piece is what two such cuts leave.
-/

namespace Reckon

namespace Token

/-! ### Texts cut off behind a token -/

variable {c : Char} {rest : List Char} {lexeme : Lexeme} {width : Nat}

/-- A body that is closed is read the same when the text is cut off behind its closing quote. -/
theorem stringBody_take {offset past : Nat} {cs : List Char}
    (h : stringBody offset rest = .ok (cs, past)) {n : Nat} (hn : past ≤ offset + n) :
    stringBody offset (rest.take n) = .ok (cs, past) := by
  -- A closing quote among the first `n` characters leaves room for the unit in front of it.
  have hroom : offset < past := (stringBody_append h []).2.1
  fun_induction stringBody offset rest generalizing cs n with
  | case1 | case2 | case3 | case4 | case7 => simp at h
  | case5 offset letter rest c hletter cs' past' hbody ih =>
    obtain ⟨rfl, rfl⟩ : c :: cs' = cs ∧ past' = past := by simpa using h
    have hlt := (stringBody_append hbody []).2.1
    obtain ⟨m, rfl⟩ : ∃ m, n = m + 2 := ⟨n - 2, by omega⟩
    exact stringBody_unit hletter (ih hbody (by omega) hlt)
  | case6 offset rest hslash hslash' =>
    obtain ⟨rfl, rfl⟩ : [] = cs ∧ offset + 1 = past := by simpa using h
    obtain ⟨m, rfl⟩ : ∃ m, n = m + 1 := ⟨n - 1, by omega⟩
    simp [stringBody]
  | case8 offset c rest hslash hslash' hquote cs' past' hbody ih =>
    obtain ⟨rfl, rfl⟩ : c :: cs' = cs ∧ past' = past := by simpa using h
    have hlt := (stringBody_append hbody []).2.1
    obtain ⟨m, rfl⟩ : ∃ m, n = m + 1 := ⟨n - 1, by omega⟩
    have hplain := ne_backslash hslash hslash'
    exact stringBody_plain hquote hplain (ih hbody (by omega) hlt)

private theorem closeChar_take {d : Char} {offset past : Nat}
    (h : closeChar c offset rest = .ok (d, past)) (n : Nat) :
    closeChar c offset (rest.take (n + 1)) = .ok (d, past) := by
  by_cases hclose : rest.head? = some '\''
  · obtain ⟨rest', rfl⟩ := List.head?_eq_some_iff.mp hclose
    simpa [closeChar_eq] using h
  · rw [closeChar_eq, if_neg hclose] at h
    split at h <;> simp at h

/-- The same of a character body. -/
theorem charBody_take {d : Char} {past : Nat} (h : charBody rest = .ok (d, past)) {n : Nat}
    (hn : past ≤ n + 1) : charBody (rest.take n) = .ok (d, past) := by
  fun_cases charBody rest with
  | case1 | case2 | case5 => simp [charBody] at h
  | case3 letter rest hletter => simp [charBody, hletter] at h
  | case4 letter rest c hletter =>
    have hclose : closeChar c 3 rest = .ok (d, past) := by simpa [charBody, hletter] using h
    have hpast := (closeChar_append hclose []).2.1
    obtain ⟨m, rfl⟩ : ∃ m, n = m + 3 := ⟨n - 3, by omega⟩
    simpa [charBody, hletter] using closeChar_take hclose m
  | case6 c rest hslash hslash' hquote =>
    have hbody := charBody_plain hquote (ne_backslash hslash hslash')
    rw [hbody] at h
    have hpast := (closeChar_append h []).2.1
    obtain ⟨m, rfl⟩ : ∃ m, n = m + 2 := ⟨n - 2, by omega⟩
    rw [List.take_succ_cons, hbody]
    exact closeChar_take h m

/-- A run of characters is the same when the text is cut off behind it. -/
theorem takeWhile_take {test : Char → Bool} {n : Nat} (h : (rest.takeWhile test).length ≤ n) :
    (rest.take n).takeWhile test = rest.takeWhile test := by
  rw [← List.take_takeWhile, List.take_of_length_le h]

/-- **A token with nothing behind it.** It is the same token when the text is cut off anywhere
behind it. -/
theorem Scanned.take (h : Scanned c rest lexeme width) {n : Nat} (hn : width ≤ n + 1) :
    Scanned c (rest.take n) lexeme width := by
  cases h with
  | number hc hrun hvalue =>
    subst hrun
    exact .number hc (takeWhile_take (by omega)) hvalue
  | identifier hc hstart hrun =>
    subst hrun
    exact .identifier hc hstart (takeWhile_take (by omega))
  | string hbody => exact .string (stringBody_take hbody (by omega))
  | char hbody => exact .char (charBody_take hbody hn)
  | pair rest hc hpair =>
    obtain ⟨m, rfl⟩ : ∃ m, n = m + 1 := ⟨n - 1, by omega⟩
    exact .pair _ hc hpair
  | single hc hpair hsingle =>
    refine .single hc ?_ hsingle
    cases n with
    | zero => rfl
    | succ m => simpa [List.head?_take] using hpair

/-! ### Cuts -/

variable {pos : Nat} {cs : List Char} {tokens : List Token}

/-- Further right, a text has the same tokens. -/
theorem lexes_add_iff (offset : Nat) :
    Lexes (offset + pos) cs (tokens.map (shift offset)) ↔ Lexes pos cs tokens := by
  have hinj : ∀ t t' : Token, shift offset t = shift offset t' → t = t' := by
    rintro ⟨lexeme, p⟩ ⟨lexeme', p'⟩ h
    simpa [shift] using h
  rw [← lexFrom_eq_ok_iff, ← lexFrom_eq_ok_iff, lexFrom_add]
  rcases lexFrom pos cs with err | tokens'
  · simp [Except.map, Except.mapError]
  · simp [Except.map, Except.mapError, List.map_inj_right hinj]

namespace Lexes

/-- No token stands in front of the text. -/
theorem le_pos (h : Lexes pos cs tokens) : ∀ t ∈ tokens, pos ≤ t.pos := by
  induction h with
  | stop pos => simp
  | blank hc h ih =>
    intro t ht
    exact Nat.le_of_succ_le (ih t ht)
  | token hc hscan h ih =>
    refine List.forall_mem_cons.mpr ⟨Nat.le_refl _, fun t ht => ?_⟩
    exact Nat.le_trans (Nat.le_add_right _ _) (ih t ht)

/-- **Order.** Positions grow from token to token. -/
theorem pairwise_pos (h : Lexes pos cs tokens) : tokens.Pairwise (·.pos < ·.pos) := by
  induction h with
  | stop pos => simp
  | blank hc h ih => exact ih
  | @token pos width c rest lexeme tokens hc hscan h ih =>
    refine List.pairwise_cons.mpr ⟨fun t ht => ?_, ih⟩
    have hle : pos + width ≤ t.pos := h.le_pos t ht
    have hpos : 0 < width := hscan.width_pos_le.1
    exact Nat.lt_of_lt_of_le (Nat.lt_add_of_pos_right hpos) hle

/-- The last token marks the end of the text, and no other one does. -/
private theorem exists_body (h : Lexes pos cs tokens) :
    ∃ body, tokens = body ++ [⟨.endOfInput, pos + cs.length⟩] ∧
      ∀ t ∈ body, t.lexeme ≠ .endOfInput := by
  obtain ⟨body, hbody, hends, -⟩ :=
    exists_lexFrom_append separates_semicolon (lexFrom_eq_ok_iff.mpr h)
  exact ⟨body, hbody, fun t ht => by simpa [isEnd] using hends t ht⟩

/-- The first token comes behind the blanks in front. -/
private theorem exists_first (h : Lexes pos cs tokens) :
    ∃ first more, tokens = first :: more ∧
      first.pos = pos + (cs.takeWhile Text.isBlank).length := by
  induction h with
  | stop pos => exact ⟨_, [], rfl, rfl⟩
  | blank hc h ih =>
    obtain ⟨first, more, htokens, hfirst⟩ := ih
    refine ⟨first, more, htokens, ?_⟩
    rw [hfirst, List.takeWhile_cons_of_pos hc, List.length_cons]
    omega
  | token hc hscan h ih =>
    refine ⟨_, _, rfl, ?_⟩
    rw [List.takeWhile_cons_of_neg (by simp [hc])]
    rfl

/-- **Cutting a text in front of a token.** The tokens before the cut are those of the first part,
and the others are those of the second. -/
theorem cut {before after : List Token} {t : Token} {n : Nat}
    (h : Lexes pos cs (before ++ t :: after)) (ht : t.pos = pos + n) :
    Lexes pos (cs.take n) (before ++ [⟨.endOfInput, pos + n⟩]) ∧
      Lexes (pos + n) (cs.drop n) (t :: after) := by
  generalize htokens : before ++ t :: after = tokens at h
  induction h generalizing before n with
  | stop pos =>
    obtain ⟨rfl, hsingle⟩ := List.append_eq_singleton_iff.mp htokens |>.resolve_right (by simp)
    obtain ⟨rfl, rfl⟩ := List.cons.inj hsingle
    obtain rfl : n = 0 := by simpa using ht
    exact ⟨.stop pos, .stop pos⟩
  | @blank pos c rest tokens hc h ih =>
    subst htokens
    have hle : pos + 1 ≤ t.pos := h.le_pos t (by simp)
    obtain ⟨m, rfl⟩ : ∃ m, n = m + 1 := ⟨n - 1, by omega⟩
    obtain ⟨hfront, hback⟩ := ih (n := m) (by omega) rfl
    have hstop : pos + 1 + m = pos + (m + 1) := by omega
    rw [hstop] at hfront hback
    exact ⟨.blank hc hfront, hback⟩
  | @token pos width c rest lexeme tokens hc hscan h ih =>
    cases before with
    | nil =>
      -- The cut is in front of this token.
      obtain ⟨rfl, rfl⟩ := List.cons.inj htokens
      obtain rfl : n = 0 := by simpa using ht
      exact ⟨.stop pos, .token hc hscan h⟩
    | cons first before =>
      obtain ⟨rfl, rfl⟩ := List.cons.inj htokens
      have hle : pos + width ≤ t.pos := h.le_pos t (by simp)
      obtain ⟨k, rfl⟩ : ∃ k, width = k + 1 := ⟨width - 1, by have := hscan.width_pos_le; omega⟩
      obtain ⟨m, rfl⟩ : ∃ m, n = k + m + 1 := ⟨n - (k + 1), by omega⟩
      obtain ⟨hfront, hback⟩ := ih (n := m) (by omega) rfl
      have hstop : pos + (k + 1) + m = pos + (k + m + 1) := by omega
      have hpiece : (rest.take (k + m)).drop k = (rest.drop k).take m := by
        rw [List.drop_take, Nat.add_sub_cancel_left]
      rw [hstop, Nat.add_sub_cancel] at hfront hback
      rw [List.drop_drop] at hback
      rw [← hpiece] at hfront
      exact ⟨.token hc (hscan.take (by omega)) hfront, hback⟩

/-- **One piece.** From a token up to the next one, the text has that token and no other. -/
theorem piece {before after : List Token} {t next : Token}
    (h : Lexes 0 cs (before ++ t :: next :: after)) :
    Lexes 0 ((cs.drop t.pos).take (next.pos - t.pos))
      [⟨t.lexeme, 0⟩, ⟨.endOfInput, next.pos - t.pos⟩] := by
  have hlt : t.pos < next.pos := by
    have hsorted := (List.pairwise_append.mp h.pairwise_pos).2.1
    exact (List.pairwise_cons.mp hsorted).1 next (by simp)
  have hback : Lexes t.pos (cs.drop t.pos) ([t] ++ next :: after) := by
    simpa using (h.cut (n := t.pos) (by simp)).2
  have hpiece := (hback.cut (n := next.pos - t.pos) (by omega)).1
  -- The piece starts where its token does; alone it starts at zero.
  exact (lexes_add_iff t.pos).mp (by simpa [shift] using hpiece)

end Lexes

end Token

/-! ### Pieces -/

/-- The characters of a text from one offset up to another. -/
def Text.slice (s : String) (start stop : Nat) : String :=
  String.ofList ((s.toList.drop start).take (stop - start))

namespace Token

/-- The last token of a text marks its end, and no other one does. -/
theorem exists_body_of_lex {source : String} {tokens : List Token}
    (h : lex source = .ok tokens) : ∃ body, tokens = body ++ [⟨.endOfInput, source.length⟩] ∧
      ∀ t ∈ body, t.lexeme ≠ .endOfInput := by
  have hbody := (lexFrom_eq_ok_iff.mp h).exists_body
  rwa [Nat.zero_add, String.length_toList] at hbody

/-- What stands in a text from each token up to the next. -/
def pieces (source : String) : List Token → List String
  | t :: next :: more => Text.slice source t.pos next.pos :: pieces source (next :: more)
  | _ => []

/-- The pieces make up the text from the first token up to the last. -/
theorem toList_join_pieces (source : String) {first : Token} {more : List Token}
    (hsorted : (first :: more).Pairwise (·.pos < ·.pos))
    (hlast : ∀ last, (first :: more).getLast? = some last → last.pos = source.length) :
    (String.join (pieces source (first :: more))).toList = source.toList.drop first.pos := by
  induction more generalizing first with
  | nil =>
    have hend : first.pos = source.length := hlast first rfl
    rw [hend, ← String.length_toList, List.drop_length]
    rfl
  | cons next more ih =>
    obtain ⟨hfirst, hmore⟩ := List.pairwise_cons.mp hsorted
    have hlt : first.pos < next.pos := hfirst next (by simp)
    have hrest := ih hmore (by simpa using hlast)
    rw [pieces, String.join_cons, String.toList_append, hrest, Text.slice, String.toList_ofList]
    have hdrop : source.toList.drop next.pos =
        (source.toList.drop first.pos).drop (next.pos - first.pos) := by
      rw [List.drop_drop, Nat.add_sub_of_le (Nat.le_of_lt hlt)]
    rw [hdrop, List.take_append_drop]

/-- **Tokens tile their text.** Let a text have tokens.

* The last one marks its end, no other one does, and the others start in front of the end.
* Positions grow from token to token.
* From a token up to the next one stands a text that, lexed alone, is this token and nothing else.
* In front of the first token stand blanks, and these and the pieces make up the text: no character
  is lost, and none belongs to two tokens. -/
theorem lex_tiles {source : String} {tokens : List Token} (h : lex source = .ok tokens) :
    (∃ body, tokens = body ++ [⟨.endOfInput, source.length⟩] ∧
      ∀ t ∈ body, t.lexeme ≠ .endOfInput ∧ t.pos < source.length) ∧
    tokens.Pairwise (·.pos < ·.pos) ∧
    (∀ t next, [t, next] <:+: tokens → lex (Text.slice source t.pos next.pos) =
      .ok [⟨t.lexeme, 0⟩, ⟨.endOfInput, next.pos - t.pos⟩]) ∧
    ∃ first, tokens.head? = some first ∧
      (∀ c ∈ (Text.slice source 0 first.pos).toList, Text.isBlank c) ∧
      Text.slice source 0 first.pos ++ String.join (pieces source tokens) = source := by
  have hlexes : Lexes 0 source.toList tokens := lexFrom_eq_ok_iff.mp h
  have hsorted := hlexes.pairwise_pos
  obtain ⟨body, hbody, hends⟩ := exists_body_of_lex h
  refine ⟨⟨body, hbody, fun t ht => ⟨hends t ht, ?_⟩⟩, hsorted, ?_, ?_⟩
  · rw [hbody, List.pairwise_append] at hsorted
    exact hsorted.2.2 t ht _ (List.mem_singleton_self _)
  · rintro t next ⟨before, after, rfl⟩
    -- The run is cut in front of `t` and again in front of `next`.
    have hsplit : Lexes 0 source.toList (before ++ t :: next :: after) := by simpa using hlexes
    rw [lex, Text.slice, String.toList_ofList]
    exact lexFrom_eq_ok_iff.mpr hsplit.piece
  · obtain ⟨first, more, rfl, hfirst⟩ := hlexes.exists_first
    rw [Nat.zero_add] at hfirst
    have hgap : (Text.slice source 0 first.pos).toList = source.toList.take first.pos := by
      rw [Text.slice, String.toList_ofList, List.drop_zero, Nat.sub_zero]
    refine ⟨first, rfl, fun c hc => ?_, ?_⟩
    · have hrun : source.toList.take first.pos = source.toList.takeWhile Text.isBlank := by
        rw [hfirst]
        exact (List.prefix_iff_eq_take.mp (List.takeWhile_prefix _)).symm
      rw [hgap, hrun] at hc
      exact List.mem_takeWhile_imp hc
    · have hjoin := toList_join_pieces source hsorted fun last hlast => by
        rw [hbody, List.getLast?_concat] at hlast
        exact Option.some.inj hlast ▸ rfl
      apply String.toList_injective
      rw [String.toList_append, hgap, hjoin, List.take_append_drop]

/-- At a text with blanks in front, tokens that stand side by side, and a blank in a literal. -/
theorem lex_tiles_assignment :
    lex " s=\"a b\">=s " = .ok [⟨.identifier "s", 1⟩, ⟨.symbol .assign, 2⟩, ⟨.string "a b", 3⟩,
      ⟨.symbol .atLeast, 8⟩, ⟨.identifier "s", 10⟩, ⟨.endOfInput, 12⟩] ∧
    lex (Text.slice " s=\"a b\">=s " 3 8) = .ok [⟨.string "a b", 0⟩, ⟨.endOfInput, 5⟩] ∧
    lex (Text.slice " s=\"a b\">=s " 10 12) = .ok [⟨.identifier "s", 0⟩, ⟨.endOfInput, 2⟩] := by
  have hlex : lex " s=\"a b\">=s " = .ok [⟨.identifier "s", 1⟩, ⟨.symbol .assign, 2⟩,
      ⟨.string "a b", 3⟩, ⟨.symbol .atLeast, 8⟩, ⟨.identifier "s", 10⟩, ⟨.endOfInput, 12⟩] := by
    with_unfolding_all rfl
  obtain ⟨-, -, hpieces, -⟩ := lex_tiles hlex
  refine ⟨hlex, hpieces ⟨.string "a b", 3⟩ ⟨.symbol .atLeast, 8⟩ ?_,
    hpieces ⟨.identifier "s", 10⟩ ⟨.endOfInput, 12⟩ ?_⟩
  · exact ⟨[⟨.identifier "s", 1⟩, ⟨.symbol .assign, 2⟩], _, rfl⟩
  · exact ⟨[⟨.identifier "s", 1⟩, ⟨.symbol .assign, 2⟩, ⟨.string "a b", 3⟩,
      ⟨.symbol .atLeast, 8⟩], [], rfl⟩

end Token

end Reckon
