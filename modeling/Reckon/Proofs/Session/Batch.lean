import Reckon.Proofs.Expr.Extension
import Reckon.Proofs.Session.Atomic
import Reckon.Proofs.Token.Separator

/-!
# Source texts joined by a semicolon

Running two source texts one after the other is running them as one, joined by a semicolon, as far
as both succeed; and if one of them fails, nothing of either is left
(`Session.eval_append_semicolon`).

The two ways take their stages in different orders: joined, the second text is lexed and parsed
before the first is evaluated. What connects them is that each stage takes the join apart:

* the tokens of the join are the tokens of the two texts with a semicolon between
  (`Token.exists_lex_append_semicolon`), the second ones at other positions;
* the statements of the join are those of the two (`Expr.readStatements_append_semicolon`);
* statements in order can be cut anywhere (`Expr.inOrder_append_iff`).

So the join succeeds exactly if the two texts do, and a run that does not succeed puts its scope
back.
-/

namespace Reckon

namespace Expr

/-! ### Statements in order -/

/-- Statements in order can be cut anywhere. The value is that of the second part, or that of the
first if there is nothing in the second. -/
theorem inOrder_append_iff {limit : Nat} {first second : List Expr} {scope after : Scope}
    {v : Option Value} :
    InOrder limit (first ++ second) scope v after ↔
      ∃ v₁ mid v₂, InOrder limit first scope v₁ mid ∧ InOrder limit second mid v₂ after ∧
        v = v₂.or v₁ := by
  induction second using List.reverseRecOn generalizing v after with
  | nil =>
    rw [List.append_nil]
    constructor
    · intro h
      exact ⟨v, after, none, h, .nil after, rfl⟩
    · rintro ⟨v₁, mid, v₂, h, hnil, rfl⟩
      obtain ⟨rfl, rfl⟩ := inOrder_nil_iff.mp hnil
      exact h
  | append_singleton before e ih =>
    rw [← List.append_assoc, inOrder_concat_iff]
    constructor
    · rintro ⟨w, reached, x, hbefore, he, rfl⟩
      obtain ⟨v₁, mid, v₂, hfirst, hsecond, -⟩ := ih.mp hbefore
      exact ⟨v₁, mid, some x, hfirst, .snoc hsecond he, rfl⟩
    · rintro ⟨v₁, mid, v₂, hfirst, hsecond, rfl⟩
      obtain ⟨w, reached, x, hbefore, he, rfl⟩ := inOrder_concat_iff.mp hsecond
      exact ⟨w.or v₁, reached, x, ih.mpr ⟨v₁, mid, w, hfirst, hbefore, rfl⟩, he, rfl⟩

/-- There is no value exactly if there is no statement. -/
theorem InOrder.eq_none_iff {limit : Nat} {statements : List Expr} {scope after : Scope}
    {v : Option Value} (h : InOrder limit statements scope v after) :
    v = none ↔ statements = [] := by
  cases h with
  | nil => simp
  | snoc hbefore he => simp

/-! ### Programs -/

variable {stop stop' size size' limit : Nat}

/-- Programs do not depend on positions. -/
theorem readStatements_of_extends_nil {tokens tokens' : List Token} {fuel fuel' : Nat}
    {es : List Expr} (h : Extends [] tokens tokens') (hsize : tokens.length ≤ size)
    (hsize' : tokens'.length ≤ size') (hfuel : tokens.length ≤ fuel)
    (hfuel' : tokens'.length ≤ fuel')
    (hok : readStatements (parseStatementAt stop size limit) fuel tokens = .ok es) :
    readStatements (parseStatementAt stop' size' limit) fuel' tokens' = .ok es := by
  obtain ⟨rest, fuel'', hrest, -, -, hread⟩ :=
    exists_readStatements_extends hsize hsize' hfuel hfuel' h hok (.inl rfl)
  obtain rfl : rest = [] := by simpa [extends_nil_iff] using hrest
  rw [hread, readStatements_nil]
  exact congrArg Except.ok (List.append_nil es)

theorem Extends.symm {tokens tokens' : List Token} (h : Extends [] tokens tokens') :
    Extends [] tokens' tokens := by
  unfold Extends at h ⊢
  rw [h, List.append_nil, List.append_nil]

/-- **Programs joined by a semicolon.** Tokens with a semicolon between them are a program exactly
if those on both sides are, and it has the statements of both. -/
theorem readStatements_append_semicolon {first second joined : List Token} {es : List Expr}
    (h : Extends (.symbol .semicolon :: second.map Token.lexeme) first joined)
    (stop stop₁ stop₂ : Nat) :
    readStatements (parseStatementAt stop joined.length limit) joined.length joined = .ok es ↔
      ∃ es₁ es₂,
        readStatements (parseStatementAt stop₁ first.length limit) first.length first = .ok es₁ ∧
        readStatements (parseStatementAt stop₂ second.length limit) second.length second = .ok es₂ ∧
        es = es₁ ++ es₂ := by
  rcases hfirst : readStatements (parseStatementAt stop₁ first.length limit) first.length first with
    err | es₁
  · -- What is wrong with the first program, a semicolon does not mend.
    have herror : ∃ err', readStatements (parseStatementAt stop joined.length limit) joined.length
        joined = .error err' ∧ (err.isIncomplete = false → err'.isIncomplete = false) :=
      exists_error_of_readStatements (Nat.le_refl _) (Nat.le_refl _) (Nat.le_refl _) h hfirst
        (.inr rfl)
    obtain ⟨err', herr', -⟩ := herror
    simp [herr']
  obtain ⟨rest, fuel, hrest, hfuel, hle, hread⟩ := exists_readStatements_extends (Nat.le_refl _)
    (Nat.le_refl _) (Nat.le_refl _) (Nat.le_refl _) h hfirst (.inr rfl)
  obtain ⟨pos, behind, rfl, hbehind⟩ := extends_nil_cons_iff.mp hrest
  simp only [List.length_cons] at hfuel hle
  obtain ⟨fuel, rfl⟩ : ∃ k, fuel = k + 1 := ⟨fuel - 1, by omega⟩
  rw [hread, readStatements_semicolon]
  -- What stands behind the semicolon says what the second program says, at other positions.
  have hsecond : Extends [] second behind := by
    rw [Extends, extends_nil_iff.mp hbehind, List.append_nil]
  have hiff (es₂ : List Expr) :
      readStatements (parseStatementAt stop joined.length limit) fuel behind = .ok es₂ ↔
        readStatements (parseStatementAt stop₂ second.length limit) second.length second =
          .ok es₂ := by
    constructor
    · intro hok
      exact readStatements_of_extends_nil hsecond.symm (by omega) (Nat.le_refl _) (by omega)
        (Nat.le_refl _) hok
    · intro hok
      exact readStatements_of_extends_nil hsecond (Nat.le_refl _) (by omega) (Nat.le_refl _)
        (by omega) hok
  constructor
  · intro hok
    rcases hmore : readStatements (parseStatementAt stop joined.length limit) fuel behind with
      err | es₂
    · simp [hmore, Except.map] at hok
    · rw [hmore] at hok
      exact ⟨es₁, es₂, rfl, (hiff es₂).mp hmore, (Except.ok.inj hok).symm⟩
  · rintro ⟨es₁', es₂, hes₁, hes₂, rfl⟩
    obtain rfl : es₁ = es₁' := Except.ok.inj hes₁
    rw [(hiff es₂).mpr hes₂]
    rfl

end Expr

namespace Session

variable {limits : Limits}

/-! ### Runs -/

/-- A run that does not succeed leaves the scope as it was. -/
private theorem exists_eval_eq_error {source : String} {scope : Scope}
    (h : ∀ v after, eval limits source scope ≠ (.ok v, after)) :
    ∃ err, eval limits source scope = (.error err, scope) := by
  rcases heval : eval limits source scope with ⟨err | v, after⟩
  · obtain rfl := eval_of_error heval
    exact ⟨err, rfl⟩
  · exact absurd heval (h v after)

/-- The statements of two texts joined by a semicolon are those of the first and of the second. -/
private theorem exists_parseProgram_append_semicolon {a b : String} {tokens₁ tokens₂ : List Token}
    (ha : Token.lex a = .ok tokens₁) (hb : Token.lex b = .ok tokens₂) :
    ∃ tokens, Token.lex (a ++ ";" ++ b) = .ok tokens ∧
      ∀ limit es, Expr.parseProgramWithin limit tokens = .ok es ↔
        ∃ es₁ es₂, Expr.parseProgramWithin limit tokens₁ = .ok es₁ ∧
          Expr.parseProgramWithin limit tokens₂ = .ok es₂ ∧ es = es₁ ++ es₂ := by
  obtain ⟨body₁, rfl, hends₁, hjoin⟩ := Token.exists_lex_append_semicolon ha
  obtain ⟨body₂, rfl, hends₂, -⟩ := Token.exists_lex_append_semicolon hb
  let offset := a.length + 1
  let body := body₁ ++ ⟨.symbol .semicolon, a.length⟩ :: body₂.map (Token.shift offset)
  have hends : ∀ t ∈ body, t.isEnd = false := by
    intro t ht
    rcases List.mem_append.mp ht with ht | ht
    · exact hends₁ t ht
    rcases List.mem_cons.mp ht with rfl | ht
    · rfl
    · obtain ⟨t', ht', rfl⟩ := List.mem_map.mp ht
      exact hends₂ t' ht'
  have hextends : Expr.Extends (.symbol .semicolon :: body₂.map Token.lexeme) body₁ body := by
    simp [Expr.Extends, body, Function.comp_def, Token.shift]
  refine ⟨body ++ [⟨.endOfInput, offset + b.length⟩], ?_, fun limit es => ?_⟩
  · rw [hjoin, hb]
    simp [Except.map, Except.mapError, body, offset, Token.shift]
  · rw [Expr.parseProgramWithin_append_end hends, Expr.parseProgramWithin_append_end hends₁,
      Expr.parseProgramWithin_append_end hends₂]
    exact Expr.readStatements_append_semicolon hextends _ _ _

/-- Two texts joined by a semicolon succeed exactly if they do one after the other. -/
theorem eval_append_semicolon_eq_ok_iff {a b : String} {tokens : List Token}
    (hlex : Token.lex a = .ok tokens) {scope after : Scope} {v : Option Value} :
    eval limits (a ++ ";" ++ b) scope = (.ok v, after) ↔
      ∃ v₁ mid v₂, eval limits a scope = (.ok v₁, mid) ∧ eval limits b mid = (.ok v₂, after) ∧
        v = v₂.or v₁ := by
  rcases hb : Token.lex b with err | tokens₂
  · -- The second text has no tokens, and so neither has the join.
    obtain ⟨body, -, -, hjoin⟩ := Token.exists_lex_append_semicolon hlex
    have hjoined : Token.lex (a ++ ";" ++ b) = .error (err.shift (a.length + 1)) := by
      rw [hjoin, hb]
      rfl
    simp [eval_eq_ok_iff, hjoined, hb]
  obtain ⟨joined, hjoined, hparse⟩ := exists_parseProgram_append_semicolon hlex hb
  simp only [eval_eq_ok_iff, hlex, hb, hjoined]
  constructor
  · rintro ⟨_, es, ⟨⟩, hes, hshown, horder⟩
    obtain ⟨es₁, es₂, hes₁, hes₂, rfl⟩ := (hparse limits.reading es).mp hes
    obtain ⟨hshown₁, hshown₂⟩ := List.forall_mem_append.mp hshown
    obtain ⟨v₁, mid, v₂, hfirst, hsecond, rfl⟩ := Expr.inOrder_append_iff.mp horder
    exact ⟨v₁, mid, v₂, ⟨_, es₁, rfl, hes₁, hshown₁, hfirst⟩,
      ⟨_, es₂, rfl, hes₂, hshown₂, hsecond⟩, rfl⟩
  · rintro ⟨v₁, mid, v₂, ⟨_, es₁, ⟨⟩, hes₁, hshown₁, hfirst⟩,
      ⟨_, es₂, ⟨⟩, hes₂, hshown₂, hsecond⟩, rfl⟩
    have hes := (hparse limits.reading (es₁ ++ es₂)).mpr ⟨es₁, es₂, hes₁, hes₂, rfl⟩
    have hshown := List.forall_mem_append.mpr ⟨hshown₁, hshown₂⟩
    have horder := Expr.inOrder_append_iff.mpr ⟨v₁, mid, v₂, hfirst, hsecond, rfl⟩
    exact ⟨_, es₁ ++ es₂, rfl, hes, hshown, horder⟩

/-- **A batch is its parts in sequence.** Let the first of two texts have tokens. If it succeeds,
and the second one succeeds in the scope it leaves, then the two joined by a semicolon succeed and
end in the same scope, with the value of the second text, or with that of the first if the second
holds no statement. If the first text fails, or the second one fails after it, then so does the
join, and it leaves the scope as it was. -/
theorem eval_append_semicolon (limits : Limits) (a b : String) (scope : Scope) {tokens : List Token}
    (hlex : Token.lex a = .ok tokens) :
    (∀ v₁ mid v₂ after, eval limits a scope = (.ok v₁, mid) → eval limits b mid = (.ok v₂, after) →
      eval limits (a ++ ";" ++ b) scope = (.ok (v₂.or v₁), after) ∧
      (v₂ = none ↔
        ∃ ts, Token.lex b = .ok ts ∧ Expr.parseProgramWithin limits.reading ts = .ok [])) ∧
    (∀ err after, eval limits a scope = (.error err, after) →
      ∃ err', eval limits (a ++ ";" ++ b) scope = (.error err', scope)) ∧
    (∀ v₁ mid err after, eval limits a scope = (.ok v₁, mid) →
      eval limits b mid = (.error err, after) →
      ∃ err', eval limits (a ++ ";" ++ b) scope = (.error err', scope)) := by
  refine ⟨fun v₁ mid v₂ after ha hb => ⟨?_, ?_⟩, fun err after ha => ?_,
    fun v₁ mid err after ha hb => ?_⟩
  · exact (eval_append_semicolon_eq_ok_iff hlex).mpr ⟨v₁, mid, v₂, ha, hb, rfl⟩
  · obtain ⟨ts, es, hts, hes, -, horder⟩ := eval_eq_ok_iff.mp hb
    rw [horder.eq_none_iff]
    constructor
    · rintro rfl
      exact ⟨ts, hts, hes⟩
    · rintro ⟨ts', hts', hnil⟩
      obtain rfl : ts = ts' := Except.ok.inj (hts.symm.trans hts')
      exact Except.ok.inj (hes.symm.trans hnil)
  · refine exists_eval_eq_error fun v reached hok => ?_
    obtain ⟨v₁, mid, v₂, ha', -⟩ := (eval_append_semicolon_eq_ok_iff hlex).mp hok
    simp [ha] at ha'
  · refine exists_eval_eq_error fun v reached hok => ?_
    obtain ⟨v₁', mid', v₂, ha', hb', -⟩ := (eval_append_semicolon_eq_ok_iff hlex).mp hok
    obtain ⟨rfl, rfl⟩ : v₁ = v₁' ∧ mid = mid' := by simpa [ha] using ha'
    simp [hb] at hb'

/-- At `let s = "a"`, which is kept in front of a second text that succeeds, or holds no statement,
and given up with one that fails. -/
theorem eval_append_semicolon_declare :
    Token.lex "let s = \"a\"" = .ok [⟨.identifier "let", 0⟩, ⟨.identifier "s", 4⟩,
      ⟨.symbol .assign, 6⟩, ⟨.string "a", 8⟩, ⟨.endOfInput, 11⟩] ∧
    eval (.usual true) ("let s = \"a\"" ++ ";" ++ "s = s + s;") .empty =
      (.ok (some (.string "aa")), ⟨[("s", .string "aa")], []⟩) ∧
    eval (.usual true) ("let s = \"a\"" ++ ";" ++ " ;") .empty =
      (.ok (some (.string "a")), ⟨[("s", .string "a")], []⟩) ∧
    ∃ err, eval (.usual true) ("let s = \"a\"" ++ ";" ++ "s = t") .empty =
      (.error err, .empty) := by
  have hlex : Token.lex "let s = \"a\"" = .ok [⟨.identifier "let", 0⟩, ⟨.identifier "s", 4⟩,
      ⟨.symbol .assign, 6⟩, ⟨.string "a", 8⟩, ⟨.endOfInput, 11⟩] := by with_unfolding_all rfl
  have hfirst : eval (.usual true) "let s = \"a\"" .empty =
      (.ok (some (.string "a")), ⟨[("s", .string "a")], []⟩) := by with_unfolding_all rfl
  have hsecond : eval (.usual true) "s = s + s;" ⟨[("s", .string "a")], []⟩ =
      (.ok (some (.string "aa")), ⟨[("s", .string "aa")], []⟩) := by with_unfolding_all rfl
  have hnothing : eval (.usual true) " ;" ⟨[("s", .string "a")], []⟩ =
      (.ok none, ⟨[("s", .string "a")], []⟩) := by with_unfolding_all rfl
  have hunbound : eval (.usual true) "s = t" ⟨[("s", .string "a")], []⟩ =
      (.error (.eval (.undefinedName "t")), ⟨[("s", .string "a")], []⟩) := by with_unfolding_all rfl
  refine ⟨hlex, ?_, ?_, ?_⟩
  · exact ((eval_append_semicolon _ _ _ _ hlex).1 _ _ _ _ hfirst hsecond).1
  · exact ((eval_append_semicolon _ _ _ _ hlex).1 _ _ _ _ hfirst hnothing).1
  · exact (eval_append_semicolon _ _ _ _ hlex).2.2 _ _ _ _ hfirst hunbound

end Session

end Reckon
