import Reckon.Proofs.Eval.Limit
import Reckon.Proofs.Expr.Sentence
import Reckon.Proofs.Session.Atomic

/-!
# What a limit on nesting can change

The parser and the evaluator each work under a limit on how deeply things may be nested.
`Session.eq_of_settled_within` says that such a limit can only cut a result off: a result that is
not the complaint about nesting is the result under every greater limit, be it a value, a tree or
any other error.

For the evaluator that is `Expr.evaluateAll_of_le`. The parser is made of readers that take other
readers as arguments, and the argument goes the same way: `Expr.Refines` says that one reader does
what another does wherever that one has levels enough, every reader preserves this in its arguments,
and by induction on the depth it holds between the readers of one level at two depths.
-/

namespace Reckon

namespace Expr

/-! ### Readers -/

/-- Where `reader` does not run out of levels, `reader'` does the same. -/
def Refines (reader reader' : Reader) : Prop :=
  ∀ tokens, reader tokens ≠ .error .nestingTooDeep → reader' tokens = reader tokens

namespace Refines

variable {reader reader' : Reader} {stop : Nat}

theorem readUnary (h : Refines reader reader') (op : Symbol) :
    Refines (readUnary op reader) (readUnary op reader') := by
  intro tokens hne
  have hsame : reader' tokens = reader tokens :=
    h tokens fun hcut => hne (readUnary_eq_error_iff.mpr hcut)
  simp only [Expr.readUnary, hsame]

theorem readChain (h : Refines reader reader') (joins : Symbol → Bool) (fuel : Nat) (left : Expr) :
    Refines (readChain joins reader fuel left) (readChain joins reader' fuel left) := by
  induction fuel generalizing left with
  | zero => exact fun _ _ => rfl
  | succ fuel ih =>
    intro tokens hne
    rcases avoids_or_exists joins tokens with havoids | ⟨s, pos, input, hs, rfl⟩
    · rw [readChain_of_avoids havoids, readChain_of_avoids havoids]
    · have hsame : reader' input = reader input :=
        h input fun hcut => hne (readChain_of_error hs hcut fuel pos)
      rcases hright : reader input with err | ⟨right, rest⟩
      · rw [readChain_of_error hs hright, readChain_of_error hs (hsame.trans hright)]
      · rw [readChain_of_ok hs hright] at hne ⊢
        rw [readChain_of_ok hs (hsame.trans hright)]
        exact ih _ rest hne

theorem readJoined (h : Refines reader reader') (size : Nat) (joins : Symbol → Bool) :
    Refines (readJoined size joins reader) (readJoined size joins reader') := by
  intro tokens hne
  have hsame : reader' tokens = reader tokens :=
    h tokens fun hcut => hne (readJoined_of_error hcut)
  rcases hleft : reader tokens with err | ⟨left, rest⟩
  · rw [readJoined_of_error hleft, readJoined_of_error (hsame.trans hleft)]
  · rw [readJoined_of_ok hleft] at hne ⊢
    rw [readJoined_of_ok (hsame.trans hleft)]
    exact h.readChain joins size left rest hne

theorem readPower (h : Refines reader reader') (base : Expr) :
    Refines (readPower reader base) (readPower reader' base) := by
  intro tokens hne
  by_cases hpower : leading? tokens = some .power
  · obtain ⟨pos, input, rfl⟩ := exists_of_leading? hpower
    have hsame : reader' input = reader input :=
      h input fun hcut => hne (readPower_of_error hcut pos)
    simp only [Expr.readPower, hsame]
  · rw [readPower_of_ne hpower, readPower_of_ne hpower]

theorem readIdentifier (h : Refines reader reader') (name : String) (pos : Nat) :
    Refines (readIdentifier reader name pos) (readIdentifier reader' name pos) := by
  intro tokens hne
  by_cases hassign : leading? tokens = some .assign
  · obtain ⟨pos', input, rfl⟩ := exists_of_leading? hassign
    cases hname : isReserved name with
    | true => simp only [Expr.readIdentifier, hname, if_true]
    | false =>
      have hsame : reader' input = reader input :=
        h input fun hcut => hne (readIdentifier_assign_of_error hname hcut)
      simp only [Expr.readIdentifier, hsame]
  · rw [readIdentifier_of_ne hassign, readIdentifier_of_ne hassign]

theorem readAtom (h : Refines reader reader') (stop : Nat) :
    Refines (readAtom stop reader) (readAtom stop reader') := by
  intro tokens hne
  rcases tokens with _ | ⟨⟨lexeme, pos⟩, input⟩
  · rfl
  cases lexeme with
  | identifier name => exact h.readIdentifier name pos input hne
  | symbol s =>
    by_cases hs : s = .openParen
    · have hsame : reader' input = reader input :=
        h input fun hcut => hne (by simp [Expr.readAtom, hs, hcut])
      simp only [Expr.readAtom, hsame]
    · simp only [Expr.readAtom, hs, if_false]
  | _ => rfl

theorem readInit (h : Refines reader reader') (stop : Nat) (name : String) :
    Refines (readInit stop reader name) (readInit stop reader' name) := by
  intro tokens hne
  rcases tokens with _ | ⟨⟨lexeme, pos⟩, input⟩
  · rfl
  by_cases hassign : lexeme = .symbol .assign
  · subst hassign
    have hsame : reader' input = reader input :=
      h input fun hcut => hne (by simp [Expr.readInit, hcut])
    simp only [Expr.readInit, hsame]
  · cases lexeme <;> simp only [Expr.readInit, hassign, if_false]

theorem readDeclaration (h : Refines reader reader') (stop : Nat) :
    Refines (readDeclaration stop reader) (readDeclaration stop reader') := by
  intro tokens hne
  rcases tokens with _ | ⟨⟨lexeme, pos⟩, input⟩
  · rfl
  cases lexeme with
  | identifier name =>
    cases hname : isReserved name with
    | true => simp only [Expr.readDeclaration, hname, if_true]
    | false =>
      simp only [Expr.readDeclaration, hname, Bool.false_eq_true, if_false] at hne ⊢
      exact h.readInit stop name input hne
  | _ => rfl

theorem readStatement (h : Refines reader reader') (stop : Nat) :
    Refines (readStatement stop reader) (readStatement stop reader') := by
  intro tokens hne
  by_cases hlet : ∃ pos input, tokens = ⟨.identifier declareWord, pos⟩ :: input
  · obtain ⟨pos, input, rfl⟩ := hlet
    simp only [Expr.readStatement, if_true] at hne ⊢
    exact h.readDeclaration stop input hne
  · have hword : ∀ pos input, tokens ≠ ⟨.identifier declareWord, pos⟩ :: input :=
      fun pos input heq => hlet ⟨pos, input, heq⟩
    rw [readStatement_of_ne hword] at hne ⊢
    rw [readStatement_of_ne hword]
    exact h tokens hne

/-- Statements are read one after the other, and none of those looked at was cut off. -/
theorem readStatements_eq (h : Refines reader reader') {fuel : Nat} {tokens : List Token}
    (hne : readStatements reader fuel tokens ≠ .error .nestingTooDeep) :
    readStatements reader' fuel tokens = readStatements reader fuel tokens := by
  induction fuel generalizing tokens with
  | zero => rfl
  | succ fuel ih =>
    rcases tokens with _ | ⟨t, rest⟩
    · rfl
    by_cases ht : t.lexeme = .symbol .semicolon
    · simp only [readStatements, ht, if_true] at hne ⊢
      exact ih hne
    have hsame : reader' (t :: rest) = reader (t :: rest) :=
      h (t :: rest) fun hcut => hne (readStatements_of_error ht hcut)
    rcases hstatement : reader (t :: rest) with err | ⟨e, rest'⟩
    · rw [readStatements_of_error ht hstatement,
        readStatements_of_error ht (hsame.trans hstatement)]
    · cases hend : blockingToken? rest' with
      | some found => simp only [readStatements, ht, if_false, hsame, hstatement, hend]
      | none =>
        have hmore : readStatements reader' fuel rest' = readStatements reader fuel rest' :=
          ih fun hcut => hne (readStatements_of_more_error ht hstatement hend hcut)
        simp only [readStatements, ht, if_false, hsame, hstatement, hend, hmore]

end Refines

/-- **Levels.** A level read with more levels left to open is read the same. -/
theorem refines_parseAt {k k' : Nat} (hk : k ≤ k') (stop size : Nat) (level : Level) :
    Refines (parseAt stop size k level) (parseAt stop size k' level) := by
  induction k generalizing k' level with
  | zero => exact fun tokens hne => absurd (parseAt_zero level) hne
  | succ k ih =>
    obtain ⟨k', rfl⟩ : ∃ j, k' = j + 1 := ⟨k' - 1, by omega⟩
    replace ih (level : Level) : Refines (parseAt stop size k level) (parseAt stop size k' level) :=
      ih (Nat.le_of_succ_le_succ hk) level
    intro tokens hne
    have hstep := levelStep_parseAt stop size k level tokens
    generalize hresult : parseAt stop size (k + 1) level tokens = result at hstep hne
    -- What the level does is settled by the tokens in front of it, whatever the depth.
    cases hstep with
    | bang pos input =>
      rw [parseAt_bang]
      exact (ih .comparison).readUnary .bang input hne
    | chain hchain hbang =>
      rw [parseAt_chain hchain hbang]
      exact (ih level.tighter).readJoined size level.joins tokens hne
    | sign hop pos input =>
      rw [parseAt_sign hop]
      exact (ih .signed).readUnary _ input hne
    | unsigned hplus hminus =>
      rw [parseAt_unsigned hplus hminus]
      exact ih .power tokens hne
    | noBase hbase =>
      have hsame := ih .atom tokens (by rwa [hbase])
      exact parseAt_power_of_error (hsame.trans hbase)
    | power hbase =>
      have hsame := ih .atom tokens (by simp [hbase])
      rw [parseAt_power_of_ok (hsame.trans hbase)]
      exact (ih .signed).readPower _ _ hne
    | atom => exact (ih .comparison).readAtom stop tokens hne

/-! ### Programs -/

section Programs

variable {k k' : Nat} {ts : List Token}

private theorem refines_parseStatementAt (hk : k ≤ k') (stop size : Nat) :
    Refines (parseStatementAt stop size k) (parseStatementAt stop size k') :=
  (refines_parseAt hk stop size .comparison).readStatement stop

theorem parseProgramWithin_of_le (hk : k ≤ k')
    (hne : parseProgramWithin k ts ≠ .error .nestingTooDeep) :
    parseProgramWithin k' ts = parseProgramWithin k ts :=
  (refines_parseStatementAt hk _ _).readStatements_eq hne

theorem parseWithin_of_le (hk : k ≤ k') (hne : parseWithin k ts ≠ .error .nestingTooDeep) :
    parseWithin k' ts = parseWithin k ts := by
  unfold parseWithin at hne ⊢
  dsimp only at hne ⊢
  rw [refines_parseStatementAt hk _ _ _ fun hcut => hne (by simp only [hcut])]

end Programs

end Expr

/-- The error says that something is nested too deeply. -/
def Error.isCutOff : Error → Bool
  | parse .nestingTooDeep | eval .nestingTooDeep | unshowable => true
  | _ => false

namespace Session

/-! ### Runs -/

/-- Statements that were cut off say so: putting the scope back is no error of its own. -/
private theorem settled_of_evalStatements {limit : Nat} {statements : List Expr} {scope : Scope}
    (h : (evalStatements limit statements scope).1 ≠ .error (.eval .nestingTooDeep)) :
    (Expr.evaluateAll limit none statements scope).Settled := by
  intro hcut
  have hwrites := Expr.writes_evaluateAll limit none statements scope
  rcases heval : Expr.evaluateAll limit none statements scope with ⟨err | v, after⟩
  · obtain rfl : err = .nestingTooDeep := by simpa [heval] using hcut
    rw [heval] at hwrites
    simp [evalStatements, heval, Scope.restore_writes hwrites] at h
  · simp [heval] at hcut

theorem evalStatements_of_le {k k' : Nat} (hk : k ≤ k') {statements : List Expr} {scope : Scope}
    (h : (evalStatements k statements scope).1 ≠ .error (.eval .nestingTooDeep)) :
    evalStatements k' statements scope = evalStatements k statements scope := by
  simp only [evalStatements, Expr.evaluateAll_of_le hk (settled_of_evalStatements h)]

/-- The second limits leave room for all that the first ones leave room for. -/
structure Limits.Le (limits limits' : Limits) : Prop where
  reading : limits.reading ≤ limits'.reading
  evaluating : limits.evaluating ≤ limits'.evaluating
  showing : ∀ e, limits.shows e → limits'.shows e

/-- **Runs.** A run that is not cut off is the same within greater limits. -/
theorem eval_of_le {limits limits' : Limits} (hle : limits.Le limits') {source : String}
    {scope : Scope}
    (h : ∀ err, (eval limits source scope).1 = .error err → err.isCutOff = false) :
    eval limits' source scope = eval limits source scope := by
  rw [eval_eq] at h ⊢
  rw [eval_eq]
  rcases hlex : Token.lex source with err | tokens
  · rfl
  simp only [hlex] at h ⊢
  have hparse : Expr.parseProgramWithin limits'.reading tokens =
      Expr.parseProgramWithin limits.reading tokens := by
    refine Expr.parseProgramWithin_of_le hle.reading fun hcut => ?_
    exact absurd (h (.parse .nestingTooDeep) (by rw [hcut])) (by decide)
  rw [hparse]
  rcases hstatements : Expr.parseProgramWithin limits.reading tokens with err | statements
  · rfl
  simp only [hstatements] at h ⊢
  split at h
  next hshown =>
    have hshown' : statements.all limits'.shows := by
      rw [List.all_eq_true] at hshown ⊢
      exact fun e he => hle.showing e (hshown e he)
    rw [if_pos hshown, if_pos hshown']
    refine evalStatements_of_le hle.evaluating fun hcut => ?_
    exact absurd (h (.eval .nestingTooDeep) hcut) (by decide)
  · exact absurd (h .unshowable rfl) (by decide)

/-- **A limit only cuts off.** Take two limits on nesting. If the parser, asked for one statement or
for a program, ends under the smaller one in anything but the complaint about nesting, then it ends
in the same under the greater one. If statements, evaluated in any scope, come to anything but that
complaint under the smaller limit, then they come to the same value or error under the greater one
and leave the same scope, both as the evaluator leaves it and after a failure has been undone, as a
session does it. The same holds of whole runs, the limit on what can be shown included. -/
theorem eq_of_settled_within {k k' : Nat} (hk : k ≤ k') :
    (∀ ts, Expr.parseWithin k ts ≠ .error .nestingTooDeep →
      Expr.parseWithin k' ts = Expr.parseWithin k ts) ∧
    (∀ ts, Expr.parseProgramWithin k ts ≠ .error .nestingTooDeep →
      Expr.parseProgramWithin k' ts = Expr.parseProgramWithin k ts) ∧
    (∀ statements scope,
      (Expr.evaluateAll k none statements scope).1 ≠ .error .nestingTooDeep →
      Expr.evaluateAll k' none statements scope = Expr.evaluateAll k none statements scope) ∧
    (∀ statements scope,
      (evalStatements k statements scope).1 ≠ .error (.eval .nestingTooDeep) →
      evalStatements k' statements scope = evalStatements k statements scope) ∧
    ∀ (limits limits' : Limits), limits.Le limits' → ∀ source scope,
      (∀ err, (eval limits source scope).1 = .error err → err.isCutOff = false) →
      eval limits' source scope = eval limits source scope :=
  ⟨fun _ => Expr.parseWithin_of_le hk, fun _ => Expr.parseProgramWithin_of_le hk,
    fun _ _ => Expr.evaluateAll_of_le hk, fun _ _ => evalStatements_of_le hk,
    fun _ _ hle _ _ => eval_of_le hle⟩

/-- At `let s = ("a")`, for which twenty levels are just enough, and at that statement in front of a
name that is not bound. -/
theorem eq_of_settled_within_group :
    let ts : List Token := [⟨.identifier "let", 0⟩, ⟨.identifier "s", 4⟩, ⟨.symbol .assign, 6⟩,
      ⟨.symbol .openParen, 8⟩, ⟨.string "a", 9⟩, ⟨.symbol .closeParen, 12⟩, ⟨.endOfInput, 13⟩]
    let e : Expr := .declare "s" (.literal (.string "a"))
    20 ≤ 1000 ∧ Expr.parseProgramWithin 19 ts = .error .nestingTooDeep ∧
      Expr.parseWithin 1000 ts = .ok e ∧ Expr.parseProgramWithin 1000 ts = .ok [e] ∧
      Expr.evaluateAll 1000 none [e, .access "t"] .empty =
        (.error (.undefinedName "t"), ⟨[("s", .string "a")], []⟩) ∧
      evalStatements 1000 [e, .access "t"] .empty =
        (.error (.eval (.undefinedName "t")), .empty) := by
  intro ts e
  have hlimit : 20 ≤ 1000 := by decide
  have hcut : Expr.parseProgramWithin 19 ts = .error .nestingTooDeep := by with_unfolding_all rfl
  have hsingle : Expr.parseWithin 20 ts = .ok e := by with_unfolding_all rfl
  have hprogram : Expr.parseProgramWithin 20 ts = .ok [e] := by with_unfolding_all rfl
  have heval : Expr.evaluateAll 20 none [e, .access "t"] .empty =
      (.error (.undefinedName "t"), ⟨[("s", .string "a")], []⟩) := by with_unfolding_all rfl
  have hrun : evalStatements 20 [e, .access "t"] .empty =
      (.error (.eval (.undefinedName "t")), .empty) := by with_unfolding_all rfl
  obtain ⟨hsingle', hprogram', heval', hrun', -⟩ := eq_of_settled_within hlimit
  refine ⟨hlimit, hcut, ?_, ?_, ?_, ?_⟩
  · rw [hsingle' ts (by simp [hsingle]), hsingle]
  · rw [hprogram' ts (by simp [hprogram]), hprogram]
  · rw [heval' _ _ (by simp [heval]), heval]
  · rw [hrun' _ _ (by simp [hrun]), hrun]

end Session

end Reckon
