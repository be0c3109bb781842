import Reckon.Proofs.Expr.Reader

/-!
# Writing expressions

`Expr.write` turns an expression into lexemes, with parentheses only where the reader would
otherwise build something else. Each place an operand can stand in asks for a certain *tightness*,
and an operand that is looser than its place is put in parentheses. Places and expressions are
measured on one scale: `0` for `!` and assignments, which swallow everything after them, `1` for
comparisons, then one step for every level up to `10` for atoms.

`Expr.parseAt_write` says that reading inverts writing on every level, and `Expr.nestingAt` how many
levels have to be open at once for that. The count is exact: with one level less the reader gives
up.

The three readings of an expression that the proof keeps apart are those of `Expr.RoundTrip`: in an
open place, as an operand of a level, and as the first operands of a chain that goes on.
-/

namespace Reckon

/-! ### The writer -/

/-- How tightly an operator between two operands binds. -/
def Symbol.tightness (op : Symbol) : Nat :=
  match op.level? with
  | some level => level.rank + 1
  | none => 0

/-- The place to the left of an operator. Operators group to the left, `**` aside. -/
def Symbol.leftPlace (op : Symbol) : Nat := if op = .power then 10 else op.tightness

/-- The place to the right of an operator. -/
def Symbol.rightPlace (op : Symbol) : Nat := if op = .power then 8 else op.tightness + 1

/-- The lexeme of a value: a constant is a word, all else a literal. -/
def Value.lexeme : Value → Lexeme
  | .bool true => .identifier "true"
  | .bool false => .identifier "false"
  | .number .nan => .identifier "NaN"
  | .number (.inf false) => .identifier "inf"
  | .number x => .number x
  | .string s => .string s
  | .char c => .char c

namespace Expr

/-- How tightly an expression holds together. -/
def tightness : Expr → Nat
  | literal _ | access _ => 10
  | binary op _ _ => op.tightness
  | unary op _ => if op = .bang then 0 else 8
  | assign .. | declare .. => 0

/-- Lexemes in parentheses, when these are asked for. -/
def grouped (parens : Bool) (text : List Lexeme) : List Lexeme :=
  if parens then .symbol .openParen :: (text ++ [.symbol .closeParen]) else text

/-- The lexemes of an expression. -/
def write : Expr → List Lexeme
  | literal v => [v.lexeme]
  | access name => [.identifier name]
  | unary op e =>
    .symbol op :: (if op = .bang then write e else grouped (e.tightness < 8) (write e))
  | binary op l r =>
    grouped (l.tightness < op.leftPlace) (write l)
      ++ .symbol op :: grouped (r.tightness < op.rightPlace) (write r)
  | assign name e => .identifier name :: .symbol .assign :: write e
  | declare name e =>
    .identifier declareWord :: .identifier name :: .symbol .assign :: write e

/-- The lexemes of an operand in a place of the given tightness. -/
def writeAt (place : Nat) (e : Expr) : List Lexeme := grouped (e.tightness < place) e.write

/-! ### Expressions that have a text -/

/-- An operand as source text can spell it: signs and `!` in front of operands, operators between
them, no reserved word as a name, and no declaration. -/
def isPlain : Expr → Bool
  | literal _ => true
  | access name => !isReserved name
  | unary op e => (op == .plus || op == .minus || op == .bang) && isPlain e
  | binary op l r => op.level?.isSome && isPlain l && isPlain r
  | assign name e => !isReserved name && isPlain e
  | declare .. => false

/-- A statement as source text can spell it: an operand, or a declaration with one. -/
def isStatement : Expr → Bool
  | declare name e => !isReserved name && isPlain e
  | e => isPlain e

/-! ### Levels open at once -/

/-- The levels open at once while text is read in a place, from the tightness of the expression and
the number open at once from its own level on. Parentheses open all levels from the place to the
atoms and start again. -/
def levelsAt (place tightness own : Nat) : Nat :=
  if tightness < place then 11 - place + (tightness - 1 + own)
  else tightness - 1 - (place - 1) + own

/-- The levels open at once while the text of an expression is read, from its own level on. -/
def nesting : Expr → Nat
  | literal _ | access _ => 1
  | unary op e =>
    1 + levelsAt (if op = .bang then 0 else 8) e.tightness (nesting e)
  | binary op l r =>
    let left := levelsAt op.leftPlace l.tightness (nesting l)
    let right := levelsAt op.rightPlace r.tightness (nesting r)
    if op = .power then 1 + max left right else max left (1 + right)
  | assign _ e => 10 + levelsAt 0 e.tightness (nesting e)
  | declare _ e => levelsAt 0 e.tightness (nesting e)

/-- The levels open at once while the text of an expression is read in a place. -/
def nestingAt (place : Nat) (e : Expr) : Nat := levelsAt place e.tightness e.nesting

/-! ### What may follow -/

/-- An operator ends what is tighter than its own level. -/
theorem ends_of_level? {level level' : Level} {op : Symbol} (hop : op.level? = some level)
    (hrank : level.rank < level'.rank) (pos : Nat) (rest : List Token) :
    Ends level' (⟨.symbol op, pos⟩ :: rest) := by
  refine avoids_symbol.mpr ?_
  have hassign : (op == .assign) = false := by
    cases op <;> first | rfl | simp [Symbol.level?] at hop
  simp only [Level.continues, Level.covers, hop, hassign, Bool.or_false, decide_eq_false_iff_not]
  omega

theorem Ends.avoids_joins {level : Level} {rest : List Token} (h : Ends level rest)
    (hchain : level.isChain) : Avoids level.joins rest := by
  refine Avoids.imp h fun s hs => ?_
  simp only [Level.continues, Level.covers_eq_of_isChain hchain, Bool.or_eq_false_iff] at hs
  exact hs.1.1

theorem Ends.leading?_ne_power {level : Level} {rest : List Token} (h : Ends level rest)
    (hrank : level.rank ≤ 8) : leading? rest ≠ some .power := by
  intro hpower
  have hends : Ends .power rest := h.mono hrank
  have := hends .power hpower
  simp [Level.continues, Level.covers_power] at this

/-- A sign in front of a power does not change where it ends. -/
theorem Ends.signed {rest : List Token} (h : Ends .power rest) : Ends .signed rest :=
  Avoids.imp h fun s hs => by
    rwa [Level.continues, Level.covers_signed, ← Level.covers_power]

/-! ### Passing through levels -/

/-- What comes of reading `e` when that takes `need` levels open at once and there may be
`depth`. -/
def within (need depth : Nat) (e : Expr) (rest : List Token) :
    Except ParseError (Expr × List Token) :=
  if need ≤ depth then .ok (e, rest) else .error .nestingTooDeep

theorem within_of_le {need depth : Nat} {e : Expr} {rest : List Token} (h : need ≤ depth) :
    within need depth e rest = .ok (e, rest) := if_pos h

private theorem within_of_lt {need depth : Nat} {e : Expr} {rest : List Token} (h : depth < need) :
    within need depth e rest = .error .nestingTooDeep := if_neg (by omega)

variable {stop size depth : Nat} {input rest : List Token} {e : Expr}

private theorem readUnary_eq_within {op : Symbol} {operand : Reader} {need : Nat}
    (h : operand input = within need depth e rest) :
    readUnary op operand input = within need depth (unary op e) rest := by
  unfold within at h ⊢
  split at h <;> simp [readUnary, *]

/-- The tokens start with no prefix that a level in front of `inner` would take for itself. -/
def Unprefixed (inner : Level) (input : List Token) : Prop :=
  leading? input ≠ some .bang ∧
    (8 ≤ inner.rank → leading? input ≠ some .plus ∧ leading? input ≠ some .minus)

theorem within_succ {need depth : Nat} :
    within (need + 1) (depth + 1) e rest = within need depth e rest := by
  simp [within]

/-- A level whose operators do not occur hands on what the next one reads. -/
theorem parseAt_pass {level inner : Level} {need : Nat} (hlevel : level.rank < inner.rank)
    (hinput : Unprefixed inner input) (hrest : Ends level rest)
    (h : parseAt stop size depth level.tighter input = within need depth e rest) :
    parseAt stop size (depth + 1) level input = within (need + 1) (depth + 1) e rest := by
  have hstep := levelStep_parseAt stop size depth level input
  generalize parseAt stop size (depth + 1) level input = result at hstep ⊢
  rw [within_succ]
  cases hstep with
  | bang pos input => exact absurd rfl hinput.1
  | chain hchain hbang =>
    by_cases hneed : need ≤ depth
    · rw [within_of_le hneed] at h ⊢
      rw [readJoined_of_ok h, readChain_of_avoids (hrest.avoids_joins hchain)]
    · rw [within_of_lt (by omega)] at h ⊢
      exact readJoined_of_error h
  | sign hop pos input =>
    obtain ⟨hplus, hminus⟩ := hinput.2 hlevel
    rcases hop with rfl | rfl
    · exact absurd rfl hplus
    · exact absurd rfl hminus
  | unsigned hplus hminus => exact h
  | noBase hbase => rw [← h, Level.tighter, hbase]
  | power hbase =>
    rw [Level.tighter, hbase] at h
    by_cases hneed : need ≤ depth
    · rw [within_of_le hneed] at h ⊢
      obtain ⟨rfl, rfl⟩ : _ = e ∧ _ = rest := by simpa using h
      exact readPower_of_ne (hrest.leading?_ne_power (by decide))
    · simp [within_of_lt (Nat.lt_of_not_le hneed)] at h
  | atom => exact absurd rfl (Level.ne_atom_of_rank_lt hlevel)

/-- **Descent.** A level some ranks in front of the one that reads the tokens takes that many
levels more. -/
theorem parseAt_descend {level inner : Level} {need : Nat} (steps : Nat)
    (hsteps : level.rank + steps = inner.rank) (hinput : 0 < steps → Unprefixed inner input)
    (hrest : Ends level rest)
    (h : ∀ depth, parseAt stop size depth inner input = within need depth e rest) (depth : Nat) :
    parseAt stop size depth level input = within (steps + need) depth e rest := by
  induction steps generalizing level depth with
  | zero =>
    obtain rfl := Level.rank_injective (by simpa using hsteps)
    rw [Nat.zero_add]
    exact h depth
  | succ steps ih =>
    have hlt : level.rank < inner.rank := by omega
    have hrank := Level.rank_tighter (Level.ne_atom_of_rank_lt hlt)
    cases depth with
    | zero => rw [parseAt_zero, within_of_lt (by omega)]
    | succ depth =>
      have hends : Ends level.tighter rest := hrest.mono (by omega)
      have hnext := ih (by omega) (fun _ => hinput (by omega)) hends depth
      rw [parseAt_pass hlt (hinput (by omega)) hrest hnext]
      congr 1
      omega

/-! ### How texts start -/

private theorem leading?_append_ne {ts : List Token} {lexeme : Lexeme} {text : List Lexeme}
    {s : Symbol}
    (h : ts.map Token.lexeme = lexeme :: text) (hne : lexeme ≠ .symbol s) (rest : List Token) :
    leading? (ts ++ rest) ≠ some s := by
  obtain ⟨⟨_, pos⟩, ts', rfl, rfl, -⟩ := List.map_eq_cons_iff.mp h
  intro hlead
  obtain ⟨pos', rest', heq⟩ := exists_of_leading? hlead
  simp only [List.cons_append, List.cons.injEq, Token.mk.injEq] at heq
  exact hne heq.1.1

/-- What a text starts with tells it from a declaration, and from a prefix if it is tight enough not
to begin with one. -/
private theorem exists_head_write (h : e.isPlain) :
    ∃ lexeme text, e.write = lexeme :: text ∧ lexeme ≠ .identifier declareWord ∧
      (1 ≤ e.tightness → lexeme ≠ .symbol .bang) ∧
      (9 ≤ e.tightness → lexeme ≠ .symbol .plus ∧ lexeme ≠ .symbol .minus) := by
  induction e with
  | literal v =>
    refine ⟨v.lexeme, [], rfl, ?_⟩
    rcases v with (_ | ⟨_ | _⟩ | _) | ⟨_ | _⟩ | _ | _ <;>
      simp [Value.lexeme, declareWord]
  | access name =>
    have hname : isReserved name = false := by simpa [isPlain] using h
    exact ⟨_, [], rfl, by simpa using (isReserved_eq_false_iff.mp hname).1, by simp, by simp⟩
  | unary op e ih =>
    refine ⟨_, _, rfl, by simp, ?_, ?_⟩
    · by_cases hop : op = .bang <;> simp [tightness, hop]
    · by_cases hop : op = .bang <;> simp [tightness, hop]
  | binary op l r ihl ihr =>
    simp only [isPlain, Bool.and_eq_true] at h
    obtain ⟨⟨hop, hl⟩, hr⟩ := h
    obtain ⟨lexeme, text, hwrite, hlet, hbang, hsign⟩ := ihl hl
    obtain ⟨level, hlevel⟩ := Option.isSome_iff_exists.mp hop
    have htight : op.tightness = level.rank + 1 := by simp [Symbol.tightness, hlevel]
    by_cases hparens : l.tightness < op.leftPlace
    · exact ⟨_, _, by simp only [write, grouped, hparens]; rfl, by simp, by simp, by simp⟩
    · refine ⟨lexeme, _, by simp only [write, grouped, hparens, hwrite]; rfl, hlet, ?_, ?_⟩
      · intro _
        refine hbang ?_
        unfold Symbol.leftPlace at hparens
        split at hparens <;> omega
      · intro hle
        -- Only `**` is that tight, and its left place asks for an atom.
        have hpower : op = .power := by
          simp only [tightness] at hle
          cases op <;> first | rfl | simp [Symbol.tightness, Symbol.level?, Level.rank] at hle
        refine hsign ?_
        simp only [Symbol.leftPlace, hpower, if_true] at hparens
        omega
  | assign name e ih =>
    have hname : isReserved name = false := by
      simp only [isPlain, Bool.and_eq_true, Bool.not_eq_true'] at h
      exact h.1
    exact ⟨_, _, rfl, by simpa using (isReserved_eq_false_iff.mp hname).1, by simp, by simp⟩
  | declare name e ih => simp [isPlain] at h

private theorem unprefixed_write {ts : List Token} {own : Level} (h : e.isPlain)
    (hown : own.rank < e.tightness) (hts : ts.map Token.lexeme = e.write) (rest : List Token) :
    Unprefixed own (ts ++ rest) := by
  obtain ⟨lexeme, text, hwrite, -, hbang, hsign⟩ := exists_head_write h
  rw [hwrite] at hts
  refine ⟨leading?_append_ne hts (hbang (by omega)) rest, fun hrank => ?_⟩
  obtain ⟨hplus, hminus⟩ := hsign (by omega)
  exact ⟨leading?_append_ne hts hplus rest, leading?_append_ne hts hminus rest⟩

private theorem writeAt_of_lt {place : Nat} (h : e.tightness < place) :
    e.writeAt place = .symbol .openParen :: (e.write ++ [.symbol .closeParen]) := by
  simp [writeAt, grouped, h]

private theorem writeAt_of_le {place : Nat} (h : place ≤ e.tightness) :
    e.writeAt place = e.write := by
  simp [writeAt, grouped, Nat.not_lt.mpr h]

/-- No operand starts with `!`. -/
private theorem leading?_writeAt_ne_bang {ts : List Token} {place : Nat} (h : e.isPlain)
    (hplace : 0 < place) (hts : ts.map Token.lexeme = e.writeAt place) (rest : List Token) :
    leading? (ts ++ rest) ≠ some .bang := by
  by_cases hlt : e.tightness < place
  · rw [writeAt_of_lt hlt] at hts
    exact leading?_append_ne hts (by simp) rest
  · rw [writeAt_of_le (by omega)] at hts
    have hrank : Level.comparison.rank < e.tightness := by
      rw [Level.rank]
      omega
    exact (unprefixed_write h hrank hts rest).1

/-! ### Reading back -/

/-- On the given level, the text is read as `e` with `need` levels open at once, whatever the
positions of its tokens, and the reader stops behind it. -/
def Inverts (stop size : Nat) (level : Level) (text : List Lexeme) (need : Nat) (e : Expr) : Prop :=
  ∀ depth ts rest, ts.map Token.lexeme = text → Ends level rest → (ts ++ rest).length ≤ size →
    parseAt stop size depth level (ts ++ rest) = within need depth e rest

/-- On the given level, the text is read as the first operands `e` of a chain, which then goes on
behind it. -/
def Starts (stop size : Nat) (level : Level) (text : List Lexeme) (need : Nat) (e : Expr) : Prop :=
  ∀ depth ts rest, ts.map Token.lexeme = text → Ends level.tighter rest →
    (ts ++ rest).length ≤ size →
    ∃ fuel, rest.length ≤ fuel ∧ parseAt stop size (depth + 1) level (ts ++ rest) =
      if need ≤ depth + 1 then
        readChain level.joins (parseAt stop size depth level.tighter) fuel e rest
      else .error .nestingTooDeep

/-- The three ways in which the text of an expression is read back: alone, as an operand of a
level, and as the first operands of a chain. -/
structure RoundTrip (stop size : Nat) (e : Expr) : Prop where
  whole : Inverts stop size .comparison e.write (e.nestingAt 0) e
  operand : ∀ level : Level,
    Inverts stop size level (e.writeAt (level.rank + 1)) (e.nestingAt (level.rank + 1)) e
  chain : ∀ level : Level, level.isChain →
    Starts stop size level (e.writeAt (level.rank + 1)) (e.nestingAt (level.rank + 1)) e

/-- What a level reads back, all looser ones do. -/
private theorem Inverts.descend {level inner : Level} {text : List Lexeme} {need : Nat}
    (h : Inverts stop size inner text need e) (hrank : level.rank ≤ inner.rank)
    (hshape : level.rank < inner.rank → ∀ ts rest, ts.map Token.lexeme = text →
      Unprefixed inner (ts ++ rest)) :
    Inverts stop size level text (inner.rank - level.rank + need) e := by
  intro depth ts rest hts hrest hsize
  have hinner : Ends inner rest := hrest.mono hrank
  refine parseAt_descend (inner.rank - level.rank) (by omega) (fun hpos => ?_) hrest
    (fun depth => h depth ts rest hts hinner hsize) depth
  exact hshape (by omega) ts rest hts

private theorem map_lexeme_eq_parens {ts : List Token} {text : List Lexeme}
    (h : ts.map Token.lexeme = .symbol .openParen :: (text ++ [.symbol .closeParen])) :
    ∃ pos pos' inner, ts = ⟨.symbol .openParen, pos⟩ :: (inner ++ [⟨.symbol .closeParen, pos'⟩]) ∧
      inner.map Token.lexeme = text := by
  obtain ⟨⟨_, pos⟩, ts', rfl, rfl, h'⟩ := List.map_eq_cons_iff.mp h
  obtain ⟨inner, close, rfl, hinner, hclose⟩ := List.map_eq_append_iff.mp h'
  obtain ⟨⟨_, pos'⟩, none, rfl, rfl, hnone⟩ := List.map_eq_cons_iff.mp hclose
  obtain rfl := List.map_eq_nil_iff.mp hnone
  exact ⟨pos, pos', inner, rfl, hinner⟩

/-- What can be read alone can be read in parentheses, on every level. -/
private theorem Inverts.parens {text : List Lexeme} {need : Nat}
    (h : Inverts stop size .comparison text need e) (level : Level) :
    Inverts stop size level (.symbol .openParen :: (text ++ [.symbol .closeParen]))
      (10 - level.rank + need) e := by
  have hatom : Inverts stop size .atom (.symbol .openParen :: (text ++ [.symbol .closeParen]))
      (1 + need) e := by
    intro depth ts rest hts hrest hsize
    obtain ⟨pos, pos', inner, rfl, hinner⟩ := map_lexeme_eq_parens hts
    cases depth with
    | zero => rw [parseAt_zero, within_of_lt (by omega)]
    | succ depth =>
      have hread := h depth inner (⟨.symbol .closeParen, pos'⟩ :: rest) hinner
        (ends_closeParen _ _ _) (by simp at hsize ⊢; omega)
      rw [parseAt_atom, Nat.add_comm 1, within_succ]
      simp only [List.cons_append, List.append_assoc, List.nil_append]
      by_cases hneed : need ≤ depth
      · rw [within_of_le hneed] at hread ⊢
        exact readAtom_eq_ok_iff.mpr (.group pos pos' hread)
      · rw [within_of_lt (by omega)] at hread ⊢
        simp [readAtom, hread]
  have hrank := level.rank_le
  have hdescend := hatom.descend hrank fun _ ts rest hts =>
    ⟨leading?_append_ne hts (by simp) rest, fun _ =>
      ⟨leading?_append_ne hts (by simp) rest, leading?_append_ne hts (by simp) rest⟩⟩
  have hneed : Level.atom.rank - level.rank + (1 + need) = 10 - level.rank + need := by
    have hnine : Level.atom.rank = 9 := rfl
    omega
  rwa [hneed] at hdescend

private theorem nestingAt_of_lt {place : Nat} (h : e.tightness < place) :
    e.nestingAt place = 11 - place + (e.tightness - 1 + e.nesting) := if_pos h

private theorem nestingAt_of_le {place : Nat} (h : place ≤ e.tightness) :
    e.nestingAt place = e.tightness - 1 - (place - 1) + e.nesting := if_neg (Nat.not_lt.mpr h)

/-- Reading back in all places, from reading back alone and in the places that ask for no
parentheses; and in all chains, from the chains of its own level. -/
private theorem RoundTrip.of_whole (hplain : e.isPlain)
    (hwhole : Inverts stop size .comparison e.write (e.nestingAt 0) e)
    (hbare : ∀ level : Level, level.rank < e.tightness →
      Inverts stop size level e.write (e.tightness - 1 - level.rank + e.nesting) e)
    (hchain : ∀ level : Level, level.isChain → level.rank + 1 = e.tightness →
      Starts stop size level e.write e.nesting e) :
    RoundTrip stop size e := by
  have hoperand : ∀ level : Level,
      Inverts stop size level (e.writeAt (level.rank + 1)) (e.nestingAt (level.rank + 1)) e := by
    intro level
    by_cases hplace : e.tightness < level.rank + 1
    · have hneed : e.nestingAt (level.rank + 1) = 10 - level.rank + e.nestingAt 0 := by
        rw [nestingAt_of_lt hplace, nestingAt_of_le (Nat.zero_le _)]
        omega
      rw [writeAt_of_lt hplace, hneed]
      exact hwhole.parens level
    · rw [writeAt_of_le (by omega), nestingAt_of_le (by omega)]
      exact hbare level (by omega)
  refine ⟨hwhole, hoperand, fun level hlevel => ?_⟩
  by_cases hown : level.rank + 1 = e.tightness
  · have hneed : e.nestingAt (level.rank + 1) = e.nesting := by
      rw [nestingAt_of_le (by omega)]
      omega
    rw [writeAt_of_le (by omega), hneed]
    exact hchain level hlevel hown
  · -- The next level asks for the same text, and the chain has its first operand from there.
    intro depth ts rest hts hrest hsize
    have hrank := Level.rank_tighter (Level.ne_atom_of_isChain hlevel)
    have hle := level.tighter.rank_le
    have hsame : e.writeAt (level.tighter.rank + 1) = e.writeAt (level.rank + 1) := by
      by_cases hplace : e.tightness < level.rank + 1
      · rw [writeAt_of_lt hplace, writeAt_of_lt (by omega)]
      · rw [writeAt_of_le (by omega), writeAt_of_le (by omega)]
    have hneed : e.nestingAt (level.rank + 1) = e.nestingAt (level.tighter.rank + 1) + 1 := by
      by_cases hplace : e.tightness < level.rank + 1
      · rw [nestingAt_of_lt hplace, nestingAt_of_lt (by omega)]
        omega
      · rw [nestingAt_of_le (by omega), nestingAt_of_le (by omega)]
        omega
    have hfirst := hoperand level.tighter depth ts rest (hts.trans hsame.symm) hrest hsize
    have hbang := leading?_writeAt_ne_bang hplain (Nat.succ_pos _) hts rest
    refine ⟨size, by simp at hsize; omega, ?_⟩
    rw [parseAt_chain hlevel (fun _ => hbang), hneed]
    by_cases hdepth : e.nestingAt (level.tighter.rank + 1) ≤ depth
    · rw [within_of_le hdepth] at hfirst
      rw [readJoined_of_ok hfirst, if_pos (by omega)]
    · rw [within_of_lt (by omega)] at hfirst
      rw [readJoined_of_error hfirst, if_neg (by omega)]

/-- Reading back in all places, from reading back on the expression's own level. -/
private theorem RoundTrip.of_own {own : Level} (hplain : e.isPlain)
    (htight : e.tightness = own.rank + 1) (h : Inverts stop size own e.write e.nesting e)
    (hchain : own.isChain → Starts stop size own e.write e.nesting e) : RoundTrip stop size e := by
  have hbare : ∀ level : Level, level.rank ≤ own.rank →
      Inverts stop size level e.write (own.rank - level.rank + e.nesting) e := fun level hle =>
    h.descend hle fun _ ts rest hts => unprefixed_write hplain (by omega) hts rest
  refine .of_whole hplain ?_ (fun level hlevel => ?_) fun level hlevel hrank => ?_
  · have hwhole := hbare .comparison (Nat.zero_le _)
    rwa [nestingAt_of_le (Nat.zero_le _), htight]
  · rw [htight]
    exact hbare level (by omega)
  · obtain rfl : level = own := Level.rank_injective (by omega)
    exact hchain hlevel

/-- A chain that starts with an expression of its own level, and then does not go on. -/
theorem Starts.inverts {own : Level} {text : List Lexeme} {need : Nat}
    (h : Starts stop size own text need e) (hchain : own.isChain) (hneed : 0 < need) :
    Inverts stop size own text need e := by
  intro depth ts rest hts hrest hsize
  cases depth with
  | zero => rw [parseAt_zero, within_of_lt hneed]
  | succ depth =>
    have hrank := Level.rank_tighter (Level.ne_atom_of_isChain hchain)
    have htighter : Ends own.tighter rest := hrest.mono (by omega)
    obtain ⟨fuel, -, hread⟩ := h depth ts rest hts htighter hsize
    rw [hread, readChain_of_avoids (hrest.avoids_joins hchain)]
    rfl

/-! ### One lemma for each form of expression -/

/-- An expression of one token. -/
private theorem roundTrip_of_atomRead {lexeme : Lexeme} (hplain : e.isPlain)
    (htight : e.tightness = 10) (hnesting : e.nesting = 1) (hwrite : e.write = [lexeme])
    (h : ∀ inner pos rest, leading? rest ≠ some .assign →
      AtomRead inner (⟨lexeme, pos⟩ :: rest) e rest) : RoundTrip stop size e := by
  have hown : e.tightness = Level.atom.rank + 1 := htight
  refine .of_own hplain hown ?_ fun hchain => by simp [Level.isChain] at hchain
  intro depth ts rest hts hrest hsize
  rw [hwrite] at hts
  obtain ⟨⟨_, pos⟩, none, rfl, rfl, hnone⟩ := List.map_eq_cons_iff.mp hts
  obtain rfl := List.map_eq_nil_iff.mp hnone
  cases depth with
  | zero => rw [parseAt_zero, within_of_lt (by omega)]
  | succ depth =>
    rw [within_of_le (by omega), parseAt_atom]
    exact readAtom_eq_ok_iff.mpr (h _ pos rest hrest.leading?_ne_assign)

private theorem roundTrip_literal (v : Value) : RoundTrip stop size (literal v) := by
  refine roundTrip_of_atomRead rfl rfl rfl rfl fun inner pos rest hrest => ?_
  rcases v with (_ | ⟨_ | _⟩ | _) | ⟨_ | _⟩ | _ | _
  all_goals simp only [Value.lexeme]
  all_goals first
    | exact .constant pos rfl hrest
    | exact .number _ pos rest
    | exact .string _ pos rest
    | exact .char _ pos rest

private theorem roundTrip_access {name : String} (hname : isReserved name = false) :
    RoundTrip stop size (access name) := by
  refine roundTrip_of_atomRead ?_ rfl rfl rfl fun inner pos rest hrest => .access pos hname hrest
  simp [isPlain, hname]

/-- What swallows all that follows is only ever bare where it can. -/
private theorem RoundTrip.of_open (hplain : e.isPlain) (htight : e.tightness = 0)
    (h : Inverts stop size .comparison e.write e.nesting e) : RoundTrip stop size e := by
  refine .of_whole hplain ?_ (fun level hlevel => by omega) fun level _ hrank => by omega
  have hneed : e.nestingAt 0 = e.nesting := by
    rw [nestingAt_of_le (Nat.zero_le _)]
    omega
  rwa [hneed]

theorem RoundTrip.bang (he : RoundTrip stop size e) (hplain : e.isPlain) :
    RoundTrip stop size (unary .bang e) := by
  refine .of_open (by simpa [isPlain] using hplain) rfl ?_
  intro depth ts rest hts hrest hsize
  obtain ⟨⟨_, pos⟩, ts', rfl, rfl, hts'⟩ := List.map_eq_cons_iff.mp hts
  have hneed : (unary .bang e).nesting = e.nestingAt 0 + 1 := Nat.add_comm _ _
  cases depth with
  | zero => rw [parseAt_zero, within_of_lt (by omega)]
  | succ depth =>
    have hread := he.whole depth ts' rest hts' hrest (by simp at hsize ⊢; omega)
    rw [hneed, within_succ, List.cons_append, parseAt_bang]
    exact readUnary_eq_within hread

theorem RoundTrip.sign {op : Symbol} (hop : op = .plus ∨ op = .minus) (he : RoundTrip stop size e)
    (hplain : e.isPlain) : RoundTrip stop size (unary op e) := by
  have hbang : op ≠ .bang := by rcases hop with rfl | rfl <;> decide
  have htight : (unary op e).tightness = Level.signed.rank + 1 := by simp [tightness, hbang]; rfl
  have hneed : (unary op e).nesting = e.nestingAt 8 + 1 := by
    simp only [nesting, hbang, if_false]
    exact Nat.add_comm _ _
  refine .of_own ?_ htight ?_ fun hchain => by simp [Level.isChain] at hchain
  · rcases hop with rfl | rfl <;> simpa [isPlain] using hplain
  · intro depth ts rest hts hrest hsize
    simp only [write, hbang, if_false] at hts
    obtain ⟨⟨_, pos⟩, ts', rfl, rfl, hts'⟩ := List.map_eq_cons_iff.mp hts
    cases depth with
    | zero => rw [parseAt_zero, within_of_lt (by omega)]
    | succ depth =>
      have hread := he.operand .signed depth ts' rest hts' hrest (by simp at hsize ⊢; omega)
      rw [hneed, within_succ, List.cons_append, parseAt_sign hop]
      exact readUnary_eq_within hread

theorem RoundTrip.assign {name : String} (hname : isReserved name = false)
    (he : RoundTrip stop size e) (hplain : e.isPlain) : RoundTrip stop size (assign name e) := by
  refine .of_open (by simp [isPlain, hname, hplain]) rfl ?_
  intro depth ts rest hts hrest hsize
  obtain ⟨⟨_, pos⟩, ts₁, rfl, rfl, hts₁⟩ := List.map_eq_cons_iff.mp hts
  obtain ⟨⟨_, pos'⟩, ts₂, rfl, rfl, hts₂⟩ := List.map_eq_cons_iff.mp hts₁
  have hatom : ∀ depth, parseAt stop size depth .atom
      (⟨.identifier name, pos⟩ :: ⟨.symbol .assign, pos'⟩ :: ts₂ ++ rest) =
      within (e.nestingAt 0 + 1) depth (.assign name e) rest := by
    intro depth
    cases depth with
    | zero => rw [parseAt_zero, within_of_lt (by omega)]
    | succ depth =>
      have hread := he.whole depth ts₂ rest hts₂ hrest (by simp at hsize ⊢; omega)
      rw [within_succ, parseAt_atom]
      by_cases hdepth : e.nestingAt 0 ≤ depth
      · rw [within_of_le hdepth] at hread ⊢
        exact readAtom_eq_ok_iff.mpr (.assign pos pos' hname hread)
      · rw [within_of_lt (by omega)] at hread ⊢
        simp [readAtom, readIdentifier_assign_of_error hname hread]
  rw [parseAt_descend 9 rfl (fun _ => by simp [Unprefixed, leading?]) hrest hatom depth]
  have hneed : (Expr.assign name e).nesting = 10 + e.nestingAt 0 := rfl
  congr 1
  omega

theorem RoundTrip.power {l r : Expr} (hl : RoundTrip stop size l) (hr : RoundTrip stop size r)
    (hplain : (binary .power l r).isPlain) : RoundTrip stop size (binary .power l r) := by
  have htight : (binary .power l r).tightness = Level.power.rank + 1 := rfl
  refine .of_own hplain htight ?_ fun hchain => by simp [Level.isChain] at hchain
  intro depth ts rest hts hrest hsize
  obtain ⟨ts₁, ts', rfl, hts₁, hts'⟩ := List.map_eq_append_iff.mp hts
  obtain ⟨⟨_, pos⟩, ts₂, rfl, rfl, hts₂⟩ := List.map_eq_cons_iff.mp hts'
  have hneed : (binary .power l r).nesting = max (l.nestingAt 10) (r.nestingAt 8) + 1 :=
    Nat.add_comm _ _
  cases depth with
  | zero => rw [parseAt_zero, within_of_lt (by omega)]
  | succ depth =>
    rw [hneed, within_succ, List.append_assoc, List.cons_append]
    have hbase : parseAt stop size depth .atom (ts₁ ++ ⟨.symbol .power, pos⟩ :: (ts₂ ++ rest)) =
        within (l.nestingAt 10) depth l (⟨.symbol .power, pos⟩ :: (ts₂ ++ rest)) :=
      hl.operand .atom depth ts₁ _ hts₁ (ends_of_level? rfl (by decide) _ _)
        (by simpa using hsize)
    have hexp : parseAt stop size depth .signed (ts₂ ++ rest) =
        within (r.nestingAt 8) depth r rest :=
      hr.operand .signed depth ts₂ rest hts₂ hrest.signed (by simp at hsize ⊢; omega)
    by_cases hldepth : l.nestingAt 10 ≤ depth
    · rw [within_of_le hldepth] at hbase
      rw [parseAt_power_of_ok hbase]
      by_cases hrdepth : r.nestingAt 8 ≤ depth
      · rw [within_of_le hrdepth] at hexp
        rw [within_of_le (by omega)]
        exact readPower_of_ok hexp pos
      · rw [within_of_lt (by omega)] at hexp
        rw [within_of_lt (by omega)]
        exact readPower_of_error hexp pos
    · rw [within_of_lt (by omega)] at hbase
      rw [parseAt_power_of_error hbase, within_of_lt (by omega)]

theorem RoundTrip.join {op : Symbol} {l r : Expr} {own : Level} (hop : op.level? = some own)
    (hpower : op ≠ .power) (hl : RoundTrip stop size l) (hr : RoundTrip stop size r)
    (hplain : (binary op l r).isPlain) : RoundTrip stop size (binary op l r) := by
  have hchain : own.isChain := by
    cases op <;> simp [Symbol.level?] at hop <;> first | (subst hop; rfl) | exact absurd rfl hpower
  have hrank := Level.rank_tighter (Level.ne_atom_of_isChain hchain)
  have htight : op.tightness = own.rank + 1 := by simp [Symbol.tightness, hop]
  have hleft : op.leftPlace = own.rank + 1 := by simp [Symbol.leftPlace, hpower, htight]
  have hright : op.rightPlace = own.tighter.rank + 1 := by
    simp [Symbol.rightPlace, hpower, htight, hrank]
  have hneed : (binary op l r).nesting =
      max (l.nestingAt (own.rank + 1)) (1 + r.nestingAt (own.tighter.rank + 1)) := by
    simp only [nesting, hpower, if_false, hleft, hright]
    rfl
  have hstarts : Starts stop size own (binary op l r).write (binary op l r).nesting
      (binary op l r) := by
    intro depth ts rest hts hrest hsize
    simp only [write, hleft, hright] at hts
    obtain ⟨ts₁, ts', rfl, hts₁, hts'⟩ := List.map_eq_append_iff.mp hts
    obtain ⟨⟨_, pos⟩, ts₂, rfl, rfl, hts₂⟩ := List.map_eq_cons_iff.mp hts'
    rw [List.append_assoc, List.cons_append] at hsize ⊢
    -- The left operand starts the chain, whether or not it is a chain of this level itself.
    obtain ⟨fuel, hfuel, hread⟩ := hl.chain own hchain depth ts₁
      (⟨.symbol op, pos⟩ :: (ts₂ ++ rest)) hts₁ (ends_of_level? hop (by omega) _ _) hsize
    have hoperand := hr.operand own.tighter depth ts₂ rest hts₂ hrest (by simp at hsize ⊢; omega)
    have hjoins : own.joins op := (Level.joins_iff hchain).mpr hop
    simp only [List.length_cons, List.length_append] at hfuel
    obtain ⟨fuel, rfl⟩ : ∃ k, fuel = k + 1 := ⟨fuel - 1, by omega⟩
    refine ⟨fuel, by omega, ?_⟩
    rw [hread, hneed]
    by_cases hldepth : l.nestingAt (own.rank + 1) ≤ depth + 1
    · rw [if_pos hldepth]
      by_cases hrdepth : r.nestingAt (own.tighter.rank + 1) ≤ depth
      · rw [within_of_le hrdepth] at hoperand
        rw [readChain_of_ok hjoins hoperand, if_pos (by omega)]
      · rw [within_of_lt (by omega)] at hoperand
        rw [readChain_of_error hjoins hoperand, if_neg (by omega)]
    · rw [if_neg hldepth, if_neg (by omega)]
  exact .of_own hplain htight (hstarts.inverts hchain (by omega)) fun _ => hstarts

/-- **Reading inverts writing**, for every operand, on every level. -/
theorem roundTrip (stop size : Nat) (h : e.isPlain) : RoundTrip stop size e := by
  induction e with
  | literal v => exact roundTrip_literal v
  | access name => exact roundTrip_access (by simpa [isPlain] using h)
  | unary op e ih =>
    simp only [isPlain, Bool.and_eq_true, Bool.or_eq_true, beq_iff_eq] at h
    obtain ⟨(hop | hop) | rfl, he⟩ := h
    · exact (ih he).sign (.inl hop) he
    · exact (ih he).sign (.inr hop) he
    · exact (ih he).bang he
  | binary op l r ihl ihr =>
    have hparts := h
    simp only [isPlain, Bool.and_eq_true] at hparts
    obtain ⟨⟨hop, hl⟩, hr⟩ := hparts
    obtain ⟨own, hown⟩ := Option.isSome_iff_exists.mp hop
    by_cases hpower : op = .power
    · subst hpower
      exact (ihl hl).power (ihr hr) h
    · exact (ihl hl).join hown hpower (ihr hr) h
  | assign name e ih =>
    simp only [isPlain, Bool.and_eq_true, Bool.not_eq_true'] at h
    exact (ih h.2).assign h.1 h.2
  | declare name e ih => simp [isPlain] at h

/-! ### Statements -/

private theorem endOfInput_notMem_write (e : Expr) : .endOfInput ∉ e.write := by
  have hgrouped : ∀ parens text, Lexeme.endOfInput ∉ text →
      Lexeme.endOfInput ∉ grouped parens text := by
    intro parens text htext
    cases parens <;> simp [grouped, htext]
  induction e with
  | literal v => rcases v with (_ | ⟨_ | _⟩ | _) | ⟨_ | _⟩ | _ | _ <;> simp [write, Value.lexeme]
  | access name => simp [write]
  | unary op e ih => by_cases hop : op = .bang <;> simp [write, hop, ih, hgrouped]
  | binary op l r ihl ihr => simp [write, hgrouped, ihl, ihr]
  | assign name e ih => simp [write, ih]
  | declare name e ih => simp [write, ih]

theorem isEnd_eq_false_of_write {ts : List Token} (hts : ts.map Token.lexeme = e.write) :
    ∀ t ∈ ts, t.isEnd = false := by
  intro t ht
  have hmem : t.lexeme ∈ e.write := hts ▸ List.mem_map_of_mem ht
  have hne : t.lexeme ≠ .endOfInput := fun heq => endOfInput_notMem_write e (heq ▸ hmem)
  simpa [Token.isEnd] using hne

/-- Reading inverts writing, for comparisons that take up all tokens. -/
theorem parseAt_write {ts : List Token} (h : e.isPlain) (hts : ts.map Token.lexeme = e.write)
    (hsize : ts.length ≤ size) (depth : Nat) :
    parseAt stop size depth .comparison ts = within (e.nestingAt 0) depth e [] := by
  have hread := (roundTrip stop size h).whole depth ts [] hts (ends_nil _) (by simpa using hsize)
  rwa [List.append_nil] at hread

/-- Reading inverts writing, for statements that take up all tokens. -/
theorem parseStatementAt_write {ts : List Token} (h : e.isStatement)
    (hts : ts.map Token.lexeme = e.write) (hsize : ts.length ≤ size) (limit : Nat) :
    parseStatementAt stop size limit ts = within (e.nestingAt 0) limit e [] := by
  by_cases hplain : e.isPlain
  · obtain ⟨lexeme, text, hwrite, hlet, -⟩ := exists_head_write hplain
    rw [parseStatementAt, readStatement_of_ne, parseAt_write hplain hts hsize]
    rintro pos rest rfl
    rw [hwrite] at hts
    exact hlet (List.cons.inj hts).1.symm
  · obtain ⟨name, init, rfl⟩ : ∃ name init, e = declare name init := by
      cases e with
      | declare name init => exact ⟨name, init, rfl⟩
      | _ => exact absurd h hplain
    simp only [isStatement, Bool.and_eq_true, Bool.not_eq_true'] at h
    obtain ⟨hname, hinit⟩ := h
    obtain ⟨⟨_, pos₁⟩, ts₁, rfl, rfl, hts₁⟩ := List.map_eq_cons_iff.mp hts
    obtain ⟨⟨_, pos₂⟩, ts₂, rfl, rfl, hts₂⟩ := List.map_eq_cons_iff.mp hts₁
    obtain ⟨⟨_, pos₃⟩, ts₃, rfl, rfl, hts₃⟩ := List.map_eq_cons_iff.mp hts₂
    have hneed : (declare name init).nestingAt 0 = init.nestingAt 0 := by
      rw [nestingAt_of_le (Nat.zero_le _)]
      exact Nat.zero_add _
    have hlength : ts₃.length ≤ size := by
      simp only [List.length_cons] at hsize
      omega
    have hread : parseAt stop size limit .comparison ts₃ = _ :=
      parseAt_write hinit hts₃ hlength limit
    rw [hneed]
    by_cases hlimit : init.nestingAt 0 ≤ limit
    · rw [within_of_le hlimit] at hread ⊢
      simp [parseStatementAt, readStatement, readDeclaration, readInit, hname, hread]
    · rw [within_of_lt (by omega)] at hread ⊢
      simp [parseStatementAt, readStatement, readDeclaration, readInit, hname, hread]

/-- Reading inverts writing, for the tokens of one statement and an end marker. -/
theorem parseWithin_write {body : List Token} (h : e.isStatement)
    (hbody : body.map Token.lexeme = e.write) (stop limit : Nat) :
    parseWithin limit (body ++ [⟨.endOfInput, stop⟩]) =
      if e.nestingAt 0 ≤ limit then .ok e else .error .nestingTooDeep := by
  have hread : parseStatementAt stop body.length limit body = within (e.nestingAt 0) limit e [] :=
    parseStatementAt_write h hbody (Nat.le_refl _) limit
  have hends := isEnd_eq_false_of_write hbody
  by_cases hlimit : e.nestingAt 0 ≤ limit
  · rw [within_of_le hlimit] at hread
    rw [parseWithin_of_ok hends hread, if_pos hlimit]
  · rw [within_of_lt (by omega)] at hread
    rw [parseWithin_of_error hends hread, if_neg hlimit]

/-- **Reading inverts writing.** The text of a statement, ended by an end marker and with any
positions, is read as that statement when as many levels may be open at once as it takes, and else
the reader runs out of levels. -/
theorem parse_write (limit : Nat) (e : Expr) (ts : List Token) (h : e.isStatement)
    (hts : ts.map Token.lexeme = e.write ++ [.endOfInput]) :
    parseWithin limit ts =
      if e.nestingAt 0 ≤ limit then .ok e else .error .nestingTooDeep := by
  obtain ⟨body, last, rfl, hbody, hlast⟩ := List.map_eq_append_iff.mp hts
  obtain ⟨⟨_, stop⟩, none, rfl, rfl, hnone⟩ := List.map_eq_cons_iff.mp hlast
  obtain rfl := List.map_eq_nil_iff.mp hnone
  exact parseWithin_write h hbody stop limit

/-- At `let r = a - (b - (!c)) - d ** -(x = f)`. -/
theorem parse_write_declare :
    parse (([.identifier "let", .identifier "r", .symbol .assign, .identifier "a", .symbol .minus,
        .symbol .openParen, .identifier "b", .symbol .minus, .symbol .openParen, .symbol .bang,
        .identifier "c", .symbol .closeParen, .symbol .closeParen, .symbol .minus, .identifier "d",
        .symbol .power, .symbol .minus, .symbol .openParen, .identifier "x", .symbol .assign,
        .identifier "f", .symbol .closeParen, .endOfInput] : List Lexeme).map (Token.mk · 0)) =
      .ok (.declare "r" (.binary .minus
        (.binary .minus (.access "a") (.binary .minus (.access "b") (.unary .bang (.access "c"))))
        (.binary .power (.access "d") (.unary .minus (.assign "x" (.access "f")))))) :=
  (parse_write nestingLimit _ _ (by decide) rfl).trans (if_pos (by decide))

end Expr

end Reckon
