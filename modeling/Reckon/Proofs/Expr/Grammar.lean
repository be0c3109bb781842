import Reckon.Proofs.Expr.Reader

/-!
# The grammar

The grammar is written down here on its own, as the rules of `Expr.Reads`, `Expr.ReadsStatement` and
`Expr.ReadsProgram`, without levels to open and without an order in which to try things. A phrase is
some tokens in front of others: `Reads fits kind input e rest` says that `input` without its ending
`rest` is a phrase of the given kind and that `e` is its tree.

The grammar is ambiguous in one respect. An assignment is an atom, yet its value is a whole
comparison, so `1 + x = 2 + 3` is `1 + (x = 2 + 3)` and also `(1 + (x = 2)) + 3`. The rule for
assignments therefore asks that the value and what follows it `fit`: with `Anywhere` that is no
condition, and with `Furthest` the value has to reach as far to the right as any comparison that
starts there.

For the question which tokens are phrases at all, precedence does not matter. `Expr.Outline`
describes phrases as operands in a row with any operators between them, in which an assignment
always takes all that is left; every phrase of the grammar has such an outline
(`Expr.Reads.outline`).
-/

namespace Reckon

/-- The lexeme is an operand by itself. -/
def Lexeme.isOperand : Lexeme → Bool
  | .number _ | .string _ | .char _ => true
  | .identifier word => word != Expr.declareWord
  | .symbol _ | .endOfInput => false

namespace Expr

/-! ### Phrases -/

/-- The kinds of phrase below a statement, loosest first. -/
inductive Phrase where
  | comparison | relation | union | exclusive | intersection | shift | sum | product
  | signed | power | atom
deriving DecidableEq, Repr

/-- For the kinds that are operands in a row, grouping to the left: the operators that can stand
between the operands, and the kind of the operands. -/
def Phrase.chain? : Phrase → Option (List Symbol × Phrase)
  | relation => some ([.equal, .notEqual, .greater, .less, .atLeast, .atMost], union)
  | union => some ([.pipe], exclusive)
  | exclusive => some ([.caret], intersection)
  | intersection => some ([.ampersand], shift)
  | shift => some ([.shiftRight, .shiftLeft], sum)
  | sum => some ([.plus, .minus], product)
  | product => some ([.star, .slash, .percent], signed)
  | comparison | signed | power | atom => none

/-- The words for constants, and their values. -/
def constants : List (String × Value) :=
  [("true", .bool true), ("false", .bool false), ("inf", .number (.inf false)),
    ("NaN", .number .nan)]

/-- The words that name no variable. -/
def reservedWords : List String := ["let", "inf", "NaN", "true", "false"]

/-- `Reads fits kind input e rest`: the tokens of `input` in front of `rest` are a phrase of the
given kind with the tree `e`. The value of an assignment and the tokens from its start on have to
`fit` with what is left behind it. -/
inductive Reads (fits : List Token → List Token → Prop) :
    Phrase → List Token → Expr → List Token → Prop where
  | bang {input rest : List Token} {e : Expr} {pos : Nat}
      (h : Reads fits .comparison input e rest) :
      Reads fits .comparison (⟨.symbol .bang, pos⟩ :: input) (.unary .bang e) rest
  | relation {input rest : List Token} {e : Expr} (h : Reads fits .relation input e rest) :
      Reads fits .comparison input e rest
  | operand {kind inner : Phrase} {ops : List Symbol} {input rest : List Token} {e : Expr}
      (hkind : kind.chain? = some (ops, inner)) (h : Reads fits inner input e rest) :
      Reads fits kind input e rest
  | join {kind inner : Phrase} {ops : List Symbol} {op : Symbol} {input mid rest : List Token}
      {l r : Expr} {pos : Nat} (hkind : kind.chain? = some (ops, inner)) (hop : op ∈ ops)
      (hl : Reads fits kind input l (⟨.symbol op, pos⟩ :: mid)) (hr : Reads fits inner mid r rest) :
      Reads fits kind input (.binary op l r) rest
  | sign {op : Symbol} {input rest : List Token} {e : Expr} {pos : Nat}
      (hop : op = .plus ∨ op = .minus) (h : Reads fits .signed input e rest) :
      Reads fits .signed (⟨.symbol op, pos⟩ :: input) (.unary op e) rest
  | unsigned {input rest : List Token} {e : Expr} (h : Reads fits .power input e rest) :
      Reads fits .signed input e rest
  | base {input rest : List Token} {e : Expr} (h : Reads fits .atom input e rest) :
      Reads fits .power input e rest
  | power {input mid rest : List Token} {l r : Expr} {pos : Nat}
      (hl : Reads fits .atom input l (⟨.symbol .power, pos⟩ :: mid))
      (hr : Reads fits .signed mid r rest) :
      Reads fits .power input (.binary .power l r) rest
  | number (x : Binary64) (pos : Nat) (rest : List Token) :
      Reads fits .atom (⟨.number x, pos⟩ :: rest) (.literal (.number x)) rest
  | string (s : String) (pos : Nat) (rest : List Token) :
      Reads fits .atom (⟨.string s, pos⟩ :: rest) (.literal (.string s)) rest
  | char (c : Char) (pos : Nat) (rest : List Token) :
      Reads fits .atom (⟨.char c, pos⟩ :: rest) (.literal (.char c)) rest
  | constant {word : String} {v : Value} (h : (word, v) ∈ constants) (pos : Nat)
      (rest : List Token) : Reads fits .atom (⟨.identifier word, pos⟩ :: rest) (.literal v) rest
  | access {name : String} (h : name ∉ reservedWords) (pos : Nat) (rest : List Token) :
      Reads fits .atom (⟨.identifier name, pos⟩ :: rest) (.access name) rest
  | assign {name : String} {input rest : List Token} {e : Expr} {pos pos' : Nat}
      (hname : name ∉ reservedWords) (h : Reads fits .comparison input e rest)
      (hfits : fits input rest) :
      Reads fits .atom (⟨.identifier name, pos⟩ :: ⟨.symbol .assign, pos'⟩ :: input)
        (.assign name e) rest
  | group {input rest : List Token} {e : Expr} {pos pos' : Nat}
      (h : Reads fits .comparison input e (⟨.symbol .closeParen, pos'⟩ :: rest)) :
      Reads fits .atom (⟨.symbol .openParen, pos⟩ :: input) e rest

/-- A statement: a declaration, or a comparison. -/
inductive ReadsStatement (fits : List Token → List Token → Prop) :
    List Token → Expr → List Token → Prop where
  | declare {name : String} {input rest : List Token} {e : Expr} {pos₁ pos₂ pos₃ : Nat}
      (hname : name ∉ reservedWords) (h : Reads fits .comparison input e rest) :
      ReadsStatement fits
        (⟨.identifier "let", pos₁⟩ :: ⟨.identifier name, pos₂⟩ :: ⟨.symbol .assign, pos₃⟩ :: input)
        (.declare name e) rest
  | comparison {input rest : List Token} {e : Expr} (h : Reads fits .comparison input e rest) :
      ReadsStatement fits input e rest

/-- A program: statements, any of which may be empty, with semicolons between them. -/
inductive ReadsProgram (fits : List Token → List Token → Prop) : List Token → List Expr → Prop where
  | nil : ReadsProgram fits [] []
  | skip {rest : List Token} {es : List Expr} {pos : Nat} (h : ReadsProgram fits rest es) :
      ReadsProgram fits (⟨.symbol .semicolon, pos⟩ :: rest) es
  | last {input : List Token} {e : Expr} (h : ReadsStatement fits input e []) :
      ReadsProgram fits input [e]
  | more {input rest : List Token} {e : Expr} {es : List Expr} {pos : Nat}
      (h : ReadsStatement fits input e (⟨.symbol .semicolon, pos⟩ :: rest))
      (hrest : ReadsProgram fits rest es) : ReadsProgram fits input (e :: es)

/-- One statement with at most one semicolon after it. -/
def ReadsSingle (fits : List Token → List Token → Prop) (input : List Token) (e : Expr) : Prop :=
  ∃ rest, ReadsStatement fits input e rest ∧
    (rest = [] ∨ ∃ pos, rest = [⟨.symbol .semicolon, pos⟩])

/-- Values of assignments may end wherever a comparison can. -/
def Anywhere : List Token → List Token → Prop := fun _ _ => True

/-- No comparison at the start of `input` reaches further than the one that leaves `rest`. -/
def Furthest (input rest : List Token) : Prop :=
  ∀ e' rest', Reads Anywhere .comparison input e' rest' → rest.length ≤ rest'.length

theorem Reads.mono {fits fits' : List Token → List Token → Prop}
    (hfits : ∀ input rest, fits input rest → fits' input rest) {kind : Phrase}
    {input rest : List Token} {e : Expr} (h : Reads fits kind input e rest) :
    Reads fits' kind input e rest := by
  induction h with
  | bang _ ih => exact .bang ih
  | relation _ ih => exact .relation ih
  | operand hkind _ ih => exact .operand hkind ih
  | join hkind hop _ _ ihl ihr => exact .join hkind hop ihl ihr
  | sign hop _ ih => exact .sign hop ih
  | unsigned _ ih => exact .unsigned ih
  | base _ ih => exact .base ih
  | power _ _ ihl ihr => exact .power ihl ihr
  | number x pos rest => exact .number x pos rest
  | string s pos rest => exact .string s pos rest
  | char c pos rest => exact .char c pos rest
  | constant h pos rest => exact .constant h pos rest
  | access h pos rest => exact .access h pos rest
  | assign hname _ hfit ih => exact .assign hname ih (hfits _ _ hfit)
  | group _ ih => exact .group ih

/-! ### Words and operators -/

theorem isReserved_eq_false_iff_notMem {name : String} :
    isReserved name = false ↔ name ∉ reservedWords := by
  rw [isReserved_eq_false_iff]
  simp only [declareWord, constant?, reservedWords, List.mem_cons, List.not_mem_nil, or_false,
    not_or]
  constructor
  · rintro ⟨hlet, h⟩
    refine ⟨hlet, ?_⟩
    repeat' split at h
    all_goals simp_all
  · rintro ⟨hlet, hinf, hnan, htrue, hfalse⟩
    simp [hlet, hinf, hnan, htrue, hfalse]

theorem constant?_eq_some_iff {word : String} {v : Value} :
    constant? word = some v ↔ (word, v) ∈ constants := by
  simp only [constant?, constants, List.mem_cons, Prod.mk.injEq, List.not_mem_nil, or_false]
  constructor
  · intro h
    repeat' split at h
    all_goals simp_all
  · rintro (⟨rfl, rfl⟩ | ⟨rfl, rfl⟩ | ⟨rfl, rfl⟩ | ⟨rfl, rfl⟩) <;> rfl

/-- The level that reads phrases of a kind. -/
def Phrase.level : Phrase → Level
  | comparison | relation => .comparison
  | union => .union
  | exclusive => .exclusive
  | intersection => .intersection
  | shift => .shift
  | sum => .sum
  | product => .product
  | signed => .signed
  | power => .power
  | atom => .atom

/-- The rows of operands of the grammar are the chains of the levels. -/
theorem Phrase.level_of_chain? {kind inner : Phrase} {ops : List Symbol}
    (h : kind.chain? = some (ops, inner)) :
    kind.level.isChain ∧ inner.level = kind.level.tighter ∧
      ∀ op, op ∈ ops ↔ kind.level.joins op := by
  cases kind <;> simp only [chain?, reduceCtorEq, Option.some.injEq, Prod.mk.injEq] at h
  all_goals
    obtain ⟨rfl, rfl⟩ := h
    refine ⟨rfl, rfl, fun op => ?_⟩
    cases op <;> decide

theorem Phrase.isSome_level?_of_chain? {kind inner : Phrase} {ops : List Symbol} {op : Symbol}
    (h : kind.chain? = some (ops, inner)) (hop : op ∈ ops) : op.level?.isSome := by
  obtain ⟨hchain, -, hjoins⟩ := Phrase.level_of_chain? h
  rw [(Level.joins_iff hchain).mp ((hjoins op).mp hop)]
  rfl

/-! ### Outlines -/

/-- The parts of an outline: comparisons, operands in a row, the same without a sign in front, and
single operands that are closed at their end. -/
inductive Part where
  | comparison | operands | unsigned | closed

/-- The first token of a part can be this one. -/
def Part.starts (part : Part) (lexeme : Lexeme) : Bool :=
  lexeme.isOperand || lexeme == .symbol .openParen ||
    match part with
    | .comparison =>
      lexeme == .symbol .bang || lexeme == .symbol .plus || lexeme == .symbol .minus
    | .operands => lexeme == .symbol .plus || lexeme == .symbol .minus
    | .unsigned | .closed => false

/-- Phrases without their precedence: what stands in front of an operator is closed, and an
assignment is always the last operand of its row. -/
inductive Outline : Part → List Token → List Token → Prop where
  | bang {input rest : List Token} {pos : Nat} (h : Outline .comparison input rest) :
      Outline .comparison (⟨.symbol .bang, pos⟩ :: input) rest
  | row {input rest : List Token} (h : Outline .operands input rest) :
      Outline .comparison input rest
  | sign {op : Symbol} {input rest : List Token} {pos : Nat} (hop : op = .plus ∨ op = .minus)
      (h : Outline .operands input rest) : Outline .operands (⟨.symbol op, pos⟩ :: input) rest
  | unsigned {input rest : List Token} (h : Outline .unsigned input rest) :
      Outline .operands input rest
  | last {input rest : List Token} (h : Outline .closed input rest) : Outline .unsigned input rest
  | more {op : Symbol} {input mid rest : List Token} {pos : Nat} (hop : op.level?.isSome)
      (h : Outline .closed input (⟨.symbol op, pos⟩ :: mid)) (hmid : Outline .operands mid rest) :
      Outline .unsigned input rest
  | assign {name : String} {input rest : List Token} {pos pos' : Nat}
      (hname : isReserved name = false) (h : Outline .comparison input rest) :
      Outline .unsigned (⟨.identifier name, pos⟩ :: ⟨.symbol .assign, pos'⟩ :: input) rest
  | single {t : Token} (ht : t.lexeme.isOperand) (rest : List Token) :
      Outline .closed (t :: rest) rest
  | group {input rest : List Token} {pos pos' : Nat}
      (h : Outline .comparison input (⟨.symbol .closeParen, pos'⟩ :: rest)) :
      Outline .closed (⟨.symbol .openParen, pos⟩ :: input) rest

namespace Outline

variable {part : Part} {input mid rest : List Token}

/-- An outline leaves a proper ending of its tokens. -/
theorem exists_cons (h : Outline part input rest) :
    ∃ t more, input = t :: more ∧ rest <:+ more := by
  induction h with
  | bang _ ih | sign _ _ ih =>
    obtain ⟨t, more, rfl, hmore⟩ := ih
    exact ⟨_, _, rfl, hmore.trans (List.suffix_cons _ _)⟩
  | row _ ih | unsigned _ ih | last _ ih => exact ih
  | more _ _ _ ih ihmid =>
    obtain ⟨t, more, rfl, hmore⟩ := ih
    obtain ⟨t', more', rfl, hmore'⟩ := ihmid
    refine ⟨t, more, rfl, hmore'.trans ?_⟩
    exact ((List.suffix_cons _ _).trans (List.suffix_cons _ _)).trans hmore
  | assign _ _ ih =>
    obtain ⟨t, more, rfl, hmore⟩ := ih
    refine ⟨_, _, rfl, hmore.trans ?_⟩
    exact (List.suffix_cons _ _).trans (List.suffix_cons _ _)
  | single _ rest => exact ⟨_, rest, rfl, List.suffix_refl _⟩
  | group _ ih =>
    obtain ⟨t, more, rfl, hmore⟩ := ih
    refine ⟨_, _, rfl, ?_⟩
    exact (List.suffix_cons _ _).trans (hmore.trans (List.suffix_cons _ _))

theorem isSuffix (h : Outline part input rest) : rest <:+ input := by
  obtain ⟨t, more, rfl, hmore⟩ := h.exists_cons
  exact hmore.trans (List.suffix_cons _ _)

theorem length_lt (h : Outline part input rest) : rest.length < input.length := by
  obtain ⟨t, more, rfl, hmore⟩ := h.exists_cons
  exact Nat.lt_succ_of_le hmore.length_le

theorem exists_starts (h : Outline part input rest) :
    ∃ t more, input = t :: more ∧ part.starts t.lexeme := by
  induction h with
  | bang => exact ⟨_, _, rfl, rfl⟩
  | row _ ih =>
    obtain ⟨t, more, rfl, ht⟩ := ih
    refine ⟨t, more, rfl, ?_⟩
    simp only [Part.starts, Bool.or_eq_true] at ht ⊢
    grind
  | sign hop => exact ⟨_, _, rfl, by rcases hop with rfl | rfl <;> rfl⟩
  | unsigned _ ih =>
    obtain ⟨t, more, rfl, ht⟩ := ih
    refine ⟨t, more, rfl, ?_⟩
    simp only [Part.starts, Bool.or_eq_true] at ht ⊢
    grind
  | last _ ih | more _ _ _ ih => exact ih
  | assign hname =>
    have hlet := (isReserved_eq_false_iff.mp hname).1
    exact ⟨_, _, rfl, by simp [Part.starts, Lexeme.isOperand, hlet]⟩
  | single ht => exact ⟨_, _, rfl, by simp [Part.starts, ht]⟩
  | group => exact ⟨_, _, rfl, rfl⟩

theorem leading?_ne {s : Symbol} (h : Outline part input rest)
    (hs : part.starts (.symbol s) = false) : leading? input ≠ some s := by
  intro hlead
  obtain ⟨pos, more, rfl⟩ := exists_of_leading? hlead
  obtain ⟨t, more', heq, ht⟩ := h.exists_starts
  obtain ⟨rfl, -⟩ := List.cons.inj heq
  simp [hs] at ht

/-- A row can be continued behind an operator. -/
theorem append {op : Symbol} {pos : Nat} (hpart : part ≠ .closed) (hop : op.level?.isSome)
    (h : Outline part input (⟨.symbol op, pos⟩ :: mid)) (hmid : Outline .operands mid rest) :
    Outline part input rest := by
  generalize hnext : (⟨.symbol op, pos⟩ :: mid : List Token) = next at h
  induction h with
  | bang _ ih => exact .bang (ih (by simp) hnext)
  | row _ ih => exact .row (ih (by simp) hnext)
  | sign hsign _ ih => exact .sign hsign (ih (by simp) hnext)
  | unsigned _ ih => exact .unsigned (ih (by simp) hnext)
  | last h ih =>
    subst hnext
    exact .more hop h hmid
  -- The value of an assignment takes the new operands in, which is where trees are not kept.
  | more hop' h _ _ ih => exact .more hop' h (ih (by simp) hnext)
  | assign hname _ ih => exact .assign hname (ih (by simp) hnext)
  | single | group => exact absurd rfl hpart

end Outline

/-- The part of an outline that a kind of phrase is. -/
def Phrase.part : Phrase → Part
  | comparison => .comparison
  | power | atom => .unsigned
  | _ => .operands

theorem Phrase.part_of_chain? {kind inner : Phrase} {ops : List Symbol}
    (h : kind.chain? = some (ops, inner)) : kind.part = .operands ∧ inner.part = .operands := by
  cases kind <;> simp only [chain?, reduceCtorEq, Option.some.injEq, Prod.mk.injEq] at h
  all_goals
    obtain ⟨-, rfl⟩ := h
    exact ⟨rfl, rfl⟩

/-- **Phrases have outlines.** -/
theorem Reads.outline {fits : List Token → List Token → Prop} {kind : Phrase}
    {input rest : List Token} {e : Expr} (h : Reads fits kind input e rest) :
    Outline kind.part input rest := by
  induction h with
  | bang _ ih => exact .bang ih
  | relation _ ih => exact .row ih
  | operand hkind _ ih =>
    obtain ⟨hpart, hinner⟩ := Phrase.part_of_chain? hkind
    rw [hinner] at ih
    rwa [hpart]
  | join hkind hop _ _ ihl ihr =>
    obtain ⟨hpart, hinner⟩ := Phrase.part_of_chain? hkind
    rw [hinner] at ihr
    rw [hpart] at ihl ⊢
    exact ihl.append (by simp) (Phrase.isSome_level?_of_chain? hkind hop) ihr
  | sign hop _ ih => exact .sign hop ih
  | unsigned _ ih => exact .unsigned ih
  | base _ ih => exact ih
  | power _ _ ihl ihr => exact ihl.append (by simp [Phrase.part]) rfl ihr
  | number x pos rest => exact .last (.single rfl rest)
  | string s pos rest => exact .last (.single rfl rest)
  | char c pos rest => exact .last (.single rfl rest)
  | constant h pos rest =>
    refine .last (.single ?_ rest)
    simp only [constants, List.mem_cons, Prod.mk.injEq, List.not_mem_nil, or_false] at h
    rcases h with ⟨rfl, -⟩ | ⟨rfl, -⟩ | ⟨rfl, -⟩ | ⟨rfl, -⟩ <;> rfl
  | access h pos rest =>
    refine .last (.single ?_ rest)
    have hlet := (isReserved_eq_false_iff.mp (isReserved_eq_false_iff_notMem.mpr h)).1
    simpa [Lexeme.isOperand] using hlet
  | assign hname _ _ ih => exact .assign (isReserved_eq_false_iff_notMem.mpr hname) ih
  | group _ ih => exact .last (.group ih)

end Expr

end Reckon
