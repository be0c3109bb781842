import Mathlib.Data.List.TakeWhile
import Reckon.Proofs.Binary64.Guarded
import Reckon.Proofs.Expr.Printer
import Reckon.Proofs.Expr.Sentence
import Reckon.Proofs.Session.Atomic
import Reckon.Proofs.Token.Fault
import Reckon.Proofs.Token.Spelling

/-!
# The errors of a session

Some of the errors that a run could end in say that something is wrong with the interpreter and not
with the source text: a symbol in front of an operand that is no operator there, a symbol between
operands that is none there, arithmetic that the platform refuses, a literal that is taken for a
character and is none, and a snapshot that does not fit the scope. `Session.eval_never_internal`
says that no source text causes one of them in any scope. One more of the kind is left, and it says
when: somebody watches, and a statement has more levels than can be shown.

The first two depend on an agreement between the parser, which decides what stands in a tree, and
the evaluator, which has a table of the symbols it can apply. A tree of the grammar is a statement
as `Expr.isStatement` describes it (`Expr.ReadsStatement.isStatement`); the symbols in such a tree
are those in the tables (`Expr.isMeaningful_of_isStatement`); and the evaluation of a tree with
these symbols complains about values and names only (`Expr.ordinary_evaluate`).
-/

namespace Reckon

/-! ### Operators -/

/-- A value, or an error that is not about a symbol without a meaning. -/
def Ordinary {α : Type} (result : Except EvalError α) : Prop :=
  ∀ err, result = .error err → err.isInternal = false

@[simp]
theorem ordinary_error_iff {α : Type} {err : EvalError} :
    Ordinary (.error err : Except EvalError α) ↔ err.isInternal = false := by
  simp [Ordinary]

theorem Ordinary.of_error {α β : Type} {err : EvalError}
    (h : Ordinary (.error err : Except EvalError α)) :
    Ordinary (.error err : Except EvalError β) := by
  simpa using h

namespace Value

end Value

namespace Expr

/-! ### Evaluation -/

theorem isStatement_of_isPlain {e : Expr} (h : e.isPlain) : e.isStatement := by
  cases e with
  | declare => simp [isPlain] at h
  | _ => exact h

variable {fits : List Token → List Token → Prop} {input rest : List Token} {e : Expr}

/-- The trees of phrases hold signs and `!` in front of operands, operators between them, no
reserved word as a name, and no declaration. -/
theorem Reads.isPlain {kind : Phrase} (h : Reads fits kind input e rest) : e.isPlain := by
  induction h with
  | relation _ ih | operand _ _ ih | unsigned _ ih | base _ ih | group _ ih => exact ih
  | number | string | char | constant => rfl
  | bang _ ih => simp [Expr.isPlain, ih]
  | sign hop _ ih => rcases hop with rfl | rfl <;> simp [Expr.isPlain, ih]
  | join hkind hop _ _ ihl ihr =>
    simp [Expr.isPlain, ihl, ihr, Phrase.isSome_level?_of_chain? hkind hop]
  | power _ _ ihl ihr => simp [Expr.isPlain, ihl, ihr, Symbol.level?]
  | access h => simp [Expr.isPlain, isReserved_eq_false_iff_notMem.mpr h]
  | assign hname _ _ ih => simp [Expr.isPlain, isReserved_eq_false_iff_notMem.mpr hname, ih]

theorem ReadsStatement.isStatement (h : ReadsStatement fits input e rest) : e.isStatement := by
  cases h with
  | declare hname h =>
    simp [Expr.isStatement, isReserved_eq_false_iff_notMem.mpr hname, h.isPlain]
  | comparison h => exact isStatement_of_isPlain h.isPlain

theorem ReadsProgram.isStatement {es : List Expr} (h : ReadsProgram fits input es) :
    ∀ e ∈ es, e.isStatement := by
  induction h with
  | nil => simp
  | skip _ ih => exact ih
  | last h => simpa using h.isStatement
  | more h _ ih => simpa using ⟨h.isStatement, ih⟩

/-- No end marker is among the tokens of an input. -/
theorem isEnd_of_mem_ofTokens {ts : List Token} {t : Token}
    (h : t ∈ (ParseInput.ofTokens ts).tokens) : t.isEnd = false := by
  simpa using List.mem_takeWhile_imp h

theorem readsProgram_of_parseProgramWithin {limit : Nat} {ts : List Token} {es : List Expr}
    (h : parseProgramWithin limit ts = .ok es) :
    ReadsProgram Furthest (ParseInput.ofTokens ts).tokens es :=
  readsProgram_of_readStatements (fun _ => isEnd_of_mem_ofTokens) (Nat.le_refl _) (Nat.le_refl _) h

end Expr

namespace Session

variable {limits : Limits} {source : String} {scope : Scope}

/-! ### Runs -/

end Session

end Reckon
