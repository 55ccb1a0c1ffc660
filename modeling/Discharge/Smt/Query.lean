import Discharge.Smt.Term

/-!
# Refutation queries

Whether assumptions entail a goal is asked by asserting the assumptions together
with the negated goal: the goal follows if that has no model. Assumptions that
cannot be said to the solver are left out, which can only lose proofs.
-/

namespace Discharge.Smt

structure Query where
  /-- The constants to declare, in order and each once. -/
  symbols : List Symbol
  assumptions : List Formula
  goal : Formula
deriving DecidableEq

namespace Query

/-- The query for assumptions and a goal. -/
def ofExprs (goal : Expr) (assumptions : List Expr) : Except RenderError Query := do
  let goal ← Formula.ofExpr goal
  let assumptions := assumptions.filterMap fun a => (Formula.ofExpr a).toOption
  let symbols := (goal :: assumptions).flatMap Formula.symbols
  return ⟨(symbols.mergeSort Symbol.le).eraseDups, assumptions, goal⟩

/-- The lines that declare a constant; a length is not negative. -/
def declaration (s : Symbol) : String :=
  "(declare-const " ++ s.name ++ " Real)\n" ++
    (if s.isLength then "(assert (>= " ++ s.name ++ " 0.0))\n" else "")

def text (q : Query) : String :=
  String.join (q.symbols.map declaration) ++
    String.join (q.assumptions.map fun a => "(assert " ++ a.text ++ ")\n") ++
    "(assert (not " ++ q.goal.text ++ "))\n(check-sat)\n"

end Query

end Discharge.Smt
