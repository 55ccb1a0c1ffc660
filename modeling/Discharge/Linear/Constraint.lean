import Discharge.Linear.Form

/-!
# Linear constraints

A comparison of linear terms says that a form is zero, positive or not
negative.
-/

namespace Discharge

/-- How a form relates to zero. -/
inductive Relation where
  | ge | gt | eq
deriving DecidableEq, Repr

/-- The sign a relation is written with. -/
def Relation.symbol : Relation → String
  | .ge => ">=" | .gt => ">" | .eq => "=="

/-- A form in a relation to zero. -/
structure Constraint where
  form : LinearForm
  relation : Relation
deriving DecidableEq

namespace Constraint

/-- The text of a constraint, such as `x - 1 >= 0`. -/
def text (c : Constraint) : String :=
  c.form.text ++ " " ++ c.relation.symbol ++ " 0"

/-- The constraint that a comparison states; no single one states `!=`. -/
def ofComparison (o : CompareOp) (l r : Expr) : Except LinearizeError Constraint := do
  let a ← l.linearize
  let b ← r.linearize
  let state (difference : Option LinearForm) (relation : Relation) :
      Except LinearizeError Constraint := do
    return ⟨← Expr.orOverflow difference, relation⟩
  match o with
  | .gt => state (a.sub? b) .gt
  | .ge => state (a.sub? b) .ge
  | .lt => state (b.sub? a) .gt
  | .le => state (b.sub? a) .ge
  | .eq => state (a.sub? b) .eq
  | .ne => .error (.unsupported (.compare .ne l r))

end Constraint

end Discharge
