import Discharge.Expr.Printer

/-!
# Canonical conditions

Conditions that differ only in spelling share a canonical form: `<` and `<=` are
written with `>` and `>=`, the sides of `==` and `!=` are ordered by their text,
a negation is pushed into a comparison or cancels another one, and the sign of a
literal belongs to the literal.
-/

namespace Discharge.Expr

/-- A comparison of two canonical operands in its canonical direction. -/
def orient : CompareOp → Expr → Expr → Expr
  | .lt, l, r => .compare .gt r l
  | .le, l, r => .compare .ge r l
  | .gt, l, r => .compare .gt l r
  | .ge, l, r => .compare .ge l r
  | .eq, l, r => if l.text ≤ r.text then .compare .eq l r else .compare .eq r l
  | .ne, l, r => if l.text ≤ r.text then .compare .ne l r else .compare .ne r l

/-- The canonical direction is the given one or the opposite. -/
theorem orient_eq (o : CompareOp) (l r : Expr) :
    orient o l r = .compare o l r ∨ orient o l r = .compare o.flipped r l := by
  cases o with
  | lt | le => exact .inr rfl
  | gt | ge => exact .inl rfl
  | eq | ne =>
    rw [orient]
    split
    · exact .inl rfl
    · exact .inr rfl

/-- The negation of a term; that of a literal is a literal when there is one. -/
def negate : Expr → Expr
  | .num q =>
    match q.neg? with
    | some n => .num n
    | none => .neg (.num q)
  | e => .neg e

mutual

def canonical : Expr → Expr
  | .bool b => .bool b
  | .num q => .num q
  | .str s => .str s
  | .var x => .var x
  | .branded x b => .branded x b
  | .member e f => .member e.canonical f
  | .neg e => negate e.canonical
  | .not (.not e) => e.canonical
  | .not (.compare o l r) => orient o.negated l.canonical r.canonical
  | .not (.bool b) => .bool !b
  | .not e => .not e.canonical
  | .arith o l r => .arith o l.canonical r.canonical
  | .compare o l r => orient o l.canonical r.canonical
  | .and l r => .and l.canonical r.canonical
  | .or l r => .or l.canonical r.canonical
  | .call f as => .call f (canonicalList as)
  | .invoke e f as => .invoke e.canonical f (canonicalList as)

/-- The canonical form of each argument. -/
def canonicalList : List Expr → List Expr
  | [] => []
  | a :: as => a.canonical :: canonicalList as

end

theorem canonicalList_eq_map (as : List Expr) : canonicalList as = as.map canonical := by
  induction as with
  | nil => rfl
  | cons a as ih => simp [canonicalList, ih]

end Discharge.Expr
