import Discharge.Linear.Constraint

/-!
# Feasibility of linear constraints

Fourier–Motzkin elimination over the rationals. Atoms are removed one after the
other: each row with a positive coefficient is combined with each row with a
negative one so that the atom cancels. The constraints have no solution exactly
when a row without atoms turns out false. The number of rows can grow fast, so
a limit on it, like overflow of a coefficient, ends the search without an
answer.
-/

namespace Discharge

/-- A form that is positive, or not negative. -/
structure Row where
  form : LinearForm
  strict : Bool
deriving DecidableEq

namespace Row

/-- No atom is left, and what is left is false. -/
def isContradiction (r : Row) : Bool :=
  r.form.isConstant &&
    (r.form.constant.isNegative || (r.strict && r.form.constant.isZero))

/-- The text of a row without atoms. -/
def constantText (r : Row) : String :=
  r.form.constant.text ++ (if r.strict then " > 0" else " >= 0")

/-- Rows are ordered by their form, then non-strict ones first. -/
def cmp (r s : Row) : Ordering :=
  (r.form.cmp s.form).then (compare r.strict s.strict)

/-- The row divided by the magnitude of its first coefficient, or of its
constant if it has no atom. -/
def normalize? (r : Row) : Option Row := do
  let pivot := match r.form.coeffs with
    | (_, c) :: _ => c
    | [] => r.form.constant
  let m ← pivot.abs?
  if m.isZero || m == .one then some r
  else do
    let inverse ← Fraction.one.div? m
    return { r with form := ← r.form.scale? inverse }

/-- The combination of a row in which an atom has a positive coefficient and one
in which it has a negative one, such that the atom cancels. -/
def combine? (x : String) (p n : Row) : Option Row := do
  let a := p.form.coeff x
  let b := n.form.coeff x
  let left ← p.form.scale? (← b.neg?)
  let right ← n.form.scale? a
  normalize? ⟨← left.add? right, p.strict || n.strict⟩

/-- The row says something: it has an atom, or it is false. -/
def isInformative (r : Row) : Bool := !r.form.isConstant || r.isContradiction

/-- Neighbours that are equal are kept once. -/
def dedup : List Row → List Row
  | [] => []
  | r :: rs =>
    match dedup rs with
    | [] => [r]
    | s :: ss => if r = s then s :: ss else r :: s :: ss

/-- A list of rows in order, each once. -/
def sorted (rs : List Row) : List Row :=
  dedup (rs.mergeSort fun r s => r.cmp s != .gt)

/-- The coefficients that occur in a list of rows, those of one atom together
and the atoms in order. -/
def occurrences (rs : List Row) : List Coefficients :=
  ((rs.flatMap (·.form.coeffs)).mergeSort fun a b => a.1 ≤ b.1).splitBy fun a b => a.1 == b.1

/-- How many rows it takes to eliminate the atom of some coefficients: one for
each pair of a row with a positive coefficient and another row with the atom. -/
def pairs (cs : Coefficients) : Nat :=
  let positive := cs.countP (·.2.isPositive)
  positive * (cs.length - positive)

/-- The atoms that occur in a list of rows, in order, each with the number of
rows that it takes to eliminate it. -/
def costs (rs : List Row) : List (String × Nat) :=
  (occurrences rs).filterMap fun cs => cs.head?.map fun (x, _) => (x, pairs cs)

/-- The first of the cheapest elements of a list. -/
def cheapest? : List (String × Nat) → Option (String × Nat)
  | [] => none
  | x :: xs =>
    match cheapest? xs with
    | some y => if y.2 < x.2 then some y else some x
    | none => some x

/-- The atom to eliminate next: the one that needs the fewest new rows, and the
first in order among those. -/
def nextAtom? (rs : List Row) : Option String :=
  (cheapest? (costs rs)).map (·.1)

/-- The rows without an atom that follow from the given ones, unless a
coefficient overflows. -/
def eliminate? (x : String) (rs : List Row) : Option (List Row) := do
  let positive := rs.filter (·.form.coeff x |>.isPositive)
  let negative := rs.filter (·.form.coeff x |>.isNegative)
  let without := rs.filter (·.form.coeff x |>.isZero)
  let combined ← positive.mapM fun p => negative.mapM fun n => combine? x p n
  return sorted ((without ++ combined.flatten).filter isInformative)

end Row

/-- Why the search ended without an answer. -/
inductive Limit where
  /-- More rows than allowed. -/
  | rows (count allowed : Nat)
  /-- A coefficient is no word. -/
  | overflow
  /-- Atoms are left after each has been eliminated once. -/
  | rounds
deriving DecidableEq

def Limit.message : Limit → String
  | .rows n allowed =>
    toString n ++ " rows exceed the limit of " ++ toString allowed
  | .overflow => "coefficient overflow"
  | .rounds => "elimination does not end"

/-- The answer on a list of constraints. -/
inductive Feasibility where
  /-- No solution: this row without atoms follows and is false. -/
  | infeasible (contradiction : Row)
  | feasible
  | inconclusive (limit : Limit)
deriving DecidableEq

/-- What the search did. -/
structure Elimination where
  eliminated : List String
  peakRows : Nat
deriving DecidableEq

namespace Feasibility

/-- Eliminate atoms for at most the given number of rounds. -/
def search (maxRows : Nat) : Nat → List Row → Elimination → Feasibility × Elimination
  | 0, _, done => (.inconclusive .rounds, done)
  | rounds + 1, rows, done =>
    let done := { done with peakRows := max done.peakRows rows.length }
    if maxRows < rows.length then (.inconclusive (.rows rows.length maxRows), done)
    else match rows.find? Row.isContradiction with
      | some bad => (.infeasible bad, done)
      | none =>
        match Row.nextAtom? rows with
        | none => (.feasible, done)
        | some x =>
          match Row.eliminate? x rows with
          | none => (.inconclusive .overflow, done)
          | some next =>
            search maxRows rounds next { done with eliminated := done.eliminated ++ [x] }

/-- The rows that a constraint amounts to; an equation bounds its form from both
sides. -/
def rows? (c : Constraint) : Option (List Row) :=
  match c.relation with
  | .ge => some [⟨c.form, false⟩]
  | .gt => some [⟨c.form, true⟩]
  | .eq => do return [⟨c.form, false⟩, ⟨← c.form.neg?, false⟩]

/-- Decide whether constraints have a rational solution, working with at most
the given number of rows. -/
def check (constraints : List Constraint) (maxRows : Nat) : Feasibility × Elimination :=
  match constraints.mapM rows? with
  | none => (.inconclusive .overflow, ⟨[], 0⟩)
  | some rows =>
    let rows := Row.sorted rows.flatten
    search maxRows ((Row.costs rows).length + 1) rows ⟨[], 0⟩

end Feasibility

end Discharge
