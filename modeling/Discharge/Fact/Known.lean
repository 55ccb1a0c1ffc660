import Discharge.Fact.Basic

/-!
# What the facts say

The strategies do not look at facts but at the conditions these state, each with
the fact it comes from. Among them are literal bounds on terms, of which the
tightest one counts.
-/

namespace Discharge

/-- A condition that a fact states. -/
structure Atom where
  condition : Expr
  /-- The position of the fact. -/
  source : Nat
  fact : Fact
deriving DecidableEq

/-- A comparison that a fact states. -/
structure Comparison where
  op : CompareOp
  left : Expr
  right : Expr
  source : Nat
  fact : Fact
deriving DecidableEq

/-- A literal bound on a term. -/
structure Bound where
  value : Fraction
  strict : Bool
  fact : Fact
deriving DecidableEq

/-- Facts and the conditions they state. -/
structure Known where
  facts : List Fact
  atoms : List Atom
deriving DecidableEq

namespace Known

/-- What a list of facts says, with brands as in the catalog. -/
def ofFacts (c : Catalog) (facts : List Fact) : Known where
  facts := facts
  atoms := facts.zipIdx.flatMap fun (f, i) => (f.atoms c).map (⟨·, i, f⟩)

/-- The first atom that is the given canonical condition. -/
def identical? (k : Known) (condition : Expr) : Option Atom :=
  k.atoms.find? (·.condition == condition)

/-- The comparison at the top of an atom. -/
def comparisonOf? (a : Atom) : Option Comparison :=
  match a.condition with
  | .compare o l r => some ⟨o, l, r, a.source, a.fact⟩
  | _ => none

def comparisons (k : Known) : List Comparison := k.atoms.filterMap comparisonOf?

/-- The bound on a term that an equation with a literal gives. -/
def equationBound? (term : Expr) (c : Comparison) : Option Bound :=
  if c.left = term then c.right.asNum.map (⟨·, false, c.fact⟩)
  else if c.right = term then c.left.asNum.map (⟨·, false, c.fact⟩)
  else none

/-- The lower bound on a term that a comparison states. -/
def lowerOf? (term : Expr) (c : Comparison) : Option Bound :=
  match c.op with
  | .gt => if c.left = term then c.right.asNum.map (⟨·, true, c.fact⟩) else none
  | .ge => if c.left = term then c.right.asNum.map (⟨·, false, c.fact⟩) else none
  | .eq => equationBound? term c
  | _ => none

/-- The upper bound on a term that a comparison states. -/
def upperOf? (term : Expr) (c : Comparison) : Option Bound :=
  match c.op with
  | .gt => if c.right = term then c.left.asNum.map (⟨·, true, c.fact⟩) else none
  | .ge => if c.right = term then c.left.asNum.map (⟨·, false, c.fact⟩) else none
  | .eq => equationBound? term c
  | _ => none

/-- A lower bound says more than another. -/
def lowerTighter (a b : Bound) : Bool :=
  b.value.lt a.value || (a.value == b.value && a.strict && !b.strict)

/-- An upper bound says more than another. -/
def upperTighter (a b : Bound) : Bool :=
  a.value.lt b.value || (a.value == b.value && a.strict && !b.strict)

/-- The tightest of several bounds, the first among equals. -/
def tightest? (tighter : Bound → Bound → Bool) (bs : List Bound) : Option Bound :=
  bs.foldl (fun best b =>
    match best with
    | none => some b
    | some a => if tighter b a then some b else some a) none

/-- The tightest literal lower bound on a term. -/
def lowerBound? (k : Known) (term : Expr) : Option Bound :=
  tightest? lowerTighter (k.comparisons.filterMap (lowerOf? term))

/-- The tightest literal upper bound on a term. -/
def upperBound? (k : Known) (term : Expr) : Option Bound :=
  tightest? upperTighter (k.comparisons.filterMap (upperOf? term))

/-- The facts that show a term to be positive; a literal needs none. -/
def positive? (k : Known) (term : Expr) : Option (List Fact) :=
  match term with
  | .num q => if q.isPositive then some [] else none
  | _ => do
    let b ← k.lowerBound? term
    if b.value.isPositive || (b.value.isZero && b.strict) then some [b.fact] else none

/-- The facts that show a term not to be negative; a literal needs none. -/
def nonNegative? (k : Known) (term : Expr) : Option (List Fact) :=
  match term with
  | .num q => if q.isNegative then none else some []
  | _ => do
    let b ← k.lowerBound? term
    if b.value.isNegative then none else some [b.fact]

end Known

end Discharge
