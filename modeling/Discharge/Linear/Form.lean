import Discharge.Expr.Eval
import Discharge.Expr.Printer

/-!
# Linear forms

A linear form is a constant plus a sum of atoms with coefficients. Atoms are
variables and lengths, known by their text; the coefficients are kept sorted by
atom, and no coefficient is stored that has become zero. Arithmetic on forms is
checked, as that of fractions is.
-/

namespace Discharge

/-- A sum of atoms with coefficients, sorted by atom. -/
abbrev Coefficients := List (String × Fraction)

namespace Coefficients

/-- Add a multiple of an atom. -/
def add? (x : String) (c : Fraction) : Coefficients → Option Coefficients
  | [] => some [(x, c)]
  | (y, d) :: rest =>
    if x = y then do
      let sum ← d.add? c
      return if sum.isZero then rest else (y, sum) :: rest
    else if x < y then some ((x, c) :: (y, d) :: rest)
    else do return (y, d) :: (← add? x c rest)

def get (cs : Coefficients) (x : String) : Fraction :=
  (cs.lookup x).getD .zero

/-- Lexicographic order, by atom and then by coefficient. -/
def cmp : Coefficients → Coefficients → Ordering
  | [], [] => .eq
  | [], _ :: _ => .lt
  | _ :: _, [] => .gt
  | (x, c) :: as, (y, d) :: bs => (compare x y).then ((c.cmp d).then (cmp as bs))

end Coefficients

/-- `constant + Σ coefficient · atom`. -/
structure LinearForm where
  coeffs : Coefficients
  constant : Fraction
deriving DecidableEq

namespace LinearForm

def ofConstant (c : Fraction) : LinearForm := ⟨[], c⟩

def ofAtom (x : String) : LinearForm := ⟨[(x, .one)], .zero⟩

def isConstant (f : LinearForm) : Bool := f.coeffs.isEmpty

def coeff (f : LinearForm) (x : String) : Fraction := f.coeffs.get x

def atoms (f : LinearForm) : List String := f.coeffs.map (·.1)

def add? (f g : LinearForm) : Option LinearForm := do
  let constant ← f.constant.add? g.constant
  let coeffs ← g.coeffs.foldlM (fun cs (x, c) => Coefficients.add? x c cs) f.coeffs
  return ⟨coeffs, constant⟩

def scale? (f : LinearForm) (k : Fraction) : Option LinearForm :=
  if k.isZero then some (ofConstant .zero)
  else do
    let coeffs ← f.coeffs.mapM fun (x, c) => do return (x, ← c.mul? k)
    return ⟨coeffs, ← f.constant.mul? k⟩

/-- The form with all signs changed. -/
def neg? (f : LinearForm) : Option LinearForm := do
  f.scale? (← Fraction.one.neg?)

def sub? (f g : LinearForm) : Option LinearForm := do
  f.add? (← g.neg?)

/-- Lexicographic order, by the coefficients and then by the constant. -/
def cmp (f g : LinearForm) : Ordering :=
  (f.coeffs.cmp g.coeffs).then (f.constant.cmp g.constant)

/-- The absolute value, or the number itself where that is no word. -/
def magnitude (c : Fraction) : Fraction := c.abs?.getD c

/-- A multiple of an atom without its sign. -/
def termText (x : String) (c : Fraction) : String :=
  let m := magnitude c
  if m = .one then x else m.text ++ "·" ++ x

/-- The terms after the first, each with its sign. -/
def laterTerms : Coefficients → String
  | [] => ""
  | (x, c) :: rest =>
    (if c.isNegative then " - " else " + ") ++ termText x c ++ laterTerms rest

/-- The text of a form, such as `2·x + y - 3`. -/
def text (f : LinearForm) : String :=
  match f.coeffs with
  | [] => f.constant.text
  | (x, c) :: rest =>
    let constant :=
      if f.constant.isZero then ""
      else if f.constant.isNegative then " - " ++ (magnitude f.constant).text
      else " + " ++ f.constant.text
    (if c.isNegative then "-" else "") ++ termText x c ++ laterTerms rest ++ constant

end LinearForm

/-- Why a term has no linear form. -/
inductive LinearizeError where
  | nonLinear (term : Expr)
  | unsupported (term : Expr)
  | overflow
deriving DecidableEq

/-- The message of a linearization error. -/
def LinearizeError.message : LinearizeError → String
  | .nonLinear e => "non-linear term `" ++ e.text ++ "`"
  | .unsupported e => "unsupported term `" ++ e.text ++ "`"
  | .overflow => "coefficient overflow"

namespace Expr

/-- The result of a checked operation, with failure read as overflow. -/
def orOverflow : Option LinearForm → Except LinearizeError LinearForm
  | some f => .ok f
  | none => .error .overflow

/-- The length of a variable, or of a member, counts as an atom. -/
def isAtomBase : Expr → Bool
  | .var _ | .member .. => true
  | _ => false

/-- The form of `base ** exponent`, which is the power `e`. The exponent has to
be a natural number; only a constant can be raised to more than the first
power. -/
def powerForm (e : Expr) (base exponent : LinearForm) : Except LinearizeError LinearForm :=
  if !exponent.isConstant then .error (.nonLinear e)
  else
    let n := exponent.constant
    if !n.isInteger || n.isNegative then .error (.unsupported e)
    else if base.isConstant then
      if n.num > maxExponent then .error (.unsupported e)
      else orOverflow ((base.constant.pow? n.num.toNat).map .ofConstant)
    else if n.num = 0 then .ok (.ofConstant .one)
    else if n.num = 1 then .ok base
    else .error (.nonLinear e)

/-- The form of an arithmetic operation, which is the term `e`, on two forms. -/
def arithForm (e : Expr) (o : ArithOp) (a b : LinearForm) : Except LinearizeError LinearForm :=
  match o with
  | .add => orOverflow (a.add? b)
  | .sub => orOverflow (a.sub? b)
  | .mul =>
    if a.isConstant then orOverflow (b.scale? a.constant)
    else if b.isConstant then orOverflow (a.scale? b.constant)
    else .error (.nonLinear e)
  | .div =>
    if !b.isConstant then .error (.nonLinear e)
    else match Fraction.one.div? b.constant with
      | some inverse => orOverflow (a.scale? inverse)
      | none => .error (.unsupported e)
  | .rem =>
    if a.isConstant && b.isConstant then
      orOverflow ((a.constant.rem? b.constant).map .ofConstant)
    else .error (.unsupported e)
  | .pow => powerForm e a b

/-- The linear form of a term. -/
def linearize : Expr → Except LinearizeError LinearForm
  | .num q => .ok (.ofConstant q)
  | .var x => .ok (.ofAtom x)
  | .member e f =>
    if f = "length" && e.isAtomBase then .ok (.ofAtom (Expr.member e f).text)
    else .error (.unsupported (.member e f))
  | .neg e => do orOverflow (← e.linearize).neg?
  | .arith o l r => do
    let a ← l.linearize
    let b ← r.linearize
    arithForm (.arith o l r) o a b
  | e => .error (.unsupported e)

/-- Every comparison in a condition is between linear terms, and nothing but
truth values and comparisons is joined. -/
def isLinear : Expr → Bool
  | .bool _ => true
  | .compare _ l r => l.linearize.isOk && r.linearize.isOk
  | .and l r | .or l r => l.isLinear && r.isLinear
  | .not e => e.isLinear
  | _ => false

end Expr

end Discharge
