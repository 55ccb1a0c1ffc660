import Discharge.Expr.Printer

/-!
# Terms for an SMT solver

Conditions over real arithmetic as an SMT-LIB solver reads them. A condition
can be said to the solver when it consists of comparisons of arithmetic terms
over variables and lengths of variables, joined by connectives.
-/

namespace Discharge.Smt

/-- A constant of the solver. -/
structure Symbol where
  /-- The name as it is written. -/
  name : String
  /-- The constant stands for a length. -/
  isLength : Bool
deriving DecidableEq

namespace Symbol

/-- A name that needs no quotes. -/
def isSimple (name : String) : Bool :=
  name.toList.all (fun c => c.isAlphanum || c == '_') && !name.toList.head?.any Char.isDigit

/-- The symbol for a name, which is put between bars unless it is simple. -/
def ofName (name : String) (isLength : Bool) : Symbol where
  name :=
    if isSimple name then name
    else "|" ++ String.ofList (name.toList.map fun c => if c = '|' then '_' else c) ++ "|"
  isLength := isLength

/-- Symbols are ordered by name, and those of lengths come after others. -/
def le (a b : Symbol) : Bool :=
  decide (a.name < b.name) || (a.name == b.name && (!a.isLength || b.isLength))

end Symbol

/-- The arithmetic operators of the solver. -/
inductive Op where
  | add | sub | mul | div
deriving DecidableEq, Repr

def Op.symbol : Op → String
  | .add => "+" | .sub => "-" | .mul => "*" | .div => "/"

inductive Term where
  | literal (value : Fraction)
  | symbol (symbol : Symbol)
  | neg (operand : Term)
  | app (op : Op) (left right : Term)
  /-- A power, written as a product. -/
  | power (base : Term) (exponent : Nat)
deriving DecidableEq

inductive Formula where
  | bool (value : Bool)
  | compare (op : CompareOp) (left right : Term)
  | and (left right : Formula)
  | or (left right : Formula)
  | not (operand : Formula)
deriving DecidableEq

/-- The solver has no way to say this. -/
structure RenderError where
  part : Expr
deriving DecidableEq

/-- The message of a render error. -/
def RenderError.message (e : RenderError) : String :=
  "cannot express `" ++ e.part.text ++ "` in SMT-LIB"

/-- A fraction as a decimal or a quotient of two, negated if need be. -/
def literalText (q : Fraction) : String :=
  let body :=
    if q.isInteger then toString q.num.natAbs ++ ".0"
    else "(/ " ++ toString q.num.natAbs ++ ".0 " ++ toString q.den ++ ".0)"
  if q.isNegative then "(- " ++ body ++ ")" else body

namespace Term

def text : Term → String
  | .literal q => literalText q
  | .symbol s => s.name
  | .neg t => "(- " ++ t.text ++ ")"
  | .app o l r => "(" ++ o.symbol ++ " " ++ l.text ++ " " ++ r.text ++ ")"
  | .power t n =>
    if n = 0 then "1.0"
    else if n = 1 then t.text
    else "(* " ++ " ".intercalate (List.replicate n t.text) ++ ")"

/-- The symbols that a term is built from, also where a power makes them
disappear. -/
def symbols : Term → List Symbol
  | .literal _ => []
  | .symbol s => [s]
  | .neg t => t.symbols
  | .app _ l r => l.symbols ++ r.symbols
  | .power t _ => t.symbols

/-- The operator of the solver for an arithmetic operator that has one. -/
def op? : ArithOp → Option Op
  | .add => some .add
  | .sub => some .sub
  | .mul => some .mul
  | .div => some .div
  | .rem | .pow => none

/-- The largest exponent for which a power is written out. -/
def maxPower : Nat := 8

/-- The exponent of a power that can be written out. -/
def exponent? : Expr → Option Nat
  | .num q =>
    if q.isInteger && !q.isNegative && decide (q.num ≤ maxPower) then some q.num.toNat else none
  | _ => none

/-- The term for an arithmetic expression. -/
def ofExpr : Expr → Except RenderError Term
  | .num q => .ok (.literal q)
  | .var x => .ok (.symbol (.ofName x false))
  | .member (.var x) f =>
    if f = "length" then .ok (.symbol (.ofName (Expr.member (.var x) f).text true))
    else .error ⟨.member (.var x) f⟩
  | .neg e => do return .neg (← ofExpr e)
  | .arith o l r => do
    let a ← ofExpr l
    match o, op? o, exponent? r with
    | .pow, _, some n => return .power a n
    | _, some op, _ => return .app op a (← ofExpr r)
    | _, _, _ => .error ⟨.arith o l r⟩
  | e => .error ⟨e⟩

end Term

namespace Formula

def relation : CompareOp → String
  | .lt => "<" | .le => "<=" | .gt => ">" | .ge => ">=" | .eq => "=" | .ne => "distinct"

def text : Formula → String
  | .bool b => if b then "true" else "false"
  | .compare o l r => "(" ++ relation o ++ " " ++ l.text ++ " " ++ r.text ++ ")"
  | .and l r => "(and " ++ l.text ++ " " ++ r.text ++ ")"
  | .or l r => "(or " ++ l.text ++ " " ++ r.text ++ ")"
  | .not f => "(not " ++ f.text ++ ")"

def symbols : Formula → List Symbol
  | .bool _ => []
  | .compare _ l r => l.symbols ++ r.symbols
  | .and l r | .or l r => l.symbols ++ r.symbols
  | .not f => f.symbols

def ofExpr : Expr → Except RenderError Formula
  | .bool b => .ok (.bool b)
  | .compare o l r => do
    let a ← Term.ofExpr l
    let b ← Term.ofExpr r
    return .compare o a b
  | .and l r => do
    let a ← ofExpr l
    let b ← ofExpr r
    return .and a b
  | .or l r => do
    let a ← ofExpr l
    let b ← ofExpr r
    return .or a b
  | .not e => do return .not (← ofExpr e)
  | e => .error ⟨e⟩

end Formula

end Discharge.Smt
