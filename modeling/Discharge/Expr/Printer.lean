import Discharge.Expr.Basic
import Discharge.Fraction.Decimal

/-!
# The text of a condition

Each shape has a binding strength; an operand is put in parentheses when it
binds less tightly than its place asks for.
-/

namespace Discharge

/-- How tightly an arithmetic operator binds. -/
def ArithOp.precedence : ArithOp → Nat
  | .add | .sub => 5
  | .mul | .div | .rem => 6
  | .pow => 8

/-- How tightly a comparison binds. -/
def CompareOp.precedence : CompareOp → Nat
  | .eq | .ne => 3
  | .lt | .le | .gt | .ge => 4

namespace Expr

/-- How tightly the top of an expression binds: from 0 for a brand annotation to
10 for what needs no parentheses anywhere. -/
def precedence : Expr → Nat
  | .branded .. => 0
  | .or .. => 1
  | .and .. => 2
  | .compare o .. => o.precedence
  | .arith o .. => o.precedence
  | .neg _ | .not _ => 7
  | .num q => if q.isNegative then 7 else 10
  | .member .. | .call .. | .invoke .. => 9
  | .bool _ | .str _ | .var _ => 10

/-- The text of an operand in a place that asks for the given strength. -/
def operandText (least : Nat) (e : Expr) (text : String) : String :=
  if e.precedence < least then "(" ++ text ++ ")" else text

mutual

def text : Expr → String
  | .bool b => if b then "true" else "false"
  | .num q => q.text
  | .str s => "'" ++ s ++ "'"
  | .var x => x
  | .member e f => operandText 9 e e.text ++ "." ++ f
  | .neg e => "-" ++ operandText 8 e e.text
  | .not e => "!" ++ operandText 8 e e.text
  | .arith .pow l r => operandText 9 l l.text ++ " ** " ++ operandText 7 r r.text
  | .arith o l r =>
    operandText o.precedence l l.text ++ " " ++ o.symbol ++ " " ++
      operandText (o.precedence + 1) r r.text
  | .compare o l r =>
    operandText (o.precedence + 1) l l.text ++ " " ++ o.symbol ++ " " ++
      operandText (o.precedence + 1) r r.text
  | .and l r => operandText 2 l l.text ++ " && " ++ operandText 3 r r.text
  | .or l r => operandText 1 l l.text ++ " || " ++ operandText 2 r r.text
  | .call f as => f ++ "(" ++ ", ".intercalate (argTexts as) ++ ")"
  | .invoke e f as =>
    operandText 9 e e.text ++ "." ++ f ++ "(" ++ ", ".intercalate (argTexts as) ++ ")"
  | .branded x b => x ++ ": " ++ b

/-- The texts of the arguments of a call. -/
def argTexts : List Expr → List String
  | [] => []
  | a :: as => operandText 1 a a.text :: argTexts as

end

instance : ToString Expr := ⟨text⟩

end Expr

end Discharge
