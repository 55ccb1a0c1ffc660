import Discharge.Expr.Basic
import Discharge.Text.Space

/-!
# Evaluation

The value of a condition under a lookup for its variables. Whatever cannot be
computed exactly (an unknown call, a division by zero, a number that is no word,
operands of different kinds) has no value.
-/

namespace Discharge

/-- What an expression can evaluate to. -/
inductive Value where
  | bool (value : Bool)
  | num (value : Fraction)
  | str (value : String)
deriving DecidableEq

namespace Value

/-- The truth value, when it is one. -/
def asBool? : Value → Option Bool
  | .bool b => some b
  | _ => none

/-- The number, when it is one. -/
def asNum? : Value → Option Fraction
  | .num q => some q
  | _ => none

end Value

/-- The largest exponent that is evaluated. -/
def maxExponent : Nat := 128

def ArithOp.apply? : ArithOp → Fraction → Fraction → Option Fraction
  | .add, a, b => a.add? b
  | .sub, a, b => a.sub? b
  | .mul, a, b => a.mul? b
  | .div, a, b => a.div? b
  | .rem, a, b => a.rem? b
  | .pow, a, b =>
    if b.isInteger && !b.isNegative && decide (b.num ≤ maxExponent) then a.pow? b.num.toNat
    else none

def CompareOp.holds (o : CompareOp) (a b : Fraction) : Bool :=
  match o with
  | .lt => a.lt b
  | .le => a.le b
  | .gt => b.lt a
  | .ge => b.le a
  | .eq => a == b
  | .ne => a != b

/-- A comparison of values. Texts and truth values only have equality, and
values of different kinds do not compare. -/
def CompareOp.apply? (o : CompareOp) : Value → Value → Option Bool
  | .num a, .num b => some (o.holds a b)
  | .str a, .str b =>
    match o with
    | .eq => some (a == b)
    | .ne => some (a != b)
    | _ => none
  | .bool a, .bool b =>
    match o with
    | .eq => some (a == b)
    | .ne => some (a != b)
    | _ => none
  | _, _ => none

namespace Expr

/-- The value of an expression, given the numbers that its variables stand for.
`&&` and `||` look at their right side only when the left side leaves the answer
open. -/
def eval? (env : String → Option Fraction) : Expr → Option Value
  | .bool b => some (.bool b)
  | .num q => some (.num q)
  | .str s => some (.str s)
  | .var x => (env x).map .num
  | .branded .. => none
  | .member e f => do
    match ← e.eval? env with
    | .str s => if f = "length" then (Fraction.ofInt? s.length).map .num else none
    | _ => none
  | .neg e => do
    let q ← (← e.eval? env).asNum?
    return .num (← q.neg?)
  | .not e => do
    let b ← (← e.eval? env).asBool?
    return .bool !b
  | .arith o l r => do
    let a ← l.eval? env
    let b ← r.eval? env
    return .num (← o.apply? (← a.asNum?) (← b.asNum?))
  | .compare o l r => do
    let a ← l.eval? env
    let b ← r.eval? env
    return .bool (← o.apply? a b)
  | .and l r => do
    if ← (← l.eval? env).asBool? then
      return .bool (← (← r.eval? env).asBool?)
    else return .bool false
  | .or l r => do
    if ← (← l.eval? env).asBool? then return .bool true
    else return .bool (← (← r.eval? env).asBool?)
  | .call f [a] =>
    if f = "Number.isFinite" then do
      let v ← a.eval? env
      return .bool v.asNum?.isSome
    else if f = "Number.isInteger" then do
      let v ← a.eval? env
      return .bool (v.asNum?.any Fraction.isInteger)
    else none
  | .call _ _ => none
  | .invoke e f [] =>
    if f = "trim" then do
      match ← e.eval? env with
      | .str s => return .str (Text.trim s)
      | _ => none
    else none
  | .invoke _ _ _ => none

/-- The value of an expression that needs no variable. -/
def evalConstant? (e : Expr) : Option Value :=
  e.eval? fun _ => none

end Expr

end Discharge
