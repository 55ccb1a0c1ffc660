import Discharge.Expr.Parser
import Discharge.Json.Parser

/-!
# Decoding JSON

Values of fixed shapes are read strictly: a known member may occur only once,
unknown members are skipped, and integers have to be written as such. A record
may also be written as the array of its members in their declared order.
-/

namespace Discharge.Json

def asText? : Json → Option String
  | .str s => some s
  | _ => none

def asBool? : Json → Option Bool
  | .bool b => some b
  | _ => none

/-- A natural number up to a bound, written without sign, fraction and
exponent. -/
def asNat? (bound : Nat) : Json → Option Nat
  | .num n =>
    let cs := n.toList
    let value := Fraction.digitsValue cs
    if cs.all Char.isDigit && decide (value ≤ bound) then some value else none
  | _ => none

def max32 : Nat := 0xFFFFFFFF

def max64 : Nat := 0xFFFFFFFFFFFFFFFF

/-- A list, all items of which decode. -/
def asList? {α : Type} (f : Json → Option α) : Json → Option (List α)
  | .arr js => js.mapM f
  | _ => none

/-- A value, or `null` for none. -/
def asOption? {α : Type} (f : Json → Option α) : Json → Option (Option α)
  | .null => some none
  | j => (f j).map some

/-- The text of a condition. -/
def asExpr? : Json → Option Expr
  | .str s => (Expr.parse s).toOption
  | _ => none

/-- One of several named cases: its name, or an object with the name as only
key and `null` as value. -/
def asCase? {α : Type} (cases : List (String × α)) : Json → Option α
  | .str s => cases.lookup s
  | .obj [(s, .null)] => cases.lookup s
  | _ => none

/-- The members of a record under their names. -/
structure Record where
  members : List (String × Json)

namespace Record

/-- The record that a value with the given members holds. -/
def ofJson? (fields : List String) : Json → Option Record
  | .obj ms =>
    if fields.all fun f => decide ((ms.filter (·.1 == f)).length ≤ 1) then some ⟨ms⟩ else none
  | .arr js => if js.length ≤ fields.length then some ⟨fields.zip js⟩ else none
  | _ => none

variable {α : Type} (r : Record) (key : String) (f : Json → Option α)

/-- A member that has to be there. -/
def required? : Option α := do
  f (← r.members.lookup key)

/-- A member with a value to take when it is absent. -/
def withDefault? (default : α) : Option α :=
  match r.members.lookup key with
  | some j => f j
  | none => some default

end Record

end Discharge.Json
