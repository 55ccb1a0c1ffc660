import Discharge.Expr.Printer
import Discharge.Json.Decode
import Discharge.Table

/-!
# How brands are decided

Each brand is classified by when its predicate can be settled. The class
decides what happens when a proof fails: for a brand that should be settled at
compile time that is worth a warning, for one that depends on runtime data it is
expected.
-/

namespace Discharge

/-- When a brand's predicate can be settled. -/
inductive Decidability where
  /-- Always at compile time. -/
  | compileTime
  /-- By a decision procedure. -/
  | decidable
  /-- Only at runtime. -/
  | runtime
deriving DecidableEq, Repr

def Decidability.text : Decidability → String
  | .compileTime => "compile-time"
  | .decidable => "decidable"
  | .runtime => "runtime"

/-- The class with a given name. -/
def Decidability.ofJson? : Json → Option Decidability :=
  Json.asCase? ([.compileTime, .decidable, .runtime].map fun d => (Decidability.text d, d))

/-- The strategy expected to settle a brand. -/
inductive Strategy where
  | constant | typeIdentity | algebraic | linear | smt | runtimeCheck
deriving DecidableEq, Repr

def Strategy.text : Strategy → String
  | .constant => "constant"
  | .typeIdentity => "type_identity"
  | .algebraic => "algebraic"
  | .linear => "linear"
  | .smt => "smt"
  | .runtimeCheck => "runtime_check"

/-- The strategy with a given name. -/
def Strategy.ofJson? : Json → Option Strategy :=
  Json.asCase?
    ([.constant, .typeIdentity, .algebraic, .linear, .smt, .runtimeCheck].map
      fun s => (Strategy.text s, s))

structure Classification where
  brand : String
  predicate : Expr
  decidability : Decidability
  strategy : Strategy
deriving DecidableEq

namespace Classification

/-- A classification as a JSON object. -/
def toJson (c : Classification) : Json :=
  .obj [("brand", .str c.brand), ("predicate", .str c.predicate.text),
    ("decidability", .str c.decidability.text), ("preferred_strategy", .str c.strategy.text)]

/-- The classification that a JSON value holds. -/
def ofJson? (j : Json) : Option Classification := do
  let r ← Json.Record.ofJson? ["brand", "predicate", "decidability", "preferred_strategy"] j
  return {
    brand := ← r.required? "brand" Json.asText?
    predicate := ← r.required? "predicate" Json.asExpr?
    decidability := ← r.required? "decidability" Decidability.ofJson?
    strategy := ← r.required? "preferred_strategy" Strategy.ofJson? }

end Classification

end Discharge
