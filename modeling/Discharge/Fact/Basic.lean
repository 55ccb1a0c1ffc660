import Discharge.Brand.Catalog

/-!
# Facts

A fact is a predicate known to hold of a variable. The predicate may name the
variable, use the placeholder for it, or annotate it with a brand.
-/

namespace Discharge

/-- A predicate known to hold of a variable. -/
structure Fact where
  variableName : String
  predicate : Expr
deriving DecidableEq

namespace Fact

/-- A predicate attached to its first variable in order, if it has one other
than the placeholder. -/
def infer? (predicate : Expr) : Option Fact :=
  (predicate.freeVars.find? (· != Expr.placeholder)).map (⟨·, predicate⟩)

/-- The brand that a fact annotates its variable with. -/
def brand? (f : Fact) : Option String :=
  match f.predicate with
  | .branded _ b => some b
  | _ => none

/-- The predicate with the variable put for the placeholder. -/
def resolved (f : Fact) : Expr := f.predicate.instantiate f.variableName

/-- The conditions that a fact states: the canonical conjuncts of its predicate,
with known brands replaced by what they say. -/
def atoms (c : Catalog) (f : Fact) : List Expr :=
  (c.expand f.resolved).conjuncts.map (·.canonical)

def text (f : Fact) : String :=
  f.variableName ++ ": \x7b" ++ f.predicate.text ++ "\x7d"

/-- A fact as a JSON object. -/
def toJson (f : Fact) : Json :=
  .obj [("variable", .str f.variableName), ("predicate", .str f.predicate.text)]

/-- The fact that a JSON value holds. -/
def ofJson? (j : Json) : Option Fact := do
  let r ← Json.Record.ofJson? ["variable", "predicate"] j
  return {
    variableName := ← r.required? "variable" Json.asText?
    predicate := ← r.required? "predicate" Json.asExpr? }

end Fact

end Discharge
