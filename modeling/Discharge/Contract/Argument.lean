import Discharge.Fact.Basic

/-!
# Arguments

What is known of an argument at a call: the brand of its type, and a refinement
of its own.
-/

namespace Discharge

structure Argument where
  name : String
  brand : Option String
  /-- A predicate over the placeholder or the name of the argument, as text. -/
  refinement : Option String
deriving DecidableEq

namespace Argument

/-- An argument as a JSON object. -/
def toJson (a : Argument) : Json :=
  .obj ([("name", .str a.name)] ++ Json.present "brand" .str a.brand ++
    Json.present "refinement" .str a.refinement)

/-- The argument that a JSON value holds. -/
def ofJson? (j : Json) : Option Argument := do
  let r ← Json.Record.ofJson? ["name", "brand", "refinement"] j
  return {
    name := ← r.required? "name" Json.asText?
    brand := ← r.withDefault? "brand" (Json.asOption? Json.asText?) none
    refinement := ← r.withDefault? "refinement" (Json.asOption? Json.asText?) none }

/-- The facts that hold of an argument. A refinement that is no condition is
left out. -/
def facts (a : Argument) : List Fact :=
  (a.brand.map fun b => Fact.mk a.name (.branded a.name b)).toList ++
    ((a.refinement.bind fun t => (Expr.parse t).toOption).map (Fact.mk a.name ·)).toList

end Argument

end Discharge
