import Discharge.Brand.Widening
import Discharge.Certificate.Basic
import Discharge.Rule.Builtin

/-!
# Registries

A registry holds what proofs draw on: rules, widening edges, classifications and
brands. Every change raises its generation, so that the stamp of a certificate
tells whether the registry is still the same.
-/

namespace Discharge

/-- What proofs draw on. -/
structure Registry where
  /-- The number that tells registries apart. -/
  token : Nat
  generation : Nat
  rules : List Rule
  widening : WideningGraph
  classifications : Table Classification
  brands : Catalog

inductive Change where
  | rule (rule : Rule)
  | edge (edge : Edge)
  | classification (info : Classification)
  | brand (name : String) (predicate : Expr)
  | family (family : Family)
  | clearRules
  | clearEdges
  | clearClassifications
  | clearBrands

namespace Registry

/-- A registry in which nothing is registered. -/
def empty (token : Nat) : Registry := ⟨token, 0, [], [], [], .empty⟩

def builtinClasses : List (String × Decidability × Strategy) := [
  ("Positive", .compileTime, .typeIdentity),
  ("NonNegative", .compileTime, .typeIdentity),
  ("Byte", .decidable, .linear),
  ("Port", .decidable, .linear),
  ("Percentage", .decidable, .linear),
  ("NonZero", .decidable, .smt),
  ("NonEmpty", .decidable, .linear),
  ("Finite", .runtime, .runtimeCheck),
  ("Trimmed", .runtime, .runtimeCheck)]

/-- A registry with the built-in rules, edges, classifications and brands. -/
def builtin (token : Nat) : Registry where
  token := token
  generation := 0
  rules := Rule.builtin
  widening := WideningGraph.builtin
  classifications := builtinClasses.foldl (fun t (brand, class_, strategy) =>
    let predicate := (Catalog.builtin.predicate? brand).getD (.branded Expr.placeholder brand)
    t.insert brand ⟨brand, predicate, class_, strategy⟩) []
  brands := Catalog.builtin

/-- The stamp of the current state. -/
def stamp (r : Registry) : Stamp := ⟨r.token, r.generation⟩

/-- The registry after a change, apart from its generation. -/
def change (r : Registry) : Change → Registry
  | .rule rule => { r with rules := rule.register r.rules }
  | .edge e => { r with widening := r.widening.insert e }
  | .classification info =>
    { r with classifications := r.classifications.insert info.brand info }
  | .brand name predicate => { r with brands := r.brands.register name predicate }
  | .family f => { r with brands := r.brands.registerFamily f }
  | .clearRules => { r with rules := [] }
  | .clearEdges => { r with widening := [] }
  | .clearClassifications => { r with classifications := [] }
  | .clearBrands => { r with brands := .empty }

def apply (r : Registry) (c : Change) : Registry :=
  { r.change c with generation := r.generation + 1 }

/-- A shortest path by which a brand widens to another through known brands. -/
def wideningPath? (r : Registry) (a b : String) : Option (List Edge) :=
  r.widening.path? r.brands.contains a b

/-- A brand widens to another through known brands. -/
def canWiden (r : Registry) (a b : String) : Bool := (r.wideningPath? a b).isSome

/-- The brands that a brand widens to through known brands, with the paths. -/
def wideningsOf (r : Registry) (b : String) : List (String × List Edge) :=
  r.widening.reachable r.brands.contains b

/-- The classification of a brand; one that is not classified itself takes that
of its family. -/
def classificationOf? (r : Registry) (brand : String) : Option Classification :=
  match r.classifications.find? brand with
  | some info => some info
  | none => do
    let family ← r.brands.familyOf? brand
    let predicate ← family.predicate? brand
    let strategy := if family.decidability = .runtime then .runtimeCheck else .linear
    return ⟨brand, predicate, family.decidability, strategy⟩

end Registry

end Discharge
