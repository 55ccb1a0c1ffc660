import Discharge.Brand.Family
import Discharge.Expr.Canonical

/-!
# The catalog of brands

What each brand means: a predicate over the placeholder, registered under the
brand's name or derived from a family.
-/

namespace Discharge

structure Catalog where
  brands : Table Expr
  /-- Families in the order in which they are tried. -/
  families : List Family

namespace Catalog

def empty : Catalog := ⟨[], []⟩

/-- Register a brand, or replace its predicate. -/
def register (c : Catalog) (brand : String) (predicate : Expr) : Catalog :=
  { c with brands := c.brands.insert brand predicate }

/-- Register a family in the last place; one of the same name is dropped. -/
def registerFamily (c : Catalog) (f : Family) : Catalog :=
  { c with families := c.families.filter (·.name != f.name) ++ [f] }

/-- The built-in brands and their predicates. -/
def builtinBrands : List (String × String) := [
  ("Positive", "$ > 0"),
  ("NonNegative", "$ >= 0"),
  ("Byte", "$ >= 0 && $ <= 255"),
  ("Port", "$ >= 1 && $ <= 65535"),
  ("Percentage", "$ >= 0 && $ <= 100"),
  ("NonZero", "$ != 0"),
  ("Finite", "Number.isFinite($)"),
  ("NonEmpty", "$.length > 0"),
  ("Trimmed", "$ === $.trim()")]

/-- The built-in brands and the family of vectors. -/
def builtin : Catalog :=
  (builtinBrands.foldl (fun c (brand, text) =>
    match Expr.parse text with
    | .ok p => c.register brand p
    | .error _ => c) empty).registerFamily .vector

/-- The family a brand belongs to. -/
def familyOf? (c : Catalog) (brand : String) : Option Family :=
  c.families.find? (·.covers brand)

/-- The brand is known by itself or through a family. -/
def contains (c : Catalog) (brand : String) : Bool :=
  c.brands.contains brand || (c.familyOf? brand).isSome

/-- The predicate of a brand, over the placeholder. -/
def predicate? (c : Catalog) (brand : String) : Option Expr :=
  match c.brands.find? brand with
  | some p => some p
  | none => do (← c.familyOf? brand).predicate? brand

/-- The predicate of a brand, said of a variable. -/
def predicateFor? (c : Catalog) (brand x : String) : Option Expr :=
  (c.predicate? brand).map (·.instantiate x)

/-- The registered brand that a condition restates for one of its variables.
The first brand by name counts, and for it the first variable. -/
def brandOf? (c : Catalog) (e : Expr) : Option (String × String) :=
  match e with
  | .branded x b => some (b, x)
  | _ =>
    c.brands.findSome? fun (b, p) =>
      (e.freeVars.find? fun x => (p.instantiate x).canonical == e.canonical).map (b, ·)

/-- Replace each known brand annotation among negations, conjunctions and
disjunctions by what it says. -/
def expand (c : Catalog) : Expr → Expr
  | .branded x b => (c.predicateFor? b x).getD (.branded x b)
  | .and l r => .and (c.expand l) (c.expand r)
  | .or l r => .or (c.expand l) (c.expand r)
  | .neg e => .neg (c.expand e)
  | .not e => .not (c.expand e)
  | e => e

end Catalog

end Discharge
