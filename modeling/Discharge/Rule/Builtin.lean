import Discharge.Rule.Basic

/-!
# Built-in rules

The rules for identical facts, for terms bounded below by zero, for sums and
products of positive terms, and for chains of orderings.
-/

namespace Discharge.Rule

def zero : Expr := .num .zero

/-- The term of a goal that compares it with zero in the given way. -/
def comparedWithZero? (o : CompareOp) : Expr → Option Expr
  | .compare p l (.num q) => if p = o && q.isZero then some l else none
  | _ => none

/-- The condition that a term is positive. -/
def positiveGoal (term : Expr) : Expr := .compare .gt term zero

/-- A rule that does not go wrong. -/
def ofFinder (name description : String) (find? : Expr → Known → Option RuleMatch) : Rule where
  name := name
  description := description
  run goal known :=
    match find? goal known with
    | some found => .matched found
    | none => .declined

/-- The goal is one of the atoms. -/
def identity : Rule :=
  ofFinder "identity" "goal is syntactically identical to a known fact" fun goal known =>
    (known.identical? goal).map fun a => ⟨[a.fact], "`" ++ goal.text ++ "` is assumed", []⟩

/-- A term known to be positive is not negative. -/
def positiveImpliesNonNegative : Rule :=
  ofFinder "positive_implies_non_negative" "a positive value is non-negative"
    fun goal known => do
      let term ← comparedWithZero? .ge goal
      if term.asNum.isSome then none
      else do
        let used ← known.positive? term
        return ⟨used, term.text ++ " > 0 implies " ++ term.text ++ " >= 0", [positiveGoal term]⟩

/-- Several terms are all known to be positive. -/
def allPositive? (what : String) (terms : List Expr) (known : Known) : Option RuleMatch :=
  if terms.length < 2 then none
  else do
    let used ← terms.mapM known.positive?
    return ⟨used.flatten.eraseDups,
      what ++ " of positive terms " ++ ", ".intercalate (terms.map Expr.text),
      terms.map positiveGoal⟩

/-- A sum of positive terms is positive. -/
def sumOfPositives : Rule :=
  ofFinder "sum_of_positives" "a sum of positive terms is positive" fun goal known => do
    let term ← comparedWithZero? .gt goal
    allPositive? "sum" (term.operands .add) known

/-- A product of positive factors is positive. -/
def productOfPositives : Rule :=
  ofFinder "product_of_positives" "a product of positive factors is positive"
    fun goal known => do
      let term ← comparedWithZero? .gt goal
      allPositive? "product" (term.operands .mul) known

/-- Two orderings with a common term that give an ordering of the others. -/
def chain? (goal a c : Expr) (strict : Bool) (known : Known) : Option RuleMatch :=
  let links := known.comparisons.filter fun k => k.op == .gt || k.op == .ge
  links.findSome? fun first =>
    if first.left ≠ a then none
    else links.findSome? fun second =>
      if first.right = second.left && second.right = c &&
          (!strict || first.op.isStrict || second.op.isStrict) then
        let p := Expr.compare first.op first.left first.right
        let q := Expr.compare second.op second.left second.right
        some ⟨[first.fact, second.fact].eraseDups,
          p.text ++ " and " ++ q.text ++ " give " ++ goal.text, [p, q]⟩
      else none

/-- Orderings chain. -/
def transitivity : Rule :=
  ofFinder "transitivity" "orderings chain through a shared middle term" fun goal known =>
    match goal with
    | .compare .gt a c => chain? goal a c true known
    | .compare .ge a c => chain? goal a c false known
    | _ => none

/-- The built-in rules in the order in which they are tried. -/
def builtin : List Rule :=
  [identity, positiveImpliesNonNegative, sumOfPositives, productOfPositives, transitivity]

end Discharge.Rule
