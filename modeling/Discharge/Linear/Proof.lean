import Discharge.Certificate.Step
import Discharge.Fact.Known
import Discharge.Linear.Feasibility

/-!
# Linear proofs

Two ways to prove a condition from linear facts. `LinearProof.byShape`
recognizes a few common shapes: sums of bounded terms, weaker bounds and chains
of two orderings. `LinearProof.byRefutation` adds the negated goal to the linear
facts and looks for a contradiction; facts that are not linear, and `!=`, are
left aside.
-/

namespace Discharge

/-- The outcome of a linear proof attempt. -/
structure LinearProof where
  rule : String
  status : Status
  reason : String
  usedFacts : List Fact
deriving DecidableEq

namespace LinearProof

def proven (p : LinearProof) : Bool := p.status == .proved

/-- The attempt as a step of a proof. -/
def toStep (p : LinearProof) (description : String) : Step where
  rule := p.rule
  description := description
  justification := p.reason
  usedFacts := p.usedFacts
  status := p.status

/-! ## Refutation -/

/-- Why a condition has not been refuted. -/
inductive Refusal where
  /-- A side of a comparison is not linear. -/
  | noForm (error : LinearizeError)
  /-- The negated goal agrees with the facts. -/
  | consistent (negation : Constraint)
  /-- The condition is not built from comparisons. -/
  | notArithmetic (condition : Expr)
  /-- The search ended without an answer. -/
  | limit (limit : Limit)

def Refusal.message : Refusal → String
  | .noForm e => e.message
  | .consistent c => "negation `" ++ c.text ++ "` is consistent with the linear facts"
  | .notArithmetic e => "`" ++ e.text ++ "` is not a linear arithmetic condition"
  | .limit l => l.message

/-- Why a part of a condition holds. -/
inductive Evidence where
  | trivial
  /-- Its negation leads to a contradiction. -/
  | contradiction (negation : Constraint) (row : Row) (eliminated : List String)

/-- The text of a piece of evidence. -/
def Evidence.text : Evidence → String
  | .trivial => "trivially true"
  | .contradiction c row eliminated =>
    "negation `" ++ c.text ++ "` yields `" ++ row.constantText ++ "`" ++
      (if eliminated.isEmpty then "" else " after eliminating " ++ Step.listed eliminated)

/-- The comparisons that together negate one. -/
def negations : CompareOp → List CompareOp
  | .eq => [.lt, .gt]
  | o => [o.negated]

/-- Show that a comparison contradicts the assumptions. -/
def contradict (assumptions : List Constraint) (maxRows : Nat) (o : CompareOp) (l r : Expr) :
    Except Refusal Evidence :=
  match Constraint.ofComparison o l r with
  | .error e => .error (.noForm e)
  | .ok c =>
    match Feasibility.check (assumptions ++ [c]) maxRows with
    | (.infeasible row, done) => .ok (.contradiction c row done.eliminated)
    | (.feasible, _) => .error (.consistent c)
    | (.inconclusive limit, _) => .error (.limit limit)

/-- Prove a condition by refuting its negation. A disjunction needs one side; if
neither is proved, a limit met on either side is reported first. -/
def refute (assumptions : List Constraint) (maxRows : Nat) :
    Expr → Except Refusal (List Evidence)
  | .bool true => .ok [.trivial]
  | .and l r => do
    let a ← refute assumptions maxRows l
    let b ← refute assumptions maxRows r
    return a ++ b
  | .or l r =>
    match refute assumptions maxRows l with
    | .ok a => .ok a
    | .error first =>
      match first, refute assumptions maxRows r with
      | _, .ok b => .ok b
      | .limit why, .error _ => .error (.limit why)
      | _, .error second => .error second
  | .compare o l r =>
    (negations o).mapM fun neg => contradict assumptions maxRows neg l r
  | e => .error (.notArithmetic e)

/-- The linear constraint that a comparison states. -/
def constraintOf? (c : Comparison) : Option Constraint :=
  if c.op = .ne then none else (Constraint.ofComparison c.op c.left c.right).toOption

/-- Prove a canonical goal by refutation, working with at most the given number
of rows. A proof cites every fact with a linear comparison. -/
def byRefutation (goal : Expr) (known : Known) (maxRows : Nat) : LinearProof :=
  let linear := known.comparisons.filterMap fun c => (constraintOf? c).map (·, c.fact)
  let rule := "fourier_motzkin"
  match refute (linear.map (·.1)) maxRows goal with
  | .ok evidence =>
    ⟨rule, .proved, "; ".intercalate (evidence.map Evidence.text),
      (linear.map (·.2)).eraseDups⟩
  | .error (.limit l) => ⟨rule, .inconclusive, l.message, []⟩
  | .error e => ⟨rule, .failed, e.message, []⟩

/-! ## Common shapes -/

/-- A reason and the facts it rests on. -/
abbrev Reasoned := String × List Fact

/-- A sum is positive, or not negative, because none of its terms is negative
and, for a strict bound, one of them is positive. -/
def sumOfBounded? (term : Expr) (k : Fraction) (strict : Bool) (known : Known) :
    Option Reasoned := do
  let summands := term.operands .add
  if !k.isZero || summands.length < 2 then none
  else do
    let used ← summands.mapM fun s =>
      match known.positive? s with
      | some fs => some (fs, true)
      | none => (known.nonNegative? s).map (·, false)
    if strict && !used.any (·.2) then none
    else
      let what := if strict then "positive" else "non-negative"
      some ("sum of bounded terms is " ++ what, used.flatMap (·.1))

/-- A lower bound follows from a known one that is at least as tight. -/
def weakerLower? (term : Expr) (k : Fraction) (strict : Bool) (known : Known) :
    Option Reasoned := do
  let b ← known.lowerBound? term
  let holds :=
    if strict then k.lt b.value || (b.value == k && b.strict) else k.le b.value
  if holds then
    let sign := if b.strict then " > " else " >= "
    some ("known bound " ++ term.text ++ sign ++ b.value.text, [b.fact])
  else none

/-- An upper bound follows from a known one that is at least as tight. -/
def weakerUpper? (term : Expr) (k : Fraction) (strict : Bool) (known : Known) :
    Option Reasoned := do
  let b ← known.upperBound? term
  let holds :=
    if strict then b.value.lt k || (b.value == k && b.strict) else b.value.le k
  if holds then
    let sign := if b.strict then " < " else " <= "
    some ("known bound " ++ term.text ++ sign ++ b.value.text, [b.fact])
  else none

/-- The known orderings between linear terms. -/
def linearOrderings (known : Known) : List Comparison :=
  known.comparisons.filter fun c =>
    (c.op == .gt || c.op == .ge) && c.left.linearize.isOk && c.right.linearize.isOk

/-- An ordering is known, or follows from two known ones with a common term. -/
def chained? (a c : Expr) (strict : Bool) (known : Known) : Option Reasoned :=
  let links := linearOrderings known
  let direct := links.findSome? fun k =>
    if k.left = a && k.right = c && (k.op.isStrict || !strict) then
      some ("known " ++ k.left.text ++ " " ++ k.op.symbol ++ " " ++ k.right.text, [k.fact])
    else none
  direct <|> links.findSome? fun first =>
    if first.left ≠ a then none
    else links.findSome? fun second =>
      if first.right = second.left && second.right = c &&
          (!strict || first.op.isStrict || second.op.isStrict) then
        some (a.text ++ " " ++ first.op.symbol ++ " " ++ first.right.text ++ " " ++
          second.op.symbol ++ " " ++ c.text, [first.fact, second.fact])
      else none

/-- The shapes of an ordering, in the order in which they are tried. -/
def shape? (l r : Expr) (strict : Bool) (known : Known) : Option Reasoned :=
  let bounded := match l, r with
    | .num _, .num _ => none
    | l, .num k => sumOfBounded? l k strict known <|> weakerLower? l k strict known
    | .num k, r => weakerUpper? r k strict known
    | _, _ => none
  bounded <|> chained? l r strict known

/-- Prove a canonical goal by its shape. -/
def byShape (goal : Expr) (known : Known) : LinearProof :=
  let rule := "linear_fast_path"
  let refused : LinearProof := ⟨rule, .failed, "no fast-path shape applies", []⟩
  let ordering (l r : Expr) (strict : Bool) : LinearProof :=
    match shape? l r strict known with
    | some (reason, used) => ⟨rule, .proved, reason, used.eraseDups⟩
    | none => refused
  if !goal.isLinear then ⟨rule, .failed, "`" ++ goal.text ++ "` is not linear", []⟩
  else match goal with
    | .compare .gt l r => ordering l r true
    | .compare .ge l r => ordering l r false
    | _ => refused

end LinearProof

end Discharge
