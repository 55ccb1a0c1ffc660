import Discharge.Engine.Config
import Discharge.Engine.Outcome
import Discharge.Expr.Eval
import Discharge.Linear.Proof
import Discharge.Registry

/-!
# The engine

A goal runs through a fixed sequence of strategies, the cheapest first:

1. evaluation, if it has no variables;
2. identity: the facts state it;
3. widening: the brand of a fact widens to one that states it;
4. the rules of the registry, all of them;
5. linear arithmetic, by shape and then by refutation;
6. an external solver, if one is attached and ready.

A conjunction that none of them proves is split, and each conjunct runs through
the same sequence. Only a strategy that has established the goal proves it:
limits, faults and missing solvers leave it open.
-/

namespace Discharge

/-- A registry with settings, and perhaps a solver. -/
structure Engine where
  registry : Registry
  config : Config := {}
  solver : Option Solver := none

namespace Engine

variable (e : Engine)

/-! ## Strategies -/

/-- Settle a goal without variables by its value. -/
def byValue? (goal : Expr) : Option Attempt :=
  let step (status : Status) (justification : String) : Step :=
    { rule := "constant_evaluation"
      description := "`" ++ goal.text ++ "` has no free variables"
      justification := justification
      status := status }
  if goal.hasFreeVars then none
  else match goal.evalConstant? with
    | some (.bool true) =>
      some { verdict := .proven .constant, steps := [step .proved "evaluates to true"] }
    | some (.bool false) =>
      some {
        verdict := .refuted ("`" ++ goal.text ++ "` is always false")
        steps := [step .failed "evaluates to false"] }
    | _ => none

/-- The facts that state every conjunct of a goal. -/
def identicalFacts? (goal : Expr) (known : Known) : Option (List Fact) := do
  let atoms ← goal.conjuncts.mapM known.identical?
  return (atoms.map (·.fact)).eraseDups

/-- Prove a goal that the facts state. -/
def byIdentity? (goal : Expr) (known : Known) : Option Attempt := do
  let used ← identicalFacts? goal known
  return {
    verdict := .proven .typeIdentity
    steps := [
      { rule := "type_identity"
        description := "`" ++ goal.text ++ "` is already known"
        justification := "goal matches the facts syntactically"
        usedFacts := used
        status := .proved }] }

/-- The brand that a fact gives to a variable, by an annotation or by restating
the predicate of the brand. -/
def brandOfFact? (f : Fact) : Option (String × String) :=
  match f.predicate with
  | .branded x b => some (b, if x = Expr.placeholder then f.variableName else x)
  | _ => e.registry.brands.brandOf? f.resolved

/-- A path from the brand of a fact to one that states a canonical condition. -/
def pathTo? (condition : Expr) (f : Fact) : Option (List Edge) := do
  let (brand, x) ← e.brandOfFact? f
  let states (wider : String) : Bool :=
    (e.registry.brands.predicateFor? wider x).any fun p =>
      p.conjuncts.any (·.canonical == condition)
  let (_, path) ← (e.registry.wideningsOf brand).find? fun (wider, _) => states wider
  return path

/-- A fact that supports a condition, with the path if it takes a widening. -/
def support? (known : Known) (condition : Expr) : Option (Fact × Option (List Edge)) :=
  match known.identical? condition with
  | some a => some (a.fact, none)
  | none => known.facts.findSome? fun f => (e.pathTo? condition f).map fun p => (f, some p)

/-- The facts that support every conjunct of a goal, and the edges that takes, if
at least one conjunct takes a widening. -/
def widenedFacts? (goal : Expr) (known : Known) : Option (List Fact × List Edge) := do
  let supports ← goal.conjuncts.mapM (e.support? known)
  if supports.any (·.2.isSome) then
    let edges := supports.flatMap fun s => s.2.getD []
    some ((supports.map (·.1)).eraseDups, edges.eraseDups)
  else none

def byWidening? (goal : Expr) (known : Known) : Option Attempt := do
  let (used, edges) ← e.widenedFacts? goal known
  let path := edges.map fun d => d.source ++ " → " ++ d.target ++ " (" ++ d.proof ++ ")"
  return {
    verdict := .proven .typeIdentity
    steps := [
      { rule := "type_identity"
        description := "`" ++ goal.text ++ "` follows by brand widening"
        justification := "widened via " ++ Step.listed path
        usedFacts := used
        status := .proved }] }

/-- The step that running a rule leaves. -/
def ruleStep (r : Rule) : RuleOutcome → Step
  | .matched m =>
    { rule := r.name
      description := r.description
      justification := m.justification
      usedFacts := m.usedFacts
      subgoals := m.subgoals
      status := .proved }
  | .declined =>
    { rule := r.name
      description := r.description
      justification := "pattern did not match"
      status := .failed }
  | .faulted fault =>
    { rule := r.name
      description := r.description
      justification := "rule faulted: " ++ fault.message
      status := .inconclusive }

/-- The warning for a rule that went wrong. -/
def ruleWarning? (goal : Expr) (r : Rule) : RuleOutcome → Option Warning
  | .faulted fault => some {
      kind := .ruleFault
      brand := none
      message := "rule `" ++ r.name ++ "` faulted on `" ++ goal.text ++ "`: " ++ fault.message
      certificate := none }
  | _ => none

def runRules (goal : Expr) (known : Known) : List Step × List Warning :=
  let outcomes := e.registry.rules.map fun r => (r, r.run goal known)
  (outcomes.map fun (r, o) => ruleStep r o, outcomes.filterMap fun (r, o) => ruleWarning? goal r o)

/-- Some step has proved the goal. -/
def anyProved (steps : List Step) : Bool := steps.any (·.status == .proved)

/-- Try linear arithmetic, first by shape and then, unless that proves the goal,
by refutation. -/
def runLinear (goal : Expr) (known : Known) : List Step :=
  let shape :=
    if e.config.fastPath then
      [(LinearProof.byShape goal known).toStep "linear arithmetic fast path"]
    else []
  if anyProved shape || !e.config.fourierMotzkin then shape
  else
    shape ++ [(LinearProof.byRefutation goal known e.config.maxRows).toStep
      "Fourier–Motzkin refutation"]

/-- The step that an answer of a solver leaves. -/
def verdictStep (description : String) (facts : List Fact) : SolverVerdict → Step
  | .proven =>
    { rule := "smt"
      description := description
      justification := "negated goal is unsatisfiable"
      usedFacts := facts
      status := .proved }
  | .refuted =>
    { rule := "smt"
      description := description
      justification := "a model of the facts violates the goal"
      status := .failed }
  | .unknown why =>
    { rule := "smt", description := description, justification := why, status := .inconclusive }

/-- Ask the solver, if there is one and it is wanted. A solver that is not ready
is not asked. -/
def runSolver (goal : Expr) (known : Known) : List Step × List Question :=
  match if e.config.useSolver then e.solver else none with
  | none => ([], [])
  | some s =>
    let description := "external solver " ++ s.name
    if s.isReady then
      let q : Question := ⟨goal, known.atoms.map (·.condition)⟩
      ([verdictStep description known.facts (s.check q)], [q])
    else
      ([verdictStep description [] (.unknown ("solver is " ++ s.state.text))], [])

/-! ## The search -/

/-- Run the rules, linear arithmetic and the solver. -/
def byProcedure (goal : Expr) (known : Known) : Attempt :=
  let (rules, warnings) := e.runRules goal known
  if anyProved rules then
    { verdict := .proven .algebraic, steps := rules, warnings := warnings }
  else
    let linear := e.runLinear goal known
    if anyProved linear then
      { verdict := .proven .linear, steps := rules ++ linear, warnings := warnings }
    else
      let (solver, questions) := e.runSolver goal known
      { verdict :=
          if anyProved solver then .proven .smt
          else .unproven ("no strategy proved `" ++ goal.text ++ "`")
        steps := rules ++ linear ++ solver
        warnings := warnings
        questions := questions }

/-- Run a canonical goal through the strategies, without splitting it. -/
def searchWhole (goal : Expr) (known : Known) : Attempt :=
  match byValue? goal with
  | some a => a
  | none =>
    match byIdentity? goal known with
    | some a => a
    | none =>
      match e.byWidening? goal known with
      | some a => a
      | none => e.byProcedure goal known

/-- A step in the proof of a conjunct says which conjunct that is. -/
def markStep (part : Expr) (s : Step) : Step :=
  { s with description := "[" ++ part.text ++ "] " ++ s.description }

/-- The step that splits a goal into conjuncts, some of which stay open. -/
def splitStep (parts unproven : List Expr) : Step where
  rule := "conjunction"
  description := "split conjunctive goal"
  justification :=
    if unproven.isEmpty then "all " ++ toString parts.length ++ " conjuncts proven"
    else "unproven: " ++ Step.listed (unproven.map Expr.text)
  subgoals := parts
  status := if unproven.isEmpty then .proved else .failed

/-- The reason of the first attempt that found its goal to be false. -/
def refutation? (attempts : List Attempt) : Option String :=
  attempts.findSome? fun a =>
    match a.verdict with
    | .refuted reason => some reason
    | _ => none

/-- Prove the conjuncts of a goal one by one, after the attempt on the whole. -/
def searchParts (goal : Expr) (known : Known) (whole : Attempt) : Attempt :=
  let parts := goal.conjuncts.map fun p => (p, e.searchWhole p known)
  let unproven := (parts.filter fun (_, a) => !a.isProven).map (·.1)
  let attempts := parts.map (·.2)
  { verdict :=
      if unproven.isEmpty then .proven .conjunction
      else match refutation? attempts with
        | some reason => .refuted reason
        | none => .unproven ("no strategy proved " ++ Step.listed (unproven.map Expr.text))
    steps := whole.steps ++ splitStep goal.conjuncts unproven ::
      parts.flatMap fun (p, a) => a.steps.map (markStep p)
    warnings := whole.warnings ++ attempts.flatMap (·.warnings)
    questions := whole.questions ++ attempts.flatMap (·.questions) }

/-- Search for a proof of a canonical goal. -/
def search (goal : Expr) (known : Known) : Attempt :=
  let whole := e.searchWhole goal known
  match whole.verdict with
  | .unproven _ => if goal.isConjunction then e.searchParts goal known whole else whole
  | _ => whole

/-! ## Proving -/

/-- The goal has to be boolean. -/
def validateGoal (goal : Expr) : Except EngineError Unit :=
  if goal.isBoolean then .ok () else .error (.goalNotBoolean goal)

/-- A fact has to be a boolean predicate about a variable. -/
def validateFact (f : Fact) : Except EngineError Unit :=
  if !Expr.isName f.variableName || f.variableName = Expr.placeholder then
    .error (.notAVariable f)
  else if f.predicate.isBoolean then .ok ()
  else .error (.factNotBoolean f)

/-- The classification of a goal, by its own brand or by the one it restates. -/
def classify (goal : Goal) : Option Classification := do
  let brand ← goal.brand <|> (e.registry.brands.brandOf? goal.condition).map (·.1)
  e.registry.classificationOf? brand

/-- Why a goal is left to a runtime check. -/
def finalReason (reason : String) : Option Classification → String
  | some info =>
    if info.decidability = .runtime then
      reason ++ "; brand `" ++ info.brand ++ "` is checked at runtime"
    else reason
  | none => reason

/-- The warning for a compile-time brand that keeps its runtime check. -/
def fallbackWarning? (goal : Goal) (certificate : Certificate) :
    Option Classification → Option Warning
  | some info =>
    if info.decidability = .compileTime && e.config.warnOnFallback then some {
      kind := .compileTimeFallback
      brand := some info.brand
      message := "`" ++ goal.condition.text ++ "` for compile-time brand `" ++ info.brand ++
        "` could not be proven; a runtime check is emitted"
      certificate := some certificate.text }
    else none
  | none => none

/-- The outcome of an attempt. -/
def conclude (goal : Goal) (facts : List Fact) (a : Attempt) : ProofOutcome :=
  let info := e.classify goal
  let start := Certificate.start goal.condition facts (some e.registry.stamp)
  let giveUp (reason : String) : ProofOutcome :=
    let certificate := start.fail a.steps (finalReason reason info)
    ⟨certificate, a.warnings ++ (e.fallbackWarning? goal certificate info).toList, info,
      a.questions⟩
  match a.verdict with
  | .proven method => ⟨start.succeed a.steps method, a.warnings, info, a.questions⟩
  | .refuted reason => giveUp reason
  | .unproven reason => giveUp reason

/-- Prove a goal from facts, or give up on it. Brands in the goal are replaced
by what they say before the search. -/
def prove (goal : Goal) (facts : List Fact) : Except EngineError ProofOutcome := do
  validateGoal goal.condition
  facts.forM validateFact
  let known := Known.ofFacts e.registry.brands facts
  let target := (e.registry.brands.expand goal.condition).canonical
  return e.conclude goal facts (e.search target known)

/-- Prove a goal given as text. -/
def proveText (goal : String) (facts : List Fact) : Except EngineError ProofOutcome :=
  match Expr.parse goal with
  | .ok condition => e.prove { condition := condition } facts
  | .error err => .error (.goalUnreadable goal err)

end Engine

end Discharge
