import Discharge.Contract.Argument
import Discharge.Engine.Basic

/-!
# Contracts

The conditions of a function are decided one by one, from the facts that its
parameters give: a condition that is proved needs no runtime check.
-/

namespace Discharge

/-- When a condition has to hold. -/
inductive ConditionKind where
  | precondition | postcondition | invariant
deriving DecidableEq, Repr

/-- The name of a kind of condition. -/
def ConditionKind.text : ConditionKind → String
  | .precondition => "precondition"
  | .postcondition => "postcondition"
  | .invariant => "invariant"

/-- The kind of condition with a given name. -/
def ConditionKind.ofJson? : Json → Option ConditionKind :=
  Json.asCase?
    ([.precondition, .postcondition, .invariant].map fun k => (ConditionKind.text k, k))

structure Condition where
  kind : ConditionKind
  condition : Expr
  /-- The brand that the condition restates, if that is known. -/
  brand : Option String
deriving DecidableEq

/-- The condition that a JSON value holds. -/
def Condition.ofJson? (j : Json) : Option Condition := do
  let r ← Json.Record.ofJson? ["kind", "expr", "brand"] j
  return {
    kind := ← r.required? "kind" ConditionKind.ofJson?
    condition := ← r.required? "expr" Json.asExpr?
    brand := ← r.withDefault? "brand" (Json.asOption? Json.asText?) none }

structure Contract where
  function : String
  params : List Argument
  conditions : List Condition
deriving DecidableEq

namespace Contract

/-- The contract that a JSON value holds. -/
def ofJson? (j : Json) : Option Contract := do
  let r ← Json.Record.ofJson? ["function", "params", "conditions"] j
  return {
    function := ← r.required? "function" Json.asText?
    params := ← r.withDefault? "params" (Json.asList? Argument.ofJson?) []
    conditions := ← r.required? "conditions" (Json.asList? Condition.ofJson?) }

/-- The contracts that a JSON text holds. -/
def parseFile? (text : String) : Option (List Contract) := do
  let r ← Json.Record.ofJson? ["functions"] (← Json.parse? text)
  r.required? "functions" (Json.asList? ofJson?)

/-- The message for a text that holds no contracts. -/
def invalid (path : String) : String := "invalid contracts in " ++ path

end Contract

/-- What happens to a runtime check. -/
inductive Decision where
  /-- It is dropped. -/
  | proven
  /-- It stays. -/
  | runtime
deriving DecidableEq, Repr

def Decision.text : Decision → String
  | .proven => "proven"
  | .runtime => "runtime"

/-- The decision with a given name. -/
def Decision.ofJson? : Json → Option Decision :=
  Json.asCase? ([.proven, .runtime].map fun d => (Decision.text d, d))

/-- The decision on a condition of a function, with its grounds. -/
structure DecisionRecord where
  function : String
  kind : ConditionKind
  goal : Expr
  goalDigest : String
  decision : Decision
  certificate : Certificate
  warnings : List Warning
deriving DecidableEq

namespace DecisionRecord

/-- A record as a JSON object. -/
def toJson (r : DecisionRecord) : Json :=
  .obj ([("function", .str r.function), ("kind", .str r.kind.text), ("goal", .str r.goal.text),
      ("goal_digest", .str r.goalDigest), ("decision", .str r.decision.text),
      ("certificate", r.certificate.toJson)] ++
    Json.nonempty "warnings" Warning.toJson r.warnings)

/-- The record that a JSON value holds. -/
def ofJson? (j : Json) : Option DecisionRecord := do
  let r ← Json.Record.ofJson? ["function", "kind", "goal", "goal_digest", "decision",
    "certificate", "warnings"] j
  return {
    function := ← r.required? "function" Json.asText?
    kind := ← r.required? "kind" ConditionKind.ofJson?
    goal := ← r.required? "goal" Json.asExpr?
    goalDigest := ← r.required? "goal_digest" Json.asText?
    decision := ← r.required? "decision" Decision.ofJson?
    certificate := ← r.required? "certificate" Certificate.ofJson?
    warnings := ← r.withDefault? "warnings" (Json.asList? Warning.ofJson?) [] }

end DecisionRecord

/-- Decide the conditions of a contract, in order. The first goal or fact that
is malformed ends the decision. -/
def Engine.decide (e : Engine) (c : Contract) : Except EngineError (List DecisionRecord) :=
  let facts := c.params.flatMap Argument.facts
  c.conditions.mapM fun cond => do
    let outcome ← e.prove ⟨cond.condition, cond.brand⟩ facts
    return {
      function := c.function
      kind := cond.kind
      goal := cond.condition
      goalDigest := Digest.ofGoal cond.condition
      decision := if outcome.isProven then .proven else .runtime
      certificate := outcome.certificate
      warnings := outcome.warnings }

/-- How many conditions were decided which way, and with how many warnings. -/
structure DecisionSummary where
  proven : Nat
  runtime : Nat
  warnings : Nat
deriving DecidableEq, Repr

namespace DecisionSummary

/-- The summary of a list of records. -/
def ofRecords (rs : List DecisionRecord) : DecisionSummary where
  proven := rs.countP (·.decision == .proven)
  runtime := rs.countP (·.decision == .runtime)
  warnings := (rs.flatMap (·.warnings)).length

/-- A summary as a JSON object. -/
def toJson (s : DecisionSummary) : Json :=
  .obj [("proven", .nat s.proven), ("runtime", .nat s.runtime), ("warnings", .nat s.warnings)]

end DecisionSummary

end Discharge
