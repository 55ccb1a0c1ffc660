import Discharge.Certificate.Step
import Discharge.Expr.Digest

/-!
# Certificates

A certificate records one attempt to prove a condition: the steps taken, the
outcome, and the state of the registry it was made under. That state is named
by a stamp, of which only the generation is written to JSON.
-/

namespace Discharge

/-- The state of a registry: which one, and how often it has been changed. -/
structure Stamp where
  token : Nat
  generation : Nat
deriving DecidableEq, Repr

/-- A certificate belongs to another state than the current one. -/
structure StampMismatch where
  expected : Stamp
  actual : Stamp
deriving DecidableEq, Repr

/-- The mismatch is between two registries. -/
def StampMismatch.otherRegistry (m : StampMismatch) : Bool :=
  m.expected.token != m.actual.token

def StampMismatch.message (m : StampMismatch) : String :=
  if m.otherRegistry then
    "registry mismatch (expected registry#" ++ toString m.expected.token ++ ", got registry#" ++
      toString m.actual.token ++ ")"
  else
    "registry changed since proof (generation " ++ toString m.expected.generation ++ " → " ++
      toString m.actual.generation ++ ")"

/-- A stamp agrees with the current one. -/
def Stamp.check (s current : Stamp) : Except StampMismatch Unit :=
  if s = current then .ok () else .error ⟨s, current⟩

inductive Outcome where
  | success | failure | pending
deriving DecidableEq, Repr

def Outcome.text : Outcome → String
  | .success => "success"
  | .failure => "failure"
  | .pending => "pending"

/-- The outcome with a given name. -/
def Outcome.ofJson? : Json → Option Outcome :=
  Json.asCase? ([.success, .failure, .pending].map fun o => (Outcome.text o, o))

/-- The strategy that proved a condition. -/
inductive Method where
  | constant | typeIdentity | algebraic | linear | smt
  /-- Each conjunct by itself. -/
  | conjunction
deriving DecidableEq, Repr

def Method.text : Method → String
  | .constant => "constant"
  | .typeIdentity => "type_identity"
  | .algebraic => "algebraic"
  | .linear => "linear"
  | .smt => "smt"
  | .conjunction => "conjunction"

/-- The method with a given name. -/
def Method.ofJson? : Json → Option Method :=
  Json.asCase?
    ([.constant, .typeIdentity, .algebraic, .linear, .smt, .conjunction].map
      fun m => (Method.text m, m))

/-- The record of an attempt to prove a condition. -/
structure Certificate where
  version : Nat
  goal : Expr
  goalDigest : String
  assumptions : List Fact
  steps : List Step
  outcome : Outcome
  method : Option Method
  failureReason : Option String
  generation : Nat
  /-- The state the certificate was made under, unless it has been read from
  JSON. -/
  stamp : Option Stamp
deriving DecidableEq

namespace Certificate

def isSuccess (c : Certificate) : Bool := c.outcome == .success

/-- A certificate before the attempt. -/
def start (goal : Expr) (assumptions : List Fact) (stamp : Option Stamp) : Certificate where
  version := 1
  goal := goal
  goalDigest := Digest.ofGoal goal
  assumptions := assumptions
  steps := []
  outcome := .pending
  method := none
  failureReason := none
  generation := (stamp.map (·.generation)).getD 0
  stamp := stamp

/-- The certificate of a success after the given steps. -/
def succeed (c : Certificate) (steps : List Step) (method : Method) : Certificate :=
  { c with steps := c.steps ++ steps, outcome := .success, method := some method }

/-- The certificate of a failure after the given steps. -/
def fail (c : Certificate) (steps : List Step) (reason : String) : Certificate :=
  { c with steps := c.steps ++ steps, outcome := .failure, failureReason := some reason }

/-- The certificate still belongs to the current state of a registry. One that
has been read from JSON knows only its generation. -/
def checkStamp (c : Certificate) (current : Stamp) : Except StampMismatch Unit :=
  (c.stamp.getD ⟨current.token, c.generation⟩).check current

/-- A certificate as a JSON object. -/
def toJson (c : Certificate) : Json :=
  .obj ([("version", .nat c.version), ("goal", .str c.goal.text),
      ("goal_digest", .str c.goalDigest), ("assumptions", .arr (c.assumptions.map Fact.toJson)),
      ("steps", .arr (c.steps.map Step.toJson)), ("outcome", .str c.outcome.text)] ++
    Json.present "method" (fun m => .str m.text) c.method ++
    Json.present "failure_reason" .str c.failureReason ++
    [("registry_generation", .nat c.generation)])

/-- The certificate that a JSON value holds. -/
def ofJson? (j : Json) : Option Certificate := do
  let r ← Json.Record.ofJson? ["version", "goal", "goal_digest", "assumptions", "steps",
    "outcome", "method", "failure_reason", "registry_generation"] j
  return {
    version := ← r.required? "version" (Json.asNat? Json.max32)
    goal := ← r.required? "goal" Json.asExpr?
    goalDigest := ← r.required? "goal_digest" Json.asText?
    assumptions := ← r.required? "assumptions" (Json.asList? Fact.ofJson?)
    steps := ← r.required? "steps" (Json.asList? Step.ofJson?)
    outcome := ← r.required? "outcome" Outcome.ofJson?
    method := ← r.withDefault? "method" (Json.asOption? Method.ofJson?) none
    failureReason := ← r.withDefault? "failure_reason" (Json.asOption? Json.asText?) none
    generation := ← r.required? "registry_generation" (Json.asNat? Json.max64)
    stamp := none }

/-- The certificate that a JSON text holds. -/
def parse? (text : String) : Option Certificate := do
  ofJson? (← Json.parse? text)

/-- How a certificate presents its outcome. -/
def outcomeText (c : Certificate) : String :=
  match c.outcome, c.method with
  | .success, some m => "success (" ++ m.text ++ ")"
  | .success, none => "success"
  | .failure, _ => "failure (" ++ c.failureReason.getD "unproven" ++ ")"
  | .pending, _ => "pending"

/-- The lines that present a certificate. -/
def lines (c : Certificate) : List String :=
  ["goal: " ++ c.goal.text, "outcome: " ++ c.outcomeText] ++
    (if c.assumptions.isEmpty then ["assumptions: none"]
      else "assumptions:" :: c.assumptions.map fun f => "  - " ++ f.text) ++
    ["steps:"] ++
    (if c.steps.isEmpty then ["  (none)"]
      else (c.steps.zipIdx 1).flatMap fun (s, i) => s.lines i)

/-- A certificate as text for people. -/
def text (c : Certificate) : String :=
  String.join (c.lines.map (· ++ "\n"))

end Certificate

end Discharge
