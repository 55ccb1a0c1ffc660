import Discharge.Certificate.Basic
import Discharge.Solver.Basic

/-!
# Goals and what becomes of them
-/

namespace Discharge

/-- A condition to prove, with the brand it stands for if that is known. -/
structure Goal where
  condition : Expr
  brand : Option String := none
deriving DecidableEq

/-- Why a proof cannot even be attempted. -/
inductive EngineError where
  /-- The goal is no condition. -/
  | goalUnreadable (text : String) (error : ParseError)
  | goalNotBoolean (goal : Expr)
  /-- The variable of a fact is no name. -/
  | notAVariable (fact : Fact)
  /-- The predicate of a fact is not boolean. -/
  | factNotBoolean (fact : Fact)
deriving DecidableEq

namespace EngineError

/-- The error lies with the goal, not with a fact. -/
def isAboutGoal : EngineError → Bool
  | .goalUnreadable .. | .goalNotBoolean _ => true
  | .notAVariable _ | .factNotBoolean _ => false

def message : EngineError → String
  | .goalUnreadable text e => "malformed goal `" ++ text ++ "`: " ++ e.message
  | .goalNotBoolean goal => "malformed goal `" ++ goal.text ++ "`: not a boolean condition"
  | .notAVariable f => "malformed fact for `" ++ f.variableName ++ "`: not a variable name"
  | .factNotBoolean f =>
    "malformed fact for `" ++ f.variableName ++ "`: `" ++ f.predicate.text ++
      "` is not a boolean condition"

end EngineError

/-- What a warning is about. -/
inductive WarningKind where
  /-- A compile-time brand keeps its runtime check. -/
  | compileTimeFallback
  /-- A rule went wrong and was skipped. -/
  | ruleFault
deriving DecidableEq, Repr

/-- The name of a kind of warning. -/
def WarningKind.text : WarningKind → String
  | .compileTimeFallback => "compile_time_fallback"
  | .ruleFault => "rule_fault"

/-- The kind of warning with a given name. -/
def WarningKind.ofJson? : Json → Option WarningKind :=
  Json.asCase? ([.compileTimeFallback, .ruleFault].map fun k => (WarningKind.text k, k))

structure Warning where
  kind : WarningKind
  brand : Option String
  message : String
  /-- The text of the certificate of the failed proof. -/
  certificate : Option String
deriving DecidableEq

namespace Warning

def text (w : Warning) : String := "warning: " ++ w.message

/-- A warning as a JSON object. -/
def toJson (w : Warning) : Json :=
  .obj ([("kind", .str w.kind.text)] ++ Json.present "brand" .str w.brand ++
    [("message", .str w.message)] ++ Json.present "certificate" .str w.certificate)

/-- The warning that a JSON value holds. -/
def ofJson? (j : Json) : Option Warning := do
  let r ← Json.Record.ofJson? ["kind", "brand", "message", "certificate"] j
  return {
    kind := ← r.required? "kind" WarningKind.ofJson?
    brand := ← r.withDefault? "brand" (Json.asOption? Json.asText?) none
    message := ← r.required? "message" Json.asText?
    certificate := ← r.withDefault? "certificate" (Json.asOption? Json.asText?) none }

end Warning

/-- How a search for a proof ended. -/
inductive Verdict where
  | proven (method : Method)
  /-- The condition is false. -/
  | refuted (reason : String)
  | unproven (reason : String)
deriving DecidableEq

/-- A search for a proof: how it ended, its steps and warnings, and the
questions the solver was asked. -/
structure Attempt where
  verdict : Verdict
  steps : List Step
  warnings : List Warning := []
  questions : List Question := []
deriving DecidableEq

/-- The search has found a proof. -/
def Attempt.isProven (a : Attempt) : Bool :=
  match a.verdict with
  | .proven _ => true
  | _ => false

/-- What becomes of a goal. -/
structure ProofOutcome where
  certificate : Certificate
  warnings : List Warning
  /-- The classification of the goal's brand. -/
  classification : Option Classification
  /-- The questions the solver was asked. -/
  questions : List Question
deriving DecidableEq

def ProofOutcome.isProven (o : ProofOutcome) : Bool := o.certificate.isSuccess

end Discharge
