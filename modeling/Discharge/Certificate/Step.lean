import Discharge.Fact.Basic

/-!
# Steps of a proof

Each strategy that runs leaves a step: what it tried, what came of it and why,
the facts it used and the conditions it established on the way.
-/

namespace Discharge

/-- What came of a step. -/
inductive Status where
  | proved
  | failed
  /-- A limit, a fault or a missing solver left the question open. -/
  | inconclusive
deriving DecidableEq, Repr

def Status.text : Status → String
  | .proved => "proved"
  | .failed => "failed"
  | .inconclusive => "inconclusive"

/-- The status with a given name. -/
def Status.ofJson? : Json → Option Status :=
  Json.asCase? ([.proved, .failed, .inconclusive].map fun s => (Status.text s, s))

structure Step where
  rule : String
  description : String
  justification : String
  usedFacts : List Fact := []
  subgoals : List Expr := []
  status : Status
deriving DecidableEq

namespace Step

/-- A step as a JSON object; empty lists are left out. -/
def toJson (s : Step) : Json :=
  .obj ([("rule", .str s.rule), ("description", .str s.description),
      ("justification", .str s.justification)] ++
    Json.nonempty "used_facts" Fact.toJson s.usedFacts ++
    Json.nonempty "subgoals" (fun e => .str e.text) s.subgoals ++
    [("status", .str s.status.text)])

/-- The step that a JSON value holds. -/
def ofJson? (j : Json) : Option Step := do
  let r ← Json.Record.ofJson?
    ["rule", "description", "justification", "used_facts", "subgoals", "status"] j
  return {
    rule := ← r.required? "rule" Json.asText?
    description := ← r.required? "description" Json.asText?
    justification := ← r.required? "justification" Json.asText?
    usedFacts := ← r.withDefault? "used_facts" (Json.asList? Fact.ofJson?) []
    subgoals := ← r.withDefault? "subgoals" (Json.asList? Json.asExpr?) []
    status := ← r.required? "status" Status.ofJson? }

/-- A list of texts with commas between them. -/
def listed (texts : List String) : String := ", ".intercalate texts

/-- The lines that present a step, the first with its number. -/
def lines (number : Nat) (s : Step) : List String :=
  ["  " ++ toString number ++ ". [" ++ s.status.text ++ "] " ++ s.rule ++ ": " ++ s.description] ++
    (if s.justification.isEmpty then [] else ["     because " ++ s.justification]) ++
    (if s.usedFacts.isEmpty then [] else ["     using " ++ listed (s.usedFacts.map Fact.text)]) ++
    (if s.subgoals.isEmpty then [] else ["     subgoals " ++ listed (s.subgoals.map Expr.text)])

end Step

end Discharge
