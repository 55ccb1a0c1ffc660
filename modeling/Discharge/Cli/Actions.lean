import Discharge.Cli.Invocation
import Discharge.Cli.Report
import Discharge.Contract.Basic
import Discharge.Json.Printer
import Discharge.Solver.Program

/-!
# The actions of the tool
-/

namespace Discharge.Cli

/-- What a call finds around it. -/
structure Surroundings where
  /-- The text of a file. -/
  read : String → Except FileError String
  /-- The program of a given name. -/
  program : String → Program.Lookup

/-- What is said of a text that does not decode. -/
def undecodable : String := "<json error>"

namespace EngineOptions

/-- The settings: those of the file, if one is named, changed by the options. -/
def settings (o : EngineOptions) (s : Surroundings) : Run Config := do
  let config ← match o.config with
    | none => pure {}
    | some path =>
      match s.read path with
      | .error e => Run.fail ("failed to read config " ++ path) [e.message]
      | .ok text =>
        match Config.parse? text with
        | none => Run.fail ("in " ++ path) [Config.invalid, undecodable]
        | some config => pure config
  return { config with
    fastPath := config.fastPath && !o.noFastPath
    fourierMotzkin := config.fourierMotzkin && !o.noFourierMotzkin
    maxRows := o.maxRows.getD config.maxRows }

/-- The engine, with a started solver if one is named. -/
def engine (o : EngineOptions) (s : Surroundings) : Run Engine := do
  let engine : Engine := { registry := .builtin 1, config := ← o.settings s }
  match o.z3 with
  | none => return engine
  | some binary =>
    let program := s.program binary
    let state := SolverState.uninitialized.start (.done (Program.startUp binary program))
    if state ≠ .ready then
      Run.remark ("warning: external solver " ++ binary ++ " is " ++ state.text ++
        "; continuing without it")
    return { engine with solver := some (Program.solver binary program state) }

end EngineOptions

/-- Read a fact; it is about the first variable it mentions. -/
def readFact (text : String) : Run Fact :=
  match Expr.parse text with
  | .error e => Run.fail ("invalid fact `" ++ text ++ "`: " ++ e.message) []
  | .ok e =>
    match Fact.infer? e with
    | some f => pure f
    | none => Run.fail ("fact `" ++ text ++ "` mentions no variable") []

/-- What becomes of a goal, as a JSON object. -/
def outcomeJson (o : ProofOutcome) : Json :=
  .obj ([("proven", .bool o.isProven), ("certificate", o.certificate.toJson),
      ("warnings", .arr (o.warnings.map Warning.toJson))] ++
    Json.present "decidability" Classification.toJson o.classification)

def prove (e : Engine) (goalText : String) (facts : List String) (brand : Option String)
    (explain json : Bool) : Run Unit := do
  let facts ← facts.mapM readFact
  match Expr.parse goalText with
  | .error err => Run.fail ("invalid goal `" ++ goalText ++ "`: " ++ err.message) []
  | .ok goal =>
    match e.prove ⟨goal, brand⟩ facts with
    | .error err => Run.fail err.message []
    | .ok o =>
      if json then
        Run.say (outcomeJson o).pretty
      else
        match o.isProven, o.certificate.method with
        | true, some m => Run.say ("ok " ++ goal.text ++ " (" ++ m.text ++ ")")
        | _, _ =>
          Run.say ("runtime " ++ goal.text ++ ": " ++ o.certificate.failureReason.getD "unproven")
        o.warnings.forM fun w => Run.remark w.text
        if explain then Run.write o.certificate.text

def showDecision (r : DecisionRecord) (explain : Bool) : Run Unit := do
  let condition := r.kind.text ++ " " ++ r.goal.text
  match r.decision with
  | .proven =>
    let method := (r.certificate.method.map Method.text).getD ""
    Run.say ("  elide " ++ condition ++ " (" ++ method ++ ")")
  | .runtime =>
    Run.say ("  check " ++ condition)
    if explain then
      (Text.lines r.certificate.text).forM fun line => Run.say ("      " ++ line)
  r.warnings.forM fun w => Run.remark ("  " ++ w.text)

/-- Decide a contract and show the decisions. -/
def checkContract (e : Engine) (explain : Bool) (c : Contract) : Run (List DecisionRecord) :=
  match e.decide c with
  | .error err => Run.fail ("in function `" ++ c.function ++ "`") [err.message]
  | .ok records => do
    Run.say c.function
    records.forM fun r => showDecision r explain
    return records

/-- Decide the contracts of a file. -/
def check (e : Engine) (s : Surroundings) (input : String) (out : Option String)
    (explain denyWarnings : Bool) : Run Unit := do
  let text ← match s.read input with
    | .error err => Run.fail ("failed to read contracts " ++ input) [err.message]
    | .ok text => pure text
  let contracts ← match Contract.parseFile? text with
    | none => Run.fail (Contract.invalid input) [undecodable]
    | some contracts => pure contracts
  let records := (← contracts.mapM (checkContract e explain)).flatten
  let summary := DecisionSummary.ofRecords records
  Run.say ("summary: " ++ toString summary.proven ++ " elided, " ++ toString summary.runtime ++
    " runtime checks, " ++ toString summary.warnings ++ " warnings")
  if let some path := out then
    Run.save path (Json.arr (records.map DecisionRecord.toJson)).pretty
  if denyWarnings && decide (0 < summary.warnings) then
    Run.fail (toString summary.warnings ++
      " compile-time condition(s) fell back to runtime checks") []

/-- Show how a brand widens. -/
def widen (r : Registry) (source : String) (target : Option String) : Run Unit := do
  if !r.brands.contains source then
    Run.fail ("unknown brand `" ++ source ++ "`") []
  match target with
  | some target =>
    match r.wideningPath? source target with
    | none => Run.say ("no " ++ source ++ " does not widen to " ++ target)
    | some [] => Run.say ("yes " ++ source ++ " is " ++ target)
    | some path =>
      Run.say ("yes " ++ source ++ " widens to " ++ target)
      path.forM fun e => Run.say ("  " ++ e.source ++ " → " ++ e.target ++ ": " ++ e.proof)
  | none =>
    let reachable := r.wideningsOf source
    if reachable.isEmpty then Run.say (source ++ " widens to no other brand")
    reachable.forM fun (brand, path) =>
      Run.say ("→ " ++ brand ++ " (via " ++ " → ".intercalate (path.map (·.target)) ++ ")")

/-- List the brands, and in the table also the families. -/
def listBrands (r : Registry) (json : Bool) : Run Unit := do
  let known := r.brands.brands.keys.filterMap fun name =>
    (r.brands.predicate? name).map fun p => (name, p, r.classificationOf? name)
  let row (name class_ note : String) : Run Unit :=
    Run.say (padRight 12 name ++ " " ++ padRight 14 class_ ++ " " ++ note)
  if json then
    Run.say (Json.arr (known.map fun (name, p, info) =>
      .obj ([("name", .str name), ("predicate", .str p.text)] ++
        Json.present "decidability" Classification.toJson info))).pretty
  else
    known.forM fun (name, p, info) =>
      row name ((info.map (·.decidability.text)).getD "unclassified") p.text
    r.brands.families.forM fun f => row f.name f.decidability.text "(family)"

def Invocation.run (i : Invocation) (s : Surroundings) : Report :=
  Run.report do
    match i.action with
    | .prove goal facts brand explain json =>
      prove (← i.options.engine s) goal facts brand explain json
    | .check input out explain denyWarnings =>
      check (← i.options.engine s) s input out explain denyWarnings
    | .widen source target => widen (.builtin 1) source target
    | .brands json => listBrands (.builtin 1) json

end Discharge.Cli
