import Discharge.Fact.Known
import Discharge.Text.Quoted

/-!
# Rules

A rule looks at a canonical goal and at what is known, and either proves the
goal or declines. A rule that goes wrong does no harm: its fault is reported
and counts as declining.
-/

namespace Discharge

/-- What a rule that proves a goal reports. -/
structure RuleMatch where
  usedFacts : List Fact
  justification : String
  /-- Conditions established on the way. -/
  subgoals : List Expr
deriving DecidableEq

/-- How a rule can go wrong. -/
inductive RuleFault where
  /-- An error, with the contexts around it, the outermost first. -/
  | error (chain : List String)
  /-- A breakdown, with its message if it has one. -/
  | breakdown (message : Option String)
deriving DecidableEq

def RuleFault.message : RuleFault → String
  | .error chain => ": ".intercalate chain
  | .breakdown message => "panic: " ++ message.getD "rule panicked"

/-- The outcome of running a rule. -/
inductive RuleOutcome where
  | matched (found : RuleMatch)
  | declined
  | faulted (fault : RuleFault)
deriving DecidableEq

/-- A rule with its name. -/
structure Rule where
  name : String
  description : String
  run : Expr → Known → RuleOutcome

namespace Rule

/-- A rule from a test of the goal and the facts. Since the test does not say
which facts it used, a match cites all of them. -/
def ofTest (name description : String) (test : Expr → List Fact → Except RuleFault Bool) :
    Rule where
  name := name
  description := description
  run goal known :=
    match test goal known.facts with
    | .ok true => .matched ⟨known.facts.eraseDups, description, []⟩
    | .ok false => .declined
    | .error fault => .faulted fault

/-- Add a rule at the end, or in the place of the one with the same name. -/
def register (r : Rule) (rules : List Rule) : List Rule :=
  if rules.any (·.name == r.name) then rules.map fun s => if s.name = r.name then r else s
  else rules ++ [r]

/-- The rule with a given name. -/
def find? (rules : List Rule) (name : String) : Option Rule := rules.find? (·.name == name)

/-- The names of a list of rules as they are shown in diagnostics. -/
def diagnostic (rules : List Rule) : String :=
  "[" ++ ", ".intercalate (rules.map (Text.quoted ·.name)) ++ "]"

end Rule

end Discharge
