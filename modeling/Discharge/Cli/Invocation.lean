import Discharge.Cli.Help

/-!
# What a call asks for
-/

namespace Discharge.Cli

/-- The options that concern the engine. -/
structure EngineOptions where
  /-- The file that holds the settings. -/
  config : Option String := none
  noFastPath : Bool := false
  noFourierMotzkin : Bool := false
  maxRows : Option Nat := none
  /-- The program that solves what the engine cannot. -/
  z3 : Option String := none
deriving DecidableEq, Repr

/-- What is to be done. -/
inductive Action where
  /-- Prove a goal from facts. -/
  | prove (goal : String) (facts : List String) (brand : Option String) (explain json : Bool)
  /-- Decide the contracts of a file. -/
  | check (input : String) (out : Option String) (explain denyWarnings : Bool)
  /-- Show how a brand widens, to another one or to any. -/
  | widen (source : String) (target : Option String)
  | brands (json : Bool)
deriving DecidableEq, Repr

/-- A call of the tool. -/
structure Invocation where
  options : EngineOptions
  action : Action
deriving DecidableEq, Repr

/-- What a call asks for: to be run, to show a text, or nothing sensible. -/
inductive Request where
  | run (invocation : Invocation)
  | shown (text : String)
  | refused
deriving DecidableEq, Repr

/-- The options for the engine. One that is given after the command counts more
than one before it. -/
def EngineOptions.ofGiven (before after : Given) : EngineOptions where
  config := after.value? "config" <|> before.value? "config"
  noFastPath := before.has "no-fast-path" || after.has "no-fast-path"
  noFourierMotzkin := before.has "no-fourier-motzkin" || after.has "no-fourier-motzkin"
  maxRows := (after.value? "max-fm-rows" <|> before.value? "max-fm-rows").bind count?
  z3 := after.value? "z3" <|> before.value? "z3"

def Action.ofGiven? (command : String) (g : Given) : Option Action :=
  match command, g.parameters with
  | "prove", [goal] =>
    some (.prove goal (g.values "fact") (g.value? "brand") (g.has "explain") (g.has "json"))
  | "check", [input] =>
    some (.check input (g.value? "out") (g.has "explain") (g.has "deny-warnings"))
  | "widen", source :: rest => some (.widen source rest.head?)
  | "brands", [] => some (.brands (g.has "json"))
  | _, _ => none

/-- What the arguments of a call ask for. -/
def Request.ofArgs (args : List String) : Request :=
  match elide.read args with
  | .refused => .refused
  | .shown text => .shown text
  | .command name before after =>
    match Action.ofGiven? name after with
    | some action => .run ⟨.ofGiven before after, action⟩
    | none => .refused

end Discharge.Cli
