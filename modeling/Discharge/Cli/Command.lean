import Discharge.Json.Decode

/-!
# What the command line offers

Commands with their options and parameters, as data: reading arguments and
writing help both follow these descriptions.
-/

namespace Discharge.Cli

/-- What an option takes, and how often it may be given. -/
inductive Arity where
  /-- Nothing, and at most once. -/
  | switch
  /-- Nothing, any number of times. -/
  | counter
  /-- One value, and at most once. -/
  | value (name : String)
  /-- One value each time, any number of times. -/
  | values (name : String)
  /-- At most one value, which has a default, and at most once. -/
  | optionalValue (name default : String)
  /-- Nothing: help is shown, and nothing else happens. -/
  | help
  /-- Nothing: the version is shown, and nothing else happens. -/
  | version
deriving DecidableEq, Repr

/-- Which texts are values. -/
inductive ValueKind where
  | text
  /-- Any text but the empty one. -/
  | path
  /-- A number that fits in 64 bits. -/
  | count
deriving DecidableEq, Repr

/-- The number that a text stands for: digits, perhaps after a plus sign. -/
def count? (text : String) : Option Nat :=
  let digits := match text.toList with
    | '+' :: cs => cs
    | cs => cs
  let value := Fraction.digitsValue digits
  if !digits.isEmpty && digits.all Char.isDigit && decide (value ≤ Json.max64) then some value
  else none

/-- The text is a value of the kind. -/
def ValueKind.accepts (k : ValueKind) (text : String) : Bool :=
  match k with
  | .text => true
  | .path => !text.isEmpty
  | .count => (count? text).isSome

structure Flag where
  /-- The name after two dashes. -/
  long : String
  /-- The letter after one dash. -/
  short : Option Char := none
  arity : Arity := .switch
  kind : ValueKind := .text
  about : String
deriving DecidableEq

def Flag.takesValue (f : Flag) : Bool :=
  match f.arity with
  | .value _ | .values _ | .optionalValue .. => true
  | .switch | .counter | .help | .version => false

/-- An argument that is known by its position. -/
structure Parameter where
  name : String
  required : Bool := true
  kind : ValueKind := .text
  about : String
deriving DecidableEq

structure Command where
  name : String
  /-- What the command does, in one line. -/
  about : String
  /-- What the command does, at length. -/
  details : Option String := none
  parameters : List Parameter := []
  /-- The options of this command alone. -/
  flags : List Flag := []
deriving DecidableEq

structure Tool where
  name : String
  version : String
  about : String
  /-- The options that all commands take. -/
  shared : List Flag
  commands : List Command
deriving DecidableEq

namespace Tool

/-- The command with a given name. -/
def command? (t : Tool) (name : String) : Option Command :=
  t.commands.find? (·.name == name)

/-- The option that shows help. -/
def helpFlag (about : String) : Flag := ⟨"help", some 'h', .help, .text, about⟩

/-- The option that shows the version. -/
def versionFlag : Flag := ⟨"version", some 'V', .version, .text, "Print version"⟩

/-- The options before the name of a command. -/
def flags (t : Tool) : List Flag := t.shared ++ [helpFlag "Print help", versionFlag]

/-- The options after the name of a command. One that has more to say than a
line tells so. -/
def flagsOf (t : Tool) (c : Command) (long : Bool) : List Flag :=
  let about :=
    if c.details.isNone then "Print help"
    else if long then "Print help (see a summary with '-h')"
    else "Print help (see more with '--help')"
  c.flags ++ t.shared ++ [helpFlag about]

end Tool

def elide : Tool where
  name := "elide"
  version := "0.3.0"
  about := "Elide: prove contract conditions at compile time and drop their runtime checks"
  shared := [
    { long := "verbose", short := some 'v', arity := .counter
      about := "Increase log verbosity (-v info, -vv debug, -vvv trace)" },
    { long := "config", arity := .value "CONFIG", kind := .path
      about := "Engine configuration JSON; flags below override it" },
    { long := "no-fast-path", about := "Skip the pattern-based linear proofs" },
    { long := "no-fourier-motzkin", about := "Skip Fourier–Motzkin refutation" },
    { long := "max-fm-rows", arity := .value "MAX_FM_ROWS", kind := .count
      about := "Row limit for Fourier–Motzkin elimination" },
    { long := "z3", arity := .optionalValue "BIN" "z3"
      about := "Consult a z3 binary for goals the built-in strategies cannot prove" }]
  commands := [
    { name := "prove"
      about := "Prove a single condition"
      details := some ("Prove a single condition.\n\nFacts are predicates such as `x > 0` or " ++
        "brand annotations such as `x: Positive`; each is attached to its first variable.")
      parameters := [{ name := "GOAL", about := "Goal condition, e.g. \"x + y > 0\"" }]
      flags := [
        { long := "fact", short := some 'f', arity := .values "FACTS"
          about := "Known fact (repeatable)" },
        { long := "brand", arity := .value "BRAND"
          about := "Brand the goal restates (used for decidability classification)" },
        { long := "explain", about := "Print the full certificate" },
        { long := "json", about := "Emit JSON instead of text" }] },
    { name := "check"
      about := "Decide every condition in a contracts file"
      parameters := [{ name := "INPUT", kind := .path
                       about := "Contracts JSON (`\x7b \"functions\": [...] \x7d`)" }]
      flags := [
        { long := "out", short := some 'o', arity := .value "OUT", kind := .path
          about := "Write decision records as JSON" },
        { long := "explain"
          about := "Print certificates for conditions that keep their runtime check" },
        { long := "deny-warnings"
          about := "Fail if any compile-time brand falls back to a runtime check" }] },
    { name := "widen"
      about := "Show how one brand widens to another"
      parameters := [
        { name := "FROM", about := "Source brand" },
        { name := "TO", required := false
          about := "Target brand; omit to list every brand reachable from `from`" }] },
    { name := "brands"
      about := "List known brands with their predicates and decidability"
      flags := [{ long := "json", about := "Emit JSON instead of text" }] }]

end Discharge.Cli
