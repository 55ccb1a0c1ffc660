import Discharge.Cli.Command

/-!
# Reading arguments

Arguments are read from left to right. An option that takes a value and has
none attached waits for the next argument, unless that is an option too; what
it got is looked at only when the next option or parameter arrives, or at the
end. After `--` every argument is a parameter.
-/

namespace Discharge.Cli

/-- Why the arguments are not to be run. -/
inductive Stop where
  /-- They are not what the tool takes. -/
  | refused
  /-- Help is asked for, in long form or short. -/
  | help (long : Bool)
  | version
deriving DecidableEq, Repr

/-- An option or parameter with the values it has so far. -/
inductive Pending where
  | flag (flag : Flag) (values : List String)
  | parameter (kind : ValueKind) (value : String)

/-- How the next argument is taken. -/
inductive Mode where
  | free
  /-- As the value of the pending option, if it is no option itself. -/
  | awaiting
  /-- As a parameter. -/
  | trailing
deriving DecidableEq, Repr

/-- What has been read of a command's arguments. -/
structure Given where
  /-- The options, by their long names, with their values. -/
  flags : List (String × List String) := []
  parameters : List String := []

namespace Given

/-- The option was given. -/
def has (g : Given) (long : String) : Bool := g.flags.any (·.1 == long)

def values (g : Given) (long : String) : List String :=
  (g.flags.filter (·.1 == long)).flatMap (·.2)

def value? (g : Given) (long : String) : Option String := (g.values long).head?

/-- The option was given with these values. -/
def record (g : Given) (f : Flag) (values : List String) : Except Stop Given :=
  let put (values : List String) : Given := { g with flags := g.flags ++ [(f.long, values)] }
  let once (g' : Given) : Except Stop Given := if g.has f.long then .error .refused else .ok g'
  let checked (v : String) (g' : Given) : Except Stop Given :=
    if f.kind.accepts v then .ok g' else .error .refused
  match f.arity, values with
  | .switch, [] => once (put [])
  | .counter, [] => .ok (put [])
  | .value _, [v] => do once (← checked v (put [v]))
  | .values _, [v] => checked v (put [v])
  | .optionalValue _ default, [] => once (put [default])
  | .optionalValue .., [v] => do once (← checked v (put [v]))
  | _, _ => .error .refused

/-- What has been read, together with what was pending. -/
def settle (g : Given) : Option Pending → Except Stop Given
  | none => .ok g
  | some (.flag f values) => g.record f values
  | some (.parameter kind v) =>
    if kind.accepts v then .ok { g with parameters := g.parameters ++ [v] }
    else .error .refused

end Given

/-- The state in which the next argument is read. -/
structure Scan where
  given : Given := {}
  pending : Option Pending := none
  mode : Mode := .free

/-- Two dashes with a name, and perhaps a value after an equals sign. -/
def long? (arg : List Char) : Option (String × Option String) :=
  match arg with
  | '-' :: '-' :: body@(_ :: _) =>
    let name := body.takeWhile (· != '=')
    let value := match body.dropWhile (· != '=') with
      | [] => none
      | _ :: v => some (String.ofList v)
    some (String.ofList name, value)
  | _ => none

/-- One dash with letters. -/
def short? (arg : List Char) : Option (List Char) :=
  match arg with
  | '-' :: '-' :: _ => none
  | '-' :: letters@(_ :: _) => some letters
  | _ => none

namespace Scan

/-- An option that takes no value. -/
def raise (s : Scan) (f : Flag) (long : Bool) : Except Stop Scan := do
  let g ← s.given.settle s.pending
  match f.arity with
  | .help => .error (.help long)
  | .version => .error .version
  | _ => return { given := ← g.record f [] }

/-- An option that takes a value, with the value attached to it. -/
def assign (s : Scan) (f : Flag) (attached : Option String) : Except Stop Scan := do
  let g ← s.given.settle s.pending
  match attached with
  | some v => return { given := ← g.record f [v] }
  | none => return { given := g, pending := some (.flag f []), mode := .awaiting }

/-- An option by its long name. -/
def takeLong (s : Scan) (flags : List Flag) (name : String) (attached : Option String) :
    Except Stop Scan :=
  match flags.find? (·.long == name) with
  | none => .error .refused
  | some f =>
    if f.takesValue then s.assign f attached
    else if attached.isSome then .error .refused
    else s.raise f true

/-- Options by their letters; the first that takes a value takes what is left,
perhaps after an equals sign. -/
def takeShort (s : Scan) (flags : List Flag) : List Char → Except Stop Scan
  | [] => .ok s
  | c :: cs =>
    match flags.find? (·.short == some c) with
    | none => .error .refused
    | some f =>
      if f.takesValue then
        s.assign f (match cs with
          | [] => none
          | '=' :: v => some (String.ofList v)
          | v => some (String.ofList v))
      else do (← s.raise f false).takeShort flags cs

/-- An argument that is no option: a value or a parameter. -/
def takePlain (s : Scan) (parameters : List Parameter) (arg : String) : Except Stop Scan :=
  match s.mode, s.pending with
  | .awaiting, some (.flag f _) => .ok { s with pending := some (.flag f [arg]), mode := .free }
  | _, _ => do
    let waiting := match s.pending with
      | some (.parameter ..) => 1
      | _ => 0
    match parameters[s.given.parameters.length + waiting]? with
    | none => .error .refused
    | some p =>
      return { given := ← s.given.settle s.pending, pending := some (.parameter p.kind arg),
               mode := if s.mode = .trailing then .trailing else .free }

def take (s : Scan) (flags : List Flag) (parameters : List Parameter) (arg : String) :
    Except Stop Scan :=
  if s.mode = .trailing then s.takePlain parameters arg
  else if arg = "--" then .ok { s with mode := .trailing }
  else match long? arg.toList, short? arg.toList with
    | some (name, attached), _ => s.takeLong flags name attached
    | none, some letters => s.takeShort flags letters
    | none, none => s.takePlain parameters arg

/-- Read arguments up to the name of a command; what follows it is left. -/
def upTo (isCommand : String → Bool) (flags : List Flag) (s : Scan) :
    List String → Except Stop (Scan × Option (String × List String))
  | [] => .ok (s, none)
  | arg :: args =>
    if s.mode = .free && isCommand arg then .ok (s, some (arg, args))
    else do upTo isCommand flags (← s.take flags [] arg) args

/-- Read all arguments of a command. -/
def all (flags : List Flag) (parameters : List Parameter) (s : Scan) :
    List String → Except Stop Given
  | [] => s.given.settle s.pending
  | arg :: args => do all flags parameters (← s.take flags parameters arg) args

end Scan

/-- What came of reading the arguments of a tool. -/
inductive Reading where
  | refused
  /-- A text to show instead of running a command. -/
  | shown (text : String)
  /-- A command, with what was given before its name and after it. -/
  | command (name : String) (before after : Given)

end Discharge.Cli
